import NameBinding.Conversion.UserDefined
import NameBinding.Proofs.Template.Runs

/-!
# The ranks of conversions

The rank of a conversion says which step of the sequence decided it, and each step has a condition of its own.
The steps that make a temporary are taken only where the parameter may be bound to one, and for a reference
that is judged by the qualifiers of the base, at the inner end of the operator chain.

* `Cost.unranked`: the two operands of a conversion, before any step is tried.
* `Table.Ranked`: the steps that may decide the cost without user-defined functions.
* `conversionCost_ok`: how the cost of an argument comes about.

The main statement is `reference_to_temporary`: what a reference that is not to const can be bound to.
-/

namespace NameBinding

/-- The operands of a conversion between two resolved types. -/
def Cost.unranked (source target : Descriptor) : Cost where
  source := source.conversionOperand target.isReference
  target := target.conversionOperand target.isReference
  targetHadReference := target.isReference

namespace Descriptor

variable {type : Descriptor} {keepTopCv : Bool}

theorem baseCv_stripReference (type : Descriptor) : type.stripReference.baseCv = type.baseCv := by
  unfold stripReference
  split <;> rfl

theorem baseCv_decay (type : Descriptor) : type.decay.baseCv = type.baseCv := by
  unfold decay
  split <;> split <;> rfl

/-- The qualifiers of the base stay as long as those of the top level are kept. -/
theorem baseCv_conversionOperand (type : Descriptor) :
    (type.conversionOperand true).baseCv = type.baseCv := by
  change type.stripReference.decay.baseCv = type.baseCv
  rw [baseCv_decay, baseCv_stripReference]

/-- An operand has operators if the referred type has any. -/
theorem hasOps_conversionOperand (hasOps : type.stripReference.hasOps = true) :
    (type.conversionOperand keepTopCv).hasOps = true := by
  unfold conversionOperand
  generalize type.stripReference = referred at hasOps
  obtain ⟨kind, flags, ops, link, args, sort, constant, value⟩ := referred
  cases ops with
  | nil => cases hasOps
  | cons op rest =>
      by_cases harray : op.kind = .array <;> cases keepTopCv <;>
        simp [decay, harray, stripTopCv, setTopCv, stripDefault, stripSpecifiers, Descriptor.hasOps]

/-- Without operators the top level is the base. -/
theorem topCv_of_not_hasOps (plain : type.hasOps = false) : type.topCv = type.baseCv := by
  unfold topCv
  split
  · rename_i op rest hops
    simp [hasOps, hops] at plain
  · rfl

end Descriptor

namespace Table

variable {table : Table} {source target : Descriptor} {base cost : Cost}

/-- The steps that may decide the cost of a conversion without user-defined functions, given its operands. -/
inductive Ranked (table : Table) (base : Cost) : Cost → Prop where
  | identity (qualification : Nat) : Ranked table base { base with rank := .identity, qualification }
  | promotion (binds : base.bindsTemporary = true)
      (promotes : table.isPromotion base.source base.target = true) :
      Ranked table base { base with rank := .promotion }
  | conversion (binds : base.bindsTemporary = true) {detail : Nat}
      (converts : table.standardConversion base.source base.target = .ok (some detail)) :
      Ranked table base { base with rank := .conversion, detail }
  | derivedToBase (bound : base.targetHadReference = true) {detail : Nat}
      (derives : table.referenceToBase base.source base.target = .ok (some detail)) :
      Ranked table base { base with rank := .derivedToBase, detail }
  | noMatch : Ranked table base base

/-- Promotions and standard conversions are tried if the parameter may be bound to a temporary. -/
theorem Ranked.of_temporaryCost? (found : table.temporaryCost? base = .ok (some cost)) :
    table.Ranked base cost := by
  unfold temporaryCost? at found
  split at found
  · cases found
  · rename_i binds
    have hbinds : base.bindsTemporary = true := by simpa using binds
    split at found
    · rename_i promotes
      obtain rfl := Option.some.inj (Except.ok.inj found)
      exact .promotion hbinds promotes
    · cases hconverts : table.standardConversion base.source base.target with
      | error error =>
          rw [hconverts] at found
          cases found
      | ok conversion =>
          rw [hconverts] at found
          obtain ⟨detail, rfl, rfl⟩ := Option.map_eq_some_iff.mp (Except.ok.inj found)
          exact .conversion hbinds hconverts

theorem Ranked.of_baseBindingCost? (found : table.baseBindingCost? base = .ok (some cost)) :
    table.Ranked base cost := by
  unfold baseBindingCost? at found
  split at found
  · cases found
  · rename_i bound
    cases hderives : table.referenceToBase base.source base.target with
    | error error =>
        rw [hderives] at found
        cases found
    | ok distance =>
        rw [hderives] at found
        obtain ⟨detail, rfl, rfl⟩ := Option.map_eq_some_iff.mp (Except.ok.inj found)
        exact .derivedToBase (by simpa using bound) hderives

/-- The steps in their order, from given operands. -/
def rankedCost (table : Table) (base : Cost) : Except SemanticError Cost :=
  if base.source.same base.target then .ok { base with rank := .identity }
  else
    match base.source.qualificationAdjustment base.target with
    | some qualification => .ok { base with rank := .identity, qualification }
    | none => do
        match ← table.temporaryCost? base with
        | some found => pure found
        | none => do
            let bound ← table.baseBindingCost? base
            pure (bound.getD base)

theorem standardCost_eq_rankedCost (table : Table) (source target : Descriptor) :
    table.standardCost source target = table.rankedCost (.unranked source target) := rfl

/-- The cost that the steps find is decided by one of them. -/
theorem Ranked.of_rankedCost (ends : table.rankedCost base = .ok cost) : table.Ranked base cost := by
  unfold rankedCost at ends
  split at ends
  · obtain rfl := Except.ok.inj ends
    exact .identity base.qualification
  · split at ends
    · obtain rfl := Except.ok.inj ends
      exact .identity _
    · match htemporary : table.temporaryCost? base, hbound : table.baseBindingCost? base with
      | .error error, _ =>
          rw [htemporary] at ends
          cases ends
      | .ok (some found), _ =>
          rw [htemporary] at ends
          obtain rfl := Except.ok.inj ends
          exact .of_temporaryCost? htemporary
      | .ok none, .error error =>
          rw [htemporary, hbound] at ends
          cases ends
      | .ok none, .ok (some found) =>
          rw [htemporary, hbound] at ends
          obtain rfl := Except.ok.inj ends
          exact .of_baseBindingCost? hbound
      | .ok none, .ok none =>
          rw [htemporary, hbound] at ends
          obtain rfl := Except.ok.inj ends
          exact .noMatch

namespace Ranked

/-- The steps leave the operands as they are, and find no user-defined function. -/
theorem operands (ranked : table.Ranked base cost) :
    cost.source = base.source ∧ cost.target = base.target ∧
      cost.targetHadReference = base.targetHadReference ∧ cost.userDefined = base.userDefined := by
  cases ranked <;> exact ⟨rfl, rfl, rfl, rfl⟩

/-- So they leave open, too, whether the parameter may be bound to a temporary. -/
theorem bindsTemporary_eq (ranked : table.Ranked base cost) : cost.bindsTemporary = base.bindsTemporary := by
  obtain ⟨-, htarget, hreference, -⟩ := ranked.operands
  rw [Cost.bindsTemporary, Cost.bindsTemporary, htarget, hreference]

/-- Only operands without operators are promoted. -/
theorem not_hasOps_of_promotion (ranked : table.Ranked base cost) (unranked : base.rank = .noMatch)
    (promoted : cost.rank = .promotion) : base.target.hasOps = false := by
  cases ranked with
  | promotion _ promotes =>
      simp only [isPromotion, Bool.and_eq_true, Bool.not_eq_true'] at promotes
      exact promotes.1.1.1.2
  | noMatch => cases unranked.symm.trans promoted
  | _ => cases promoted

/-- Promotions and standard conversions make a temporary. -/
theorem bindsTemporary (ranked : table.Ranked base cost) (unranked : base.rank = .noMatch)
    (temporary : cost.rank = .promotion ∨ cost.rank = .conversion) : base.bindsTemporary = true := by
  cases ranked with
  | promotion binds => exact binds
  | conversion binds => exact binds
  | noMatch => rcases temporary with same | same <;> cases unranked.symm.trans same
  | _ => rcases temporary with same | same <;> cases same

end Ranked

end Table

namespace Analysis

variable {source target resolvedSource resolvedTarget : Descriptor} {nested : Bool}
  {table middle resolved after : Table} {cost : Cost}

/-- How a conversion ends whose types are resolved to `resolvedSource` and `resolvedTarget`, with the table
`resolved`: the standard conversions decide it, or a user-defined function is looked for. -/
inductive Decided (source target : Descriptor) (nested : Bool) (resolved : Table) (standard : Cost) :
    Cost → Table → Prop where
  | standard (settled : (standard.isMatch || nested || !standard.bindsTemporary) = true) :
      Decided source target nested resolved standard standard resolved
  | unconverted (unsettled : (standard.isMatch || nested || !standard.bindsTemporary) = false) {after : Table}
      (search : userDefinedConversion source target resolved = .ok .none after) :
      Decided source target nested resolved standard standard after
  | userDefined (unsettled : (standard.isMatch || nested || !standard.bindsTemporary) = false) {after : Table}
      {function : UserDefined} (some : function ≠ .none)
      (search : userDefinedConversion source target resolved = .ok function after) :
      Decided source target nested resolved standard
        { standard with rank := .userDefined, userDefined := function } after

theorem nestedCost_ok (ends : nestedCost source target table = .ok cost after) :
    ∃ resolvedSource middle resolvedTarget, resolveType source table = .ok resolvedSource middle ∧
      resolveType target middle = .ok resolvedTarget after ∧
        after.standardCost resolvedSource resolvedTarget = .ok cost := by
  obtain ⟨resolvedSource, middle, hsource, ends⟩ := bind_eq_ok.mp ends
  obtain ⟨resolvedTarget, resolved, htarget, ends⟩ := bind_eq_ok.mp ends
  obtain ⟨hstandard, rfl⟩ := ofExcept_eq_ok.mp ends
  exact ⟨resolvedSource, middle, resolvedTarget, hsource, htarget, hstandard⟩

/-- The cost of an argument is found from the resolved types, and only if these do not convert are the types
that were given looked at again. -/
theorem conversionCost_ok (ends : conversionCost source target nested table = .ok cost after) :
    ∃ resolvedSource middle resolvedTarget resolved standard,
      resolveType source table = .ok resolvedSource middle ∧
        resolveType target middle = .ok resolvedTarget resolved ∧
          resolved.standardCost resolvedSource resolvedTarget = .ok standard ∧
            Decided source target nested resolved standard cost after := by
  obtain ⟨standard, resolved, hnested, ends⟩ := bind_eq_ok.mp ends
  obtain ⟨resolvedSource, middle, resolvedTarget, hsource, htarget, hstandard⟩ := nestedCost_ok hnested
  refine ⟨resolvedSource, middle, resolvedTarget, resolved, standard, hsource, htarget, hstandard, ?_⟩
  split at ends
  · rename_i settled
    cases ends
    exact .standard settled
  · rename_i unsettled
    obtain ⟨function, last, hsearch, ends⟩ := bind_eq_ok.mp ends
    cases function with
    | none =>
        cases ends
        exact .unconverted (Bool.eq_false_iff.mpr unsettled) hsearch
    | _ =>
        cases ends
        exact .userDefined (Bool.eq_false_iff.mpr unsettled) (fun impossible => nomatch impossible) hsearch

/-- A user-defined conversion makes a temporary, too. -/
theorem Decided.bindsTemporary {base standard : Cost}
    (decided : Decided source target nested resolved standard cost after)
    (ranked : resolved.Ranked base standard) (unranked : base.rank = .noMatch)
    (temporary : cost.rank = .promotion ∨ cost.rank = .conversion ∨ cost.rank = .userDefined) :
    base.bindsTemporary = true := by
  have hopen : (standard.isMatch || nested || !standard.bindsTemporary) = false →
      base.bindsTemporary = true := by
    intro unsettled
    rw [← ranked.bindsTemporary_eq]
    simp only [Bool.or_eq_false_iff, Bool.not_eq_false'] at unsettled
    exact unsettled.2
  cases decided with
  | userDefined unsettled => exact hopen unsettled
  | unconverted unsettled => exact hopen unsettled
  | standard =>
      refine ranked.bindsTemporary unranked ?_
      rcases temporary with promoted | converted | impossible
      · exact .inl promoted
      · exact .inr converted
      · exfalso
        cases ranked with
        | noMatch => cases unranked.symm.trans impossible
        | _ => cases impossible

/-- A parameter that is a reference to a type that is not const at its top level is never bound to the result
of a promotion.  It is bound to that of a standard or user-defined conversion only if the type has operators,
with a const base behind them. -/
theorem reference_to_temporary (converted : conversionCost source target nested table = .ok cost after)
    (sourceResolved : resolveType source table = .ok resolvedSource middle)
    (targetResolved : resolveType target middle = .ok resolvedTarget resolved)
    (isReference : resolvedTarget.isReference = true)
    (notConst : resolvedTarget.stripReference.topCv.isConst = false) :
    cost.rank ≠ .promotion ∧
      (cost.rank = .conversion ∨ cost.rank = .userDefined →
        resolvedTarget.stripReference.hasOps = true ∧ resolvedTarget.stripReference.baseCv.isConst = true) := by
  obtain ⟨_, _, _, _, standard, hsource, htarget, hstandard, hdecided⟩ := conversionCost_ok converted
  cases sourceResolved.symm.trans hsource
  cases targetResolved.symm.trans htarget
  rw [Table.standardCost_eq_rankedCost] at hstandard
  have hranked := Table.Ranked.of_rankedCost hstandard
  have hunranked : (Cost.unranked resolvedSource resolvedTarget).rank = .noMatch := rfl
  have hconst : cost.rank = .promotion ∨ cost.rank = .conversion ∨ cost.rank = .userDefined →
      resolvedTarget.stripReference.baseCv.isConst = true := by
    intro temporary
    have hbinds := hdecided.bindsTemporary hranked hunranked temporary
    simp only [Cost.bindsTemporary, Cost.unranked, isReference, Descriptor.baseCv_conversionOperand,
      Bool.not_true, Bool.false_or] at hbinds
    rwa [Descriptor.baseCv_stripReference]
  -- Where the base is const and the top level is not, there are operators in between.
  have hops : resolvedTarget.stripReference.baseCv.isConst = true →
      resolvedTarget.stripReference.hasOps = true := by
    intro const
    by_contra plain
    rw [Descriptor.topCv_of_not_hasOps (Bool.eq_false_iff.mpr plain), const] at notConst
    cases notConst
  refine ⟨fun promoted => ?_, fun temporary => ⟨hops (hconst (.inr temporary)), hconst (.inr temporary)⟩⟩
  have hstandardRank : standard.rank = .promotion := by
    cases hdecided with
    | userDefined => cases promoted
    | _ => exact promoted
  have hplain := hranked.not_hasOps_of_promotion hunranked hstandardRank
  have hoperators : (Cost.unranked resolvedSource resolvedTarget).target.hasOps = true :=
    Descriptor.hasOps_conversionOperand (hops (hconst (.inl promoted)))
  cases hplain.symm.trans hoperators

/-- The class 2 is derived from the class 1. -/
def derivedClassTable : Table :=
  finalTable (Table.new {}) do
    let base ← createClass ⟨17⟩ .struct
    let derived ← createClass ⟨18⟩ .struct
    addParent derived base .pub false

/-- A reference to a pointer to the const base class. -/
def basePointerReference : Descriptor :=
  ((Descriptor.ofSymbol ⟨1⟩).setTopCv { isConst := true }).pointer.reference

/-- A reference to a pointer, which is not const itself, binds to the temporary that a pointer to the derived
class is converted to. -/
theorem base_pointer_bound_to_temporary :
    ∃ cost, conversionCost (Descriptor.ofSymbol ⟨2⟩).pointer basePointerReference false derivedClassTable =
        .ok cost derivedClassTable ∧
      basePointerReference.isReference = true ∧
      basePointerReference.stripReference.topCv.isConst = false ∧
      cost.rank = .conversion ∧ cost.rank ≠ .promotion ∧
      basePointerReference.stripReference.hasOps = true ∧
      basePointerReference.stripReference.baseCv.isConst = true := by
  have hsource : resolveType (Descriptor.ofSymbol ⟨2⟩).pointer derivedClassTable =
      .ok (Descriptor.ofSymbol ⟨2⟩).pointer derivedClassTable := rfl
  have htarget : resolveType basePointerReference derivedClassTable = .ok basePointerReference derivedClassTable := rfl
  obtain ⟨cost, hcost, hrank⟩ : ∃ cost,
      conversionCost (Descriptor.ofSymbol ⟨2⟩).pointer basePointerReference false derivedClassTable =
        .ok cost derivedClassTable ∧ cost.rank = .conversion := ⟨_, rfl, rfl⟩
  have hbinds := reference_to_temporary hcost hsource htarget rfl rfl
  exact ⟨cost, hcost, rfl, rfl, hrank, hbinds.1, hbinds.2 (.inl hrank)⟩

end Analysis

end NameBinding
