import NameBinding.Proofs.Table.ForwardDeclarations

/-!
# Signatures while declarations are linked

Whether two functions have the same parameters depends on what the types of their parameters stand for,
and that changes as declarations are linked.  As long as typedefs name older declarations only, a new link
merely renames the entities in the types of the parameters.  If no two entities get one name, the same
functions have the same parameters as before.

* `Descriptor.relink`: a type with its link renamed.
* `Table.TypedefsDescend`: typedefs name older declarations, so that flattening a type comes to an end.
* `Table.Renames`: from one table to another, entities are renamed.
* `Table.SameCall`: two entities agree in everything that makes up a parameter list.

The main statement is `Renames.sameCall_iff`: renaming leaves `SameCall` as it is.
-/

namespace NameBinding

/-! ## Types -/

namespace Descriptor

mutual

/-- The type without default values, at every depth. -/
def bare : Descriptor → Descriptor
  | ⟨kind, flags, ops, link, args, sort, constant, _⟩ =>
      ⟨kind, flags, ops, link, bareAll args, sort, constant, none⟩

/-- The types without default values. -/
def bareAll : List Descriptor → List Descriptor
  | [] => []
  | type :: rest => bare type :: bareAll rest

end

mutual

/-- Two types are the same if they are equal without default values. -/
theorem same_iff : ∀ a b : Descriptor, a.same b = true ↔ a.bare = b.bare
  | ⟨kind, flags, ops, link, args, sort, constant, _⟩,
    ⟨kind', flags', ops', link', args', sort', constant', _⟩ => by
      have hargs := sameAll_iff args args'
      simp [same, bare, hargs, and_assoc]

theorem sameAll_iff : ∀ as bs : List Descriptor, sameAll as bs = true ↔ bareAll as = bareAll bs
  | [], [] => by simp [sameAll]
  | [], _ :: _ => by simp [sameAll, bareAll]
  | _ :: _, [] => by simp [sameAll, bareAll]
  | a :: as, b :: bs => by
      have hfirst := same_iff a b
      have hrest := sameAll_iff as bs
      simp [sameAll, bareAll, hfirst, hrest]

end

/-- The type with the declaration that it names renamed. -/
def relink (rename : SymbolId → SymbolId) (type : Descriptor) : Descriptor :=
  { type with link := type.link.map rename }

variable (rename : SymbolId → SymbolId)

theorem relink_of_none {type : Descriptor} (unnamed : type.link = none) :
    type.relink rename = type := by
  obtain ⟨kind, flags, ops, link, args, sort, constant, value⟩ := type
  cases unnamed
  rfl

theorem relink_decay (type : Descriptor) :
    (type.relink rename).decay = type.decay.relink rename := by
  obtain ⟨kind, flags, ops, link, args, sort, constant, value⟩ := type
  cases ops with
  | nil =>
      by_cases hfunction : kind = .function
      · simp [decay, relink, hfunction, pointer, withOp]
      · simp [decay, relink, hfunction]
  | cons op rest =>
      by_cases harray : op.kind = .array
      · simp [decay, relink, harray]
      · simp [decay, relink, harray]

theorem relink_stripTopCv (type : Descriptor) :
    (type.relink rename).stripTopCv = type.stripTopCv.relink rename := by
  obtain ⟨kind, flags, ops, link, args, sort, constant, value⟩ := type
  cases ops <;> rfl

theorem link_decay (type : Descriptor) : type.decay.link = type.link := by
  simp only [decay]
  split <;> split <;> rfl

theorem link_stripTopCv (type : Descriptor) : type.stripTopCv.link = type.link := by
  simp only [stripTopCv, setTopCv, setBaseCv]
  split <;> rfl

theorem same_relink {a b : Descriptor}
    (injective : ∀ x y, a.link = some x → b.link = some y → rename x = rename y → x = y) :
    (a.relink rename).same (b.relink rename) = a.same b := by
  obtain ⟨kind, flags, ops, link, args, sort, constant, value⟩ := a
  obtain ⟨kind', flags', ops', link', args', sort', constant', value'⟩ := b
  have hlinks : (link.map rename == link'.map rename) = (link == link') := by
    cases link with
    | none => cases link' <;> rfl
    | some x =>
        cases link' with
        | none => rfl
        | some y =>
            have hnames : rename x = rename y ↔ x = y :=
              ⟨injective x y rfl rfl, fun same => by rw [same]⟩
            rw [Bool.eq_iff_iff]
            simp [hnames]
  simp only [relink, same, hlinks]

theorem sameAll_relink {as bs : List Descriptor}
    (injective : ∀ a ∈ as, ∀ b ∈ bs, ∀ x y, a.link = some x → b.link = some y →
      rename x = rename y → x = y) :
    sameAll (as.map (relink rename)) (bs.map (relink rename)) = sameAll as bs := by
  induction as generalizing bs with
  | nil => cases bs <;> rfl
  | cons a as ih =>
      cases bs with
      | nil => rfl
      | cons b bs =>
          have hfirst := same_relink rename (injective a List.mem_cons_self b List.mem_cons_self)
          have hrest := ih fun a' ha b' hb =>
            injective a' (List.mem_cons_of_mem a ha) b' (List.mem_cons_of_mem b hb)
          simp only [List.map_cons, sameAll, hfirst, hrest]

end Descriptor

namespace Table

variable {table after : Table} {known : List SymbolId} {rename : SymbolId → SymbolId}
  {a b c id : SymbolId}

/-! ## Flattened types -/

/-- Typedefs name declarations that come before them in `known`, and nothing stands for a typedef that comes
after it. -/
structure TypedefsDescend (known : List SymbolId) (table : Table) : Prop where
  names : ∀ x ∈ known, (table.symbol x).type.isTypedef = true →
    ∀ link, (table.symbol x).type.link = some link → known.idxOf link < known.idxOf x
  closed : ∀ x ∈ known, table.canonical x ∈ known
  stands : ∀ x ∈ known, (table.symbol (table.canonical x)).type.isTypedef = true →
    known.idxOf (table.canonical x) ≤ known.idxOf x

/-- Entities are renamed, typedefs excepted, and no two of them get one name. -/
structure Renames (known : List SymbolId) (rename : SymbolId → SymbolId) (table after : Table) :
    Prop where
  canonical : ∀ x ∈ known, after.canonical x = rename (table.canonical x)
  typedef : ∀ x ∈ known, (table.symbol x).type.isTypedef = true →
    rename x = x ∧ (after.symbol x).type = (table.symbol x).type
  plain : ∀ x ∈ known, (table.symbol x).type.isTypedef = false →
    (after.symbol (rename x)).type.isTypedef = false
  injective : ∀ x ∈ known, ∀ y ∈ known, rename x = rename y → x = y

/-- The type names nothing, or a declaration of `known` at a position below `bound`. -/
def NamesBelow (known : List SymbolId) (bound : Nat) (type : Descriptor) : Prop :=
  ∀ link, type.link = some link → link ∈ known ∧ known.idxOf link < bound

/-- One step of flattening leads to an older declaration. -/
theorem TypedefsDescend.namesBelow (descends : table.TypedefsDescend known) {type : Descriptor}
    {link : SymbolId} {bound : Nat} (named : link ∈ known) (below : known.idxOf link < bound + 1)
    (typedef : (table.symbol (table.canonical link)).type.isTypedef = true) :
    NamesBelow known bound
      (type.substituteBase (table.symbol (table.canonical link)).type) := by
  intro next hnext
  rw [Descriptor.link_substituteBase] at hnext
  have hclosed := descends.closed link named
  have hstands := descends.stands link named typedef
  have hnames := descends.names _ hclosed typedef next hnext
  have hknown : next ∈ known := by
    rw [← List.idxOf_lt_length_iff]
    have hlast := List.idxOf_lt_length_iff.mpr hclosed
    omega
  exact ⟨hknown, by omega⟩

/-- What a flattened type names is known. -/
theorem TypedefsDescend.link_flattenSteps (descends : table.TypedefsDescend known) {steps : Nat}
    {type : Descriptor} (below : NamesBelow known steps type) {target : SymbolId}
    (named : (table.flattenSteps steps type).link = some target) : target ∈ known := by
  induction steps generalizing type with
  | zero => exact (below target named).1
  | succ steps ih =>
      simp only [flattenSteps] at named
      cases hlink : type.link with
      | none =>
          simp only [hlink] at named
          cases named
      | some link =>
          obtain ⟨hknown, hbelow⟩ := below link hlink
          simp only [hlink] at named
          split at named
          · have htarget : table.canonical link = target := by simpa using named
            exact htarget ▸ descends.closed link hknown
          · rename_i htypedef
            split at named
            · exact (below target (hlink ▸ named)).1
            · exact ih (descends.namesBelow hknown hbelow (by simpa using htypedef)) named

namespace Renames

variable (renames : table.Renames known rename after) (descends : table.TypedefsDescend known)

include renames descends

/-- Flattening a type comes to the renamed entity, given enough steps. -/
theorem flattenSteps_eq {steps steps' : Nat} {type : Descriptor}
    (below : NamesBelow known steps type) (below' : NamesBelow known steps' type) :
    after.flattenSteps steps' type = (table.flattenSteps steps type).relink rename := by
  -- Without steps left there is no link to follow: typedefs lead to older declarations each time.
  induction steps generalizing steps' type with
  | zero =>
      have hnone : type.link = none := by
        cases hlink : type.link with
        | none => rfl
        | some link =>
            have hlt := (below link hlink).2
            omega
      rw [flattenSteps, Descriptor.relink_of_none rename hnone]
      cases steps' with
      | zero => rfl
      | succ steps' => simp [flattenSteps, hnone]
  | succ steps ih =>
      cases hlink : type.link with
      | none =>
          have hbefore : table.flattenSteps (steps + 1) type = type := by
            simp [flattenSteps, hlink]
          rw [hbefore, Descriptor.relink_of_none rename hlink]
          cases steps' with
          | zero => rfl
          | succ steps' => simp [flattenSteps, hlink]
      | some link =>
          obtain ⟨hknown, hlt⟩ := below link hlink
          obtain ⟨-, hlt'⟩ := below' link hlink
          obtain ⟨rest, rfl⟩ : ∃ rest, steps' = rest + 1 := ⟨steps' - 1, by omega⟩
          have hclosed := descends.closed link hknown
          simp only [flattenSteps, hlink, renames.canonical link hknown]
          cases htypedef : (table.symbol (table.canonical link)).type.isTypedef with
          | false =>
              have hplain := renames.plain _ hclosed htypedef
              simp [hplain, Descriptor.relink]
          | true =>
              obtain ⟨hsame, htype⟩ := renames.typedef _ hclosed htypedef
              have hself : ¬ (table.symbol (table.canonical link)).type.link =
                  some (table.canonical link) := by
                intro self
                have hnames := descends.names _ hclosed htypedef _ self
                omega
              simp only [hsame, htype, htypedef, Bool.not_true, if_neg hself, Bool.false_eq_true,
                if_false]
              exact ih (descends.namesBelow hknown hlt htypedef)
                (descends.namesBelow hknown hlt' htypedef)

variable (fits : known.length ≤ table.size)

include fits

theorem adjustedParameter_eq (grows : table.size ≤ after.size) {type : Descriptor}
    (named : ∀ link, type.link = some link → link ∈ known) :
    after.adjustedParameter type = (table.adjustedParameter type).relink rename := by
  have hbelow : ∀ size, known.length ≤ size → NamesBelow known (size + 1) type := by
    intro size hsize link hlink
    have hlt := List.idxOf_lt_length_iff.mpr (named link hlink)
    exact ⟨named link hlink, by omega⟩
  have hflat : after.flattenType type = (table.flattenType type).relink rename :=
    renames.flattenSteps_eq descends (hbelow _ fits) (hbelow _ (by omega))
  -- Renaming changes neither the operators nor the kind, on which the adjustment depends.
  unfold adjustedParameter
  rw [hflat]
  dsimp only
  rw [Descriptor.relink_decay, Descriptor.relink_stripTopCv]
  generalize table.flattenType type = flat
  have hops : (flat.relink rename).ops = flat.ops := rfl
  have hkind : (flat.relink rename).kind = flat.kind := rfl
  rw [hops, hkind]
  split <;> split <;> rfl

omit renames in
theorem link_adjustedParameter {type : Descriptor}
    (named : ∀ link, type.link = some link → link ∈ known) {target : SymbolId}
    (adjusted : (table.adjustedParameter type).link = some target) : target ∈ known := by
  have hbelow : NamesBelow known (table.size + 1) type := by
    intro link hlink
    have hlt := List.idxOf_lt_length_iff.mpr (named link hlink)
    exact ⟨named link hlink, by omega⟩
  refine descends.link_flattenSteps hbelow (Eq.trans ?_ adjusted)
  show (table.flattenType type).link = (table.adjustedParameter type).link
  simp only [adjustedParameter, Descriptor.stripSpecifiers, Descriptor.stripDefault]
  split <;> split
  all_goals first
    | exact (Descriptor.link_decay _).symm
    | exact (Descriptor.link_stripTopCv _).symm

end Renames

/-! ## Parameter lists -/

/-- The two entities agree in everything that makes up a parameter list. -/
structure SameCall (table : Table) (a b : SymbolId) : Prop where
  cv : (table.symbol a).type.baseCv = (table.symbol b).type.baseCv
  varargs : (table.symbol a).varargs = (table.symbol b).varargs
  signature : Descriptor.sameAll (table.signature a) (table.signature b) = true

namespace SameCall

theorem refl (table : Table) (a : SymbolId) : table.SameCall a a :=
  ⟨rfl, rfl, (Descriptor.sameAll_iff _ _).mpr rfl⟩

theorem symm (same : table.SameCall a b) : table.SameCall b a where
  cv := same.cv.symm
  varargs := same.varargs.symm
  signature := (Descriptor.sameAll_iff _ _).mpr
    ((Descriptor.sameAll_iff _ _).mp same.signature).symm

theorem trans (first : table.SameCall a b) (second : table.SameCall b c) : table.SameCall a c where
  cv := first.cv.trans second.cv
  varargs := first.varargs.trans second.varargs
  signature := (Descriptor.sameAll_iff _ _).mpr
    (((Descriptor.sameAll_iff _ _).mp first.signature).trans
      ((Descriptor.sameAll_iff _ _).mp second.signature))

end SameCall

theorem hasSameParameters_iff :
    table.hasSameParameters a b = true ↔
      table.canonical a = table.canonical b ∨
        table.SameCall (table.canonical a) (table.canonical b) := by
  simp only [hasSameParameters, Bool.or_eq_true, Bool.and_eq_true, beq_iff_eq]
  constructor
  · rintro (same | ⟨⟨cv, varargs⟩, signature⟩)
    · exact .inl same
    · exact .inr ⟨cv, varargs, signature⟩
  · rintro (same | ⟨cv, varargs, signature⟩)
    · exact .inl same
    · exact .inr ⟨⟨cv, varargs⟩, signature⟩

/-- The parameter list of a declaration names only what is known, and has not changed. -/
structure KeepsCall (known : List SymbolId) (table after : Table) (id : SymbolId) : Prop where
  type : (after.symbol id).type = (table.symbol id).type
  varargs : (after.symbol id).varargs = (table.symbol id).varargs
  parameters : (after.symbol id).parameters = (table.symbol id).parameters
  types : ∀ parameter ∈ (table.symbol id).parameters,
    (after.symbol parameter).type = (table.symbol parameter).type
  named : ∀ parameter ∈ (table.symbol id).parameters,
    ∀ link, (table.symbol parameter).type.link = some link → link ∈ known

namespace Renames

variable (renames : table.Renames known rename after) (descends : table.TypedefsDescend known)
  (fits : known.length ≤ table.size) (grows : table.size ≤ after.size)

include renames descends fits grows

theorem signature_eq (keeps : KeepsCall known table after id) :
    after.signature id = (table.signature id).map (Descriptor.relink rename) := by
  have hadjusted : ∀ parameter ∈ (table.symbol id).parameters,
      after.adjustedParameter (after.symbol parameter).type =
        (table.adjustedParameter (table.symbol parameter).type).relink rename := by
    intro parameter member
    rw [keeps.types parameter member]
    exact renames.adjustedParameter_eq descends fits grows (keeps.named parameter member)
  have hall : (table.symbol id).parameters.map
        (fun parameter => after.adjustedParameter (after.symbol parameter).type) =
      ((table.symbol id).parameters.map
        (fun parameter => table.adjustedParameter (table.symbol parameter).type)).map
          (Descriptor.relink rename) := by
    rw [List.map_map]
    exact List.map_congr_left hadjusted
  unfold signature
  dsimp only
  rw [keeps.parameters]
  split
  · rename_i only honly
    have hmember : only ∈ (table.symbol id).parameters := by simp [honly]
    rw [hadjusted only hmember, keeps.types only hmember]
    split <;> rfl
  · exact hall

omit renames grows in
theorem link_signature (named : ∀ parameter ∈ (table.symbol id).parameters,
      ∀ link, (table.symbol parameter).type.link = some link → link ∈ known)
    {type : Descriptor} (member : type ∈ table.signature id) {target : SymbolId}
    (link : type.link = some target) : target ∈ known := by
  have hadjusted : ∃ parameter ∈ (table.symbol id).parameters,
      table.adjustedParameter (table.symbol parameter).type = type := by
    unfold signature at member
    dsimp only at member
    split at member
    · rename_i only honly
      split at member
      · cases member
      · exact ⟨only, by simp [honly], (List.mem_singleton.mp member).symm⟩
    · exact List.mem_map.mp member
  obtain ⟨parameter, hparameter, rfl⟩ := hadjusted
  exact link_adjustedParameter descends fits (named parameter hparameter) link

/-- Entities agree in their parameter lists as they did before. -/
theorem sameCall_iff (keepsA : KeepsCall known table after a)
    (keepsB : KeepsCall known table after b) : after.SameCall a b ↔ table.SameCall a b := by
  have hsignature : Descriptor.sameAll (after.signature a) (after.signature b) =
      Descriptor.sameAll (table.signature a) (table.signature b) := by
    rw [renames.signature_eq descends fits grows keepsA,
      renames.signature_eq descends fits grows keepsB]
    refine Descriptor.sameAll_relink rename fun p hp q hq x y hx hy hsame => ?_
    have hxknown := link_signature descends fits keepsA.named hp hx
    have hyknown := link_signature descends fits keepsB.named hq hy
    exact renames.injective x hxknown y hyknown hsame
  constructor
  · rintro ⟨cv, varargs, signature⟩
    rw [keepsA.type, keepsB.type] at cv
    rw [keepsA.varargs, keepsB.varargs] at varargs
    exact ⟨cv, varargs, hsignature ▸ signature⟩
  · rintro ⟨cv, varargs, signature⟩
    rw [← keepsA.type, ← keepsB.type] at cv
    rw [← keepsA.varargs, ← keepsB.varargs] at varargs
    exact ⟨cv, varargs, hsignature.symm ▸ signature⟩

end Renames

end Table

end NameBinding
