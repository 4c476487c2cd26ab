import NameBinding.Proofs.Conversion.Ranks
import NameBinding.Proofs.Table.Checking

/-!
# Completing a function changes no type

A definition that completes the prototype of a function changes what functions stand for, and nothing else.
Types and base classes are no functions, so that conversions are found as before.

* `Table.Functionless`: neither the name of a type nor the classes of its member pointers are functions.
* `Table.SameButFunctions`: two tables that differ at most in scopes, in members, and in what functions stand
  for.
* `standardCost_eq`: in two such tables a type converts at the same cost.
* `completes_of_addSymbol`: a declaration that completes a function leaves such a table behind, and it was found
  to have the same parameters.
-/

namespace NameBinding

/-! ## The names of a type -/

namespace Descriptor

/-- The classes of the member pointers among the operators of a type. -/
def memberClasses (type : Descriptor) : List SymbolId := type.ops.filterMap (·.memberOf)

@[simp]
theorem memberClasses_setTopCv (type : Descriptor) (cv : Cv) :
    (type.setTopCv cv).memberClasses = type.memberClasses := by
  simp only [setTopCv]
  split
  · rename_i op rest hops
    simp [memberClasses, hops, List.filterMap_cons]
  · rfl

theorem memberClasses_substituteBase (use replacement : Descriptor) :
    (use.substituteBase replacement).memberClasses = use.memberClasses ++ replacement.memberClasses := by
  have hbase : (replacement.withTopCv use.baseCv).memberClasses = replacement.memberClasses :=
    memberClasses_setTopCv _ _
  rw [← hbase, memberClasses, substituteBase, List.filterMap_append]
  rfl

theorem memberClasses_stripReference (type : Descriptor) :
    type.stripReference.memberClasses ⊆ type.memberClasses := by
  rw [stripReference]
  split
  · exact fun id member => ((List.tail_sublist type.ops).filterMap _).subset member
  · exact fun id member => member

theorem memberClasses_decay (type : Descriptor) : type.decay.memberClasses ⊆ type.memberClasses := by
  intro id member
  simp only [decay] at member
  split at member
  · rename_i op rest hops
    split at member
    · rw [memberClasses, hops]
      exact List.mem_filterMap.mpr (by
        obtain ⟨other, hother, hclass⟩ := List.mem_filterMap.mp member
        rcases List.mem_cons.mp hother with rfl | later
        · cases hclass
        · exact ⟨other, List.mem_cons_of_mem op later, hclass⟩)
    · exact member
  · rename_i hops
    split at member
    · simp [memberClasses, pointer, withOp, hops] at member
    · exact member

end Descriptor

namespace Table

variable {table now after : Table} {old new scope x y : SymbolId} {type source target replacement : Descriptor}

/-- Neither the name of a type nor the classes of its member pointers are functions. -/
structure Functionless (table : Table) (type : Descriptor) : Prop where
  named : ∀ link, type.link = some link → table.declClass link ≠ .function
  classes : ∀ id ∈ type.memberClasses, table.declClass id ≠ .function

/-- No type and no base class of the table is a function. -/
structure TypesFunctionless (table : Table) : Prop where
  types : ∀ x, table.Functionless (table.symbol x).type
  parents : ∀ x, ∀ link ∈ (table.symbol x).parents, table.declClass link.parent ≠ .function

theorem Functionless.substituteBase (use : table.Functionless type)
    (base : table.Functionless replacement) : table.Functionless (type.substituteBase replacement) where
  named := by
    rw [Descriptor.link_substituteBase]
    exact base.named
  classes := by
    intro id member
    rw [Descriptor.memberClasses_substituteBase] at member
    exact (List.mem_append.mp member).elim (use.classes id) (base.classes id)

theorem Functionless.conversionOperand (functionless : table.Functionless type) (keepTopCv : Bool) :
    table.Functionless (type.conversionOperand keepTopCv) where
  named := by
    have hlink : (type.conversionOperand keepTopCv).link = type.link := by
      have hvalue : type.stripReference.decay.link = type.link := by
        rw [Descriptor.link_decay, Descriptor.stripReference]
        split <;> rfl
      rw [← hvalue]
      cases keepTopCv with
      | true => rfl
      | false => exact Descriptor.link_stripTopCv _
    rw [hlink]
    exact functionless.named
  classes := by
    have hclasses : (type.conversionOperand keepTopCv).memberClasses =
        type.stripReference.decay.memberClasses := by
      cases keepTopCv with
      | true => rfl
      | false => exact Descriptor.memberClasses_setTopCv _ _
    intro id member
    rw [hclasses] at member
    exact functionless.classes id
      (Descriptor.memberClasses_stripReference _ (Descriptor.memberClasses_decay _ member))

/-- The types of a table see through to types that are no functions either. -/
theorem TypesFunctionless.flattenSteps (functionless : table.TypesFunctionless) (ends : table.LinksEnd)
    (steps : Nat) (given : table.Functionless type) :
    table.Functionless (table.flattenSteps steps type) := by
  induction steps generalizing type with
  | zero => exact given
  | succ steps ih =>
      rw [Table.flattenSteps]
      split
      · exact given
      · rename_i link hlink
        have hcanonical : table.declClass (table.canonical link) ≠ .function := by
          rw [declClass_eq, ends.canonical_canonical, ← declClass_eq]
          exact given.named link hlink
        dsimp only
        split
        · refine ⟨fun other hother => ?_, given.classes⟩
          cases hother
          exact hcanonical
        · split
          · exact given
          · exact ih (given.substituteBase (functionless.types _))

theorem TypesFunctionless.flattenType (functionless : table.TypesFunctionless) (ends : table.LinksEnd)
    (given : table.Functionless type) : table.Functionless (table.flattenType type) :=
  functionless.flattenSteps ends _ given

/-- The types in the signature of a function are no functions either. -/
theorem TypesFunctionless.signature (functionless : table.TypesFunctionless) (ends : table.LinksEnd)
    {function : SymbolId} : ∀ type ∈ table.signature function, table.Functionless type := by
  have hadjusted : ∀ x, table.Functionless (table.adjustedParameter (table.symbol x).type) := by
    intro x
    have hflat := functionless.flattenType ends (functionless.types x)
    have hdecay : table.Functionless (table.flattenType (table.symbol x).type).decay :=
      ⟨by rw [Descriptor.link_decay]; exact hflat.named,
        fun id member => hflat.classes id (Descriptor.memberClasses_decay _ member)⟩
    have hstrip : table.Functionless (table.flattenType (table.symbol x).type).stripTopCv :=
      ⟨by rw [Descriptor.link_stripTopCv]; exact hflat.named,
        fun id member => hflat.classes id (Descriptor.memberClasses_setTopCv _ _ ▸ member)⟩
    rw [adjustedParameter]
    split <;> split <;> first | exact ⟨hdecay.named, hdecay.classes⟩ | exact ⟨hstrip.named, hstrip.classes⟩
  intro type member
  rw [Table.signature] at member
  split at member
  · split at member
    · cases member
    · rw [List.mem_singleton] at member
      exact member ▸ hadjusted _
  · obtain ⟨parameter, -, rfl⟩ := List.mem_map.mp member
    exact hadjusted parameter

/-! ## Tables in which functions are linked -/

/-- The tables differ at most in scopes, in members, and in what functions stand for. -/
structure SameButFunctions (table after : Table) : Prop where
  config_eq : after.config = table.config
  size_eq : after.size = table.size
  heads : ∀ x, (after.symbol x).SameHead (table.symbol x)
  parents : ∀ x, (after.symbol x).parents = (table.symbol x).parents
  functions : ∀ x, (after.symbol x).functionData?.isSome = (table.symbol x).functionData?.isSome
  links : ∀ x, table.declClass x ≠ .function → after.nextLink x = table.nextLink x

namespace SameButFunctions

theorem refl (table : Table) : table.SameButFunctions table :=
  ⟨rfl, rfl, fun _ => .refl _, fun _ => rfl, fun _ => rfl, fun _ _ => rfl⟩

section

variable (same : table.SameButFunctions after) (ends : table.LinksEnd)

include same ends

/-- What is no function stands for the same. -/
theorem canonical_eq (noFunction : table.declClass x ≠ .function) :
    after.canonical x = table.canonical x := by
  refine ((ends.stands x).congr fun y reaches => same.links y ?_).canonical_eq
  rw [declClass_eq, ← ends.canonical_of_reaches reaches, ← declClass_eq]
  exact noFunction

variable (functionless : table.TypesFunctionless)

include functionless

theorem flattenSteps_eq (steps : Nat)
    (named : ∀ link, type.link = some link → table.declClass link ≠ .function) :
    after.flattenSteps steps type = table.flattenSteps steps type := by
  induction steps generalizing type with
  | zero => rfl
  | succ steps ih =>
      rw [flattenSteps, flattenSteps]
      cases hlink : type.link with
      | none => rfl
      | some link =>
          simp only [same.canonical_eq ends (named link hlink), (same.heads _).type]
          split
          · rfl
          · split
            · rfl
            · refine ih fun other hother => ?_
              rw [Descriptor.link_substituteBase] at hother
              exact (functionless.types _).named other hother

theorem flattenType_eq (given : table.Functionless type) :
    after.flattenType type = table.flattenType type := by
  rw [flattenType, flattenType, same.size_eq]
  exact same.flattenSteps_eq ends functionless _ given.named

theorem signature_eq (x : SymbolId) : after.signature x = table.signature x := by
  have hadjusted : ∀ parameter, after.adjustedParameter (table.symbol parameter).type =
      table.adjustedParameter (table.symbol parameter).type := by
    intro parameter
    rw [adjustedParameter, adjustedParameter,
      same.flattenType_eq ends functionless (functionless.types parameter)]
  simp only [signature, (same.heads _).parameters, (same.heads _).type, hadjusted]

/-! ### Conversions -/

theorem classOf_eq (noFunction : table.declClass x ≠ .function) :
    after.classOf x = table.classOf x := by
  have htype := functionless.types (table.canonical x)
  simp only [classOf, same.canonical_eq ends noFunction, (same.heads _).type,
    same.flattenType_eq ends functionless htype]
  split
  · cases hlink : (table.flattenType (table.symbol (table.canonical x)).type).link with
    | none => rfl
    | some link =>
        exact same.canonical_eq ends ((functionless.flattenType ends htype).named link hlink)
  · rfl

theorem derivedDistance_eq (derived : table.declClass x ≠ .function)
    (base : table.declClass y ≠ .function) :
    after.derivedDistance x y = table.derivedDistance x y := by
  have hbases : ∀ id, after.bases id = table.bases id := by
    intro id
    rw [bases, bases, same.parents]
    exact List.map_congr_left fun link member =>
      same.classOf_eq ends functionless (functionless.parents id link member)
  have hcircular : ∀ id, after.circular id = table.circular id := fun id =>
    congrArg SemanticError.circularInheritance (same.heads id).name
  have hdistance : ∀ target depth oldest path id,
      after.distanceFrom target depth oldest path id = table.distanceFrom target depth oldest path id := by
    intro target depth
    induction depth with
    | zero => exact fun _ _ id => congrArg Except.error (hcircular id)
    | succ depth ih =>
        intro oldest path id
        rw [distanceFrom, distanceFrom, hbases, hcircular, funext (ih (min oldest id.index) (id :: path))]
  rw [derivedDistance, derivedDistance, same.size_eq, same.classOf_eq ends functionless derived,
    same.classOf_eq ends functionless base, hdistance]

theorem linkedClass?_eq (given : table.Functionless type) :
    after.linkedClass? type = table.linkedClass? type := by
  rw [linkedClass?, linkedClass?]
  cases hlink : type.link with
  | none => rfl
  | some link =>
      simp only [Option.map_some, same.classOf_eq ends functionless (given.named link hlink),
        (same.heads _).type]

theorem isEnumerationType_eq (given : table.Functionless type) :
    after.isEnumerationType type = table.isEnumerationType type := by
  rw [isEnumerationType, isEnumerationType]
  cases hlink : type.link with
  | none => rfl
  | some link =>
      simp only [Option.any_some, same.classOf_eq ends functionless (given.named link hlink),
        (same.heads _).type]

omit same functionless in
theorem declClass_canonical (noFunction : table.declClass x ≠ .function) :
    table.declClass (table.canonical x) ≠ .function := by
  rw [declClass_eq, ends.canonical_canonical, ← declClass_eq]
  exact noFunction

omit same in
theorem declClass_classOf (noFunction : table.declClass x ≠ .function) :
    table.declClass (table.classOf x) ≠ .function := by
  rw [classOf]
  split
  · split
    · rename_i link hlink
      have htype := functionless.types (table.canonical x)
      exact declClass_canonical ends ((functionless.flattenType ends htype).named link hlink)
    · exact declClass_canonical ends noFunction
  · exact declClass_canonical ends noFunction

omit same in
theorem declClass_linkedClass? (given : table.Functionless type) (linked : table.linkedClass? type = some x) :
    table.declClass x ≠ .function := by
  obtain ⟨hclass, -⟩ := Option.filter_eq_some_iff.mp linked
  obtain ⟨link, hlink, rfl⟩ := Option.map_eq_some_iff.mp hclass
  exact declClass_classOf ends functionless (given.named link hlink)

theorem properDistance_eq (derived : table.declClass x ≠ .function)
    (base : table.declClass y ≠ .function) : after.properDistance x y = table.properDistance x y := by
  rw [properDistance, properDistance, same.derivedDistance_eq ends functionless derived base]

section Operands

variable (given : table.Functionless source) (wanted : table.Functionless target)

include given wanted

theorem pointerConversion_eq {sourceOp targetOp : PtrOp} (sourceMember : sourceOp ∈ source.ops)
    (targetMember : targetOp ∈ target.ops) :
    after.pointerConversion source target sourceOp targetOp =
      table.pointerConversion source target sourceOp targetOp := by
  simp only [pointerConversion, same.linkedClass?_eq ends functionless given,
    same.linkedClass?_eq ends functionless wanted]
  split
  · rfl
  · split
    · split
      · rfl
      · split
        · rename_i derived base hderived hbase
          exact same.properDistance_eq ends functionless
            (declClass_linkedClass? ends functionless given hderived)
            (declClass_linkedClass? ends functionless wanted hbase)
        · rfl
    · split
      · rename_i base derived hbase hderived
        have hbaseClass := given.classes base (List.mem_filterMap.mpr ⟨sourceOp, sourceMember, hbase⟩)
        have hderivedClass := wanted.classes derived
          (List.mem_filterMap.mpr ⟨targetOp, targetMember, hderived⟩)
        simp only [same.classOf_eq ends functionless hbaseClass,
          same.classOf_eq ends functionless hderivedClass]
        split
        · exact same.properDistance_eq ends functionless (declClass_classOf ends functionless hderivedClass)
            (declClass_classOf ends functionless hbaseClass)
        · rfl
      · rfl
    · rfl

theorem standardConversion_eq :
    after.standardConversion source target = table.standardConversion source target := by
  simp only [standardConversion, same.isEnumerationType_eq ends functionless given]
  split
  · rfl
  · split
    · rfl
    · split
      · rename_i sourceOp targetOp hsource htarget
        exact same.pointerConversion_eq ends functionless given wanted (by simp [hsource]) (by simp [htarget])
      · rfl

theorem referenceToBase_eq :
    after.referenceToBase source target = table.referenceToBase source target := by
  simp only [referenceToBase, classType?, same.linkedClass?_eq ends functionless given,
    same.linkedClass?_eq ends functionless wanted]
  split
  · rename_i derived base hderived hbase
    split at hderived
    · cases hderived
    · split at hbase
      · cases hbase
      · rw [same.properDistance_eq ends functionless
          (declClass_linkedClass? ends functionless given hderived)
          (declClass_linkedClass? ends functionless wanted hbase)]
  · rfl

/-- A type converts at the same cost. -/
theorem standardCost_eq : after.standardCost source target = table.standardCost source target := by
  have hoperands : ∀ cost : Cost, table.Functionless cost.source → table.Functionless cost.target →
      after.rankedCost cost = table.rankedCost cost := by
    intro cost hsource htarget
    have hpromotion : after.isPromotion cost.source cost.target =
        table.isPromotion cost.source cost.target := by
      rw [isPromotion, isPromotion, same.isEnumerationType_eq ends functionless hsource]
    have htemporary : after.temporaryCost? cost = table.temporaryCost? cost := by
      rw [temporaryCost?, temporaryCost?, hpromotion,
        same.standardConversion_eq ends functionless hsource htarget]
    have hbound : after.baseBindingCost? cost = table.baseBindingCost? cost := by
      rw [baseBindingCost?, baseBindingCost?, same.referenceToBase_eq ends functionless hsource htarget]
    rw [rankedCost, rankedCost, htemporary, hbound]
  rw [standardCost_eq_rankedCost, standardCost_eq_rankedCost]
  exact hoperands _ (given.conversionOperand _) (wanted.conversionOperand _)

end Operands

end

end SameButFunctions

/-! ## Adding the definition -/

/-- While a declaration is checked, only functions have been linked. -/
structure FunctionsLinked (table now : Table) : Prop extends table.SameButLinks now where
  config_eq : now.config = table.config
  links : ∀ x, table.declClass x ≠ .function → now.nextLink x = table.nextLink x

namespace FunctionsLinked

theorem refl (table : Table) : table.FunctionsLinked table := ⟨.refl table, rfl, fun _ _ => rfl⟩

variable (linked : table.FunctionsLinked now)

include linked

theorem sameButFunctions : table.SameButFunctions now where
  config_eq := linked.config_eq
  size_eq := linked.size_eq
  heads := linked.head
  parents := fun x => by rw [linked.symbols x]; rfl
  functions := fun x => by rw [linked.symbols x]; rfl
  links := linked.links

/-- What joins a scope keeps its links. -/
theorem enroll (scope id : SymbolId) : table.SameButFunctions (now.enroll scope id) := by
  have hsame := linked.sameButFunctions
  have hparts : ∀ x, ((now.enroll scope id).symbol x).parents = (now.symbol x).parents ∧
      ((now.enroll scope id).symbol x).functionData?.isSome = (now.symbol x).functionData?.isSome := by
    have hdecls : ∀ (change : Declarations → Declarations) (symbol : Symbol),
        (symbol.mapDecls change).parents = symbol.parents ∧
          (symbol.mapDecls change).functionData?.isSome = symbol.functionData?.isSome := by
      intro change symbol
      obtain ⟨name, scope, type, inTemplate, access, target, named, origin, link, payload⟩ := symbol
      cases payload <;> exact ⟨rfl, rfl⟩
    have hscope : ∀ outer inside x,
        ((now.perform id (.assign (.scope outer inside))).symbol x).parents = (now.symbol x).parents ∧
          ((now.perform id (.assign (.scope outer inside))).symbol x).functionData?.isSome =
            (now.symbol x).functionData?.isSome := by
      intro outer inside x
      rw [symbol_perform]
      split <;> exact ⟨rfl, rfl⟩
    intro x
    rw [Table.enroll, symbol_perform]
    split
    · exact ⟨(hdecls _ _).1.trans (hscope _ _ _).1, (hdecls _ _).2.trans (hscope _ _ _).2⟩
    · exact hscope _ _ _
  exact
    { config_eq := hsame.config_eq
      size_eq := (size_enroll now scope id).trans hsame.size_eq
      heads := fun x => (sameHead_enroll now scope id x).trans (hsame.heads x)
      parents := fun x => (hparts x).1.trans (hsame.parents x)
      functions := fun x => (hparts x).2.trans (hsame.functions x)
      links := fun x noFunction => (nextLink_enroll now scope id x).trans (hsame.links x noFunction) }

variable (ends : table.LinksEnd)

include ends

theorem link (function : now.declClass x = .function) (target : SymbolId) :
    table.FunctionsLinked (now.link (x, target)) where
  toSameButLinks := linked.toSameButLinks.link (x, target)
  config_eq := linked.config_eq
  links := by
    intro y noFunction
    have hclass : now.declClass y = table.declClass y := by
      rw [declClass_eq, declClass_eq, linked.sameButFunctions.canonical_eq ends noFunction,
        linked.entityClass_eq]
    have hdiffers : y ≠ x := by
      rintro rfl
      exact noFunction (hclass ▸ function)
    rw [nextLink_link_of_ne hdiffers]
    exact linked.links y noFunction

end FunctionsLinked

/-- The declaration that is checked is linked to something for good. -/
theorem nextLink_linksMade {olds : List SymbolId} (linked : now.nextLink new ≠ none) :
    ((linksMade new olds now).foldl link now).nextLink new ≠ none := by
  induction olds generalizing now with
  | nil => exact linked
  | cons old rest ih =>
      rw [linksMade]
      split
      · exact ih linked
      · rename_i differs
        split
        · exact linked
        · exact ih linked
        · rename_i id target hverdict
          refine ih ?_
          rcases (isLink_redeclare hverdict).ends with ⟨rfl, rfl⟩ | ⟨rfl, rfl⟩
          · cases halias : (now.symbol id).aliasOf with
            | some named =>
                rw [nextLink_link_of_alias (by rw [halias]; rfl)]
                exact linked
            | none =>
                rw [nextLink_link (isLink_redeclare hverdict).lt_size halias differs]
                exact Option.some_ne_none _
          · rw [nextLink_link_of_ne (Ne.symm differs)]
            exact linked

/-- While a function is checked that stays what it is, only functions are linked, and each of them to a function
that it declares again. -/
theorem functionsLinked_linksMade (ends : table.LinksEnd) (linked : table.FunctionsLinked now)
    (function : table.entityClass new = .function) {olds : List SymbolId}
    (stays : ((linksMade new olds now).foldl link now).nextLink new = none) :
    table.FunctionsLinked ((linksMade new olds now).foldl link now) ∧
      ∀ x, x ≠ new → ((linksMade new olds now).foldl link now).nextLink x ≠ now.nextLink x →
        ∃ middle, table.FunctionsLinked middle ∧ middle.nextLink new = none ∧
          middle.redeclare x new = .link x new := by
  induction olds generalizing now with
  | nil => exact ⟨linked, fun x _ changed => absurd rfl changed⟩
  | cons old rest ih =>
      have unlinked : now.nextLink new = none := by
        by_contra linkedTo
        exact nextLink_linksMade linkedTo stays
      rw [linksMade] at stays ⊢
      split
      · rename_i hself
        rw [if_pos hself] at stays
        exact ih linked stays
      · rename_i differs
        rw [if_neg differs] at stays
        cases hverdict : now.redeclare old new with
        | conflict => exact ⟨linked, fun x _ changed => absurd rfl changed⟩
        | separate =>
            simp only [hverdict] at stays
            exact ih linked stays
        | link id target =>
            simp only [hverdict, List.foldl_cons] at stays ⊢
            have hnew : now.declClass new = .function := by
              rw [declClass_eq, canonical_of_nextLink_none unlinked, linked.entityClass_eq, function]
            have hold : now.declClass old = .function :=
              (rival_of_redeclare_link hverdict).declClass.trans hnew
            have hlink := isLink_redeclare hverdict
            have hid : now.declClass id = .function := by
              rcases hlink.ends with ⟨rfl, -⟩ | ⟨rfl, -⟩
              · exact hnew
              · exact hold
            obtain ⟨hlast, hmiddle⟩ := ih (linked.link ends hid target) stays
            refine ⟨hlast, fun x hx changed => ?_⟩
            by_cases hself : x = id
            · subst hself
              rcases hlink.ends with ⟨hsame, -⟩ | ⟨rfl, rfl⟩
              · exact absurd hsame hx
              · exact ⟨now, linked, unlinked, hverdict⟩
            · refine hmiddle x hx ?_
              rw [nextLink_link_of_ne hself]
              exact changed

end Table

namespace Analysis

open Table

variable {table now after : Table} {scope id p d : SymbolId}

/-- A declaration that is added is linked with some of the earlier ones and joins the scope. -/
theorem exists_linksMade_of_addSymbol (added : addSymbol scope id table = .ok () after) :
    ∃ olds, after = ((linksMade id olds table).foldl link table).enroll scope id := by
  by_cases holds : (table.symbol scope).holdsMembers = true
  · cases hnamed : (table.symbol id).name.isEmpty with
    | true =>
        rw [addSymbol, get_bind, if_pos holds, if_pos hnamed] at added
        exact ⟨[], (insertMember_eq_ok added).2⟩
    | false =>
        rw [addSymbol_apply holds hnamed] at added
        refine ⟨table.members scope (table.symbol id).name, ?_⟩
        rcases forM_redeclare id (table.symbol id).name (table.members scope (table.symbol id).name) table with
          passed | conflict
        · rw [bind_ok ((checkRedeclaration_apply scope id table).trans passed)] at added
          exact (insertMember_eq_ok added).2
        · rw [bind_error ((checkRedeclaration_apply scope id table).trans conflict)] at added
          cases added
  · rw [addSymbol, get_bind, if_neg holds] at added
    cases added

/-- A definition that completes a function has its parameters, and changes nothing but what functions stand
for. -/
theorem completes_of_addSymbol (ends : table.LinksEnd) (functionless : table.TypesFunctionless)
    (definition : (table.symbol d).isFunction = true) (unlinked : table.canonical p = p) (differs : p ≠ d)
    (added : addSymbol scope d table = .ok () after) (endsAfter : after.LinksEnd)
    (completed : after.canonical p = d) : table.SameButFunctions after ∧ table.SameCall p d := by
  obtain ⟨olds, rfl⟩ := exists_linksMade_of_addSymbol added
  have hnextP := ends.nextLink_canonical p
  have hnextD := endsAfter.nextLink_canonical p
  rw [unlinked] at hnextP
  rw [completed, nextLink_enroll] at hnextD
  have hclass : table.entityClass d = .function := by simp [entityClass, definition]
  obtain ⟨hlinked, hmiddle⟩ := functionsLinked_linksMade ends (.refl table) hclass hnextD
  refine ⟨hlinked.enroll scope d, ?_⟩
  -- The function stood for itself, so that it was linked to the definition by the check.
  have hchanged : ((linksMade d olds table).foldl link table).nextLink p ≠ table.nextLink p := by
    intro same
    rw [hnextP, ← nextLink_enroll _ scope d] at same
    exact differs ((canonical_of_nextLink_none same).symm.trans completed)
  obtain ⟨middle, hmiddle, hunlinked, hverdict⟩ := hmiddle p differs hchanged
  have hrival := rival_of_redeclare_link hverdict
  have hfunction : middle.declClass p = .function := by
    rw [hrival.declClass, declClass_eq, canonical_of_nextLink_none hunlinked, hmiddle.entityClass_eq, hclass]
  obtain ⟨-, -, -, hparameters⟩ := hrival.function hfunction
  have hstands : middle.canonical p = p := by
    refine canonical_of_nextLink_none ?_
    have htarget := (isLink_redeclare hverdict).unlinked differs
    rw [nextLink] at hnextP ⊢
    rw [htarget, (hmiddle.head p).aliasOf]
    cases halias : (table.symbol p).aliasOf with
    | none => rfl
    | some named => simpa [halias] using hnextP
  rw [hasSameParameters_iff, hstands, canonical_of_nextLink_none hunlinked] at hparameters
  have hcall := hparameters.resolve_left differs
  have hsame := hmiddle.sameButFunctions
  refine ⟨?_, ?_, ?_⟩
  · rw [← (hsame.heads p).type, ← (hsame.heads d).type]
    exact hcall.cv
  · rw [← (hsame.heads p).varargs, ← (hsame.heads d).varargs]
    exact hcall.varargs
  · rw [← hsame.signature_eq ends functionless, ← hsame.signature_eq ends functionless]
    exact hcall.signature

end Analysis

end NameBinding
