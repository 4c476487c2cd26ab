import NameBinding.Proofs.Table.LinkMoves
import NameBinding.Proofs.Table.Signatures

/-!
# Scopes without ambiguities

Declarations that are added to a scope are checked against the earlier ones of their name, so that what
stands beside each other under one name is either one entity or may be overloaded.

* `Table.Rival`: two declarations that may only stand beside each other as one entity.
* `Table.Unambiguous`: rivals among the declarations of a name are one entity, and there are no objects
  beside functions.
* `Table.Declared`: the invariant of a table in which the declarations `passed` have been passed to
  `addSymbol`, each once.  A rejected declaration counts as passed, since its links stay.
* `Table.Unmoved`: a step that leaves links and passed declarations alone.  It keeps classes, signatures and
  rivals (`Unmoved.rival_of`), and so most of the invariant (`Declared.unmoved`).
-/

namespace NameBinding

/-- Nothing that was named elsewhere: no alias, no bases, no renamed parameters, no partial
specializations. -/
structure Symbol.Bare (symbol : Symbol) : Prop where
  aliasOf : symbol.aliasOf = none
  parents : symbol.parents = []
  renamed : (symbol.templateData?.map (·.definitionParameters)).getD [] = []
  specializations : symbol.specializations = []

namespace Table

variable {careful : Prop} {table after : Table} {passed : List SymbolId}
  {a b c new old scope target x y : SymbolId}

/-! ## Rivals -/

/-- The two declarations may only stand beside each other as one entity: two tags, two objects, or two
functions with the same parameters.  Functions count only where typedefs are declared with care, since
the types of parameters may otherwise change their meaning later on. -/
structure Rival (careful : Prop) (table : Table) (a b : SymbolId) : Prop where
  declClass : table.declClass a = table.declClass b
  function : table.declClass a = .function → careful ∧ (table.symbol a).isTemplate = false ∧
    (table.symbol b).isTemplate = false ∧ table.hasSameParameters a b = true

theorem hasSameParameters_symm (same : table.hasSameParameters a b = true) :
    table.hasSameParameters b a = true := by
  rw [hasSameParameters_iff] at same ⊢
  rcases same with one | call
  · exact .inl one.symm
  · exact .inr call.symm

theorem hasSameParameters_trans (first : table.hasSameParameters a b = true)
    (second : table.hasSameParameters b c = true) : table.hasSameParameters a c = true := by
  rw [hasSameParameters_iff] at first second ⊢
  rcases first with one | call
  · rwa [one]
  · rcases second with other | further
    · rw [← other]
      exact .inr call
    · exact .inr (call.trans further)

theorem Rival.symm (rival : table.Rival careful a b) : table.Rival careful b a := by
  refine ⟨rival.declClass.symm, fun hclass => ?_⟩
  obtain ⟨hcareful, ha, hb, hsame⟩ := rival.function (rival.declClass.trans hclass)
  exact ⟨hcareful, hb, ha, hasSameParameters_symm hsame⟩

theorem Rival.trans (first : table.Rival careful a b) (second : table.Rival careful b c) :
    table.Rival careful a c := by
  refine ⟨first.declClass.trans second.declClass, fun hclass => ?_⟩
  obtain ⟨hcareful, ha, -, hsame⟩ := first.function hclass
  obtain ⟨-, -, hc, hsame'⟩ := second.function (first.declClass.symm.trans hclass)
  exact ⟨hcareful, ha, hc, hasSameParameters_trans hsame hsame'⟩

/-- Rivals are one entity, and no object stands beside a function. -/
structure Unambiguous (careful : Prop) (table : Table) (ids : List SymbolId) : Prop where
  shares : ∀ a ∈ ids, ∀ b ∈ ids, table.Rival careful a b → table.canonical a = table.canonical b
  apart : ∀ a ∈ ids, ∀ b ∈ ids, table.declClass a = .object → table.declClass b ≠ .function

/-- A later declaration may complete this one. -/
def isCompletable (table : Table) (id : SymbolId) : Bool :=
  table.isForwardDeclaration id || (table.symbol id).type.flags.specifiers.isExtern

/-- A template holds its templated declaration as the first member of its own name. -/
theorem templated?_eq (table : Table) (x : SymbolId) :
    table.templated? x =
      if (table.symbol x).isTemplate then (table.members x (table.symbol x).name).head?
      else none := by
  unfold templated? members
  generalize table.symbol x = symbol
  obtain ⟨name, scope, type, inTemplate, access, target, named, origin, link, payload⟩ := symbol
  cases payload <;> rfl

/-! ## The invariant -/

/-- The declarations `passed` have been passed to `addSymbol` in this order. -/
structure Declared (careful : Prop) (passed : List SymbolId) (table : Table) : Prop where
  nodup : passed.Nodup
  within : Within table.size passed
  linksEnd : table.LinksEnd
  bare : ∀ x, (table.symbol x).Bare
  alone : ∀ x, x ∉ passed → table.nextLink x = none ∧ table.Untargeted x
  members : ∀ scope name, ∀ x ∈ table.members scope name,
    x ∈ passed ∧ (table.symbol x).scope = some scope
  templated : ∀ x ∈ passed, (table.symbol x).isTemplate = true → (table.templated? x).isSome = true
  templates : ∀ x ∈ passed, table.declClass x = .function →
    (table.symbol (table.canonical x)).isTemplate = (table.symbol x).isTemplate
  unlinked : ∀ x ∈ passed, table.declClass x = .function →
    (table.symbol x).isTemplate = true → table.canonical x = x
  attached : ∀ x, ∀ parameter ∈ (table.symbol x).parameters,
    (table.symbol parameter).scope.isSome = true
  parameters : ∀ x ∈ passed, ∀ parameter ∈ (table.symbol x).parameters,
    ∀ link, (table.symbol parameter).type.link = some link → link ∈ passed
  typedefs : careful → table.TypedefsDescend passed
  final : careful → ∀ x ∈ passed, (table.symbol x).type.isTypedef = true →
    table.isCompletable x = false
  unambiguous : ∀ scope name, name.isEmpty = false →
    table.Unambiguous careful (table.members scope name)

namespace Declared

variable (declared : table.Declared careful passed)

include declared

theorem length_le : passed.length ≤ table.size := length_le_size declared.nodup declared.within

/-- What a passed declaration stands for has been passed. -/
theorem canonical_mem (member : x ∈ passed) : table.canonical x ∈ passed := by
  refine Reaches.mem_of_closed (declared.linksEnd.stands x).reaches member fun a b _ linked => ?_
  by_contra unpassed
  exact (declared.alone b unpassed).2 a linked

theorem canonical_of_fresh (fresh : x ∉ passed) : table.canonical x = x :=
  canonical_of_nextLink_none (declared.alone x fresh).1

/-- The templated declaration is a member of its template. -/
theorem templated_mem (templated : table.templated? x = some y) : y ∈ passed := by
  rw [templated?_eq] at templated
  split at templated
  · exact (declared.members x _ y (List.mem_of_mem_head? templated)).1
  · cases templated

/-- The types of the parameters of a declaration do not change any more. -/
theorem keepsCall (member : x ∈ passed) (head : (after.symbol x).SameHead (table.symbol x))
    (types : ∀ y, (table.symbol y).scope.isSome = true →
      (after.symbol y).type = (table.symbol y).type) : KeepsCall passed table after x where
  type := head.type
  varargs := head.varargs
  parameters := head.parameters
  types := fun parameter inside => types parameter (declared.attached x parameter inside)
  named := declared.parameters x member

end Declared

/-! ## Steps that leave passed declarations alone -/

/-- Links stay as they are, and the passed declarations keep what makes them up; members may be added,
but no templated declaration is replaced. -/
structure Unmoved (passed : List SymbolId) (table after : Table) : Prop where
  size_le : table.size ≤ after.size
  nextLink : ∀ x, after.nextLink x = table.nextLink x
  heads : ∀ x ∈ passed, (after.symbol x).SameHead (table.symbol x)
  templated : ∀ x ∈ passed, after.templated? x = table.templated? x
  types : ∀ x, (table.symbol x).scope.isSome = true → (after.symbol x).type = (table.symbol x).type

namespace Unmoved

variable (unmoved : table.Unmoved passed after) (declared : table.Declared careful passed)

include unmoved declared

theorem canonical_eq (x : SymbolId) : after.canonical x = table.canonical x :=
  ((declared.linksEnd.stands x).congr fun y _ => unmoved.nextLink y).canonical_eq

theorem entityClass_eq (member : x ∈ passed) : after.entityClass x = table.entityClass x := by
  have hhead := unmoved.heads x member
  have htemplated := unmoved.templated x member
  have htypes : ∀ y, table.templated? x = some y →
      (after.symbol y).type = (table.symbol y).type := fun y hy =>
    (unmoved.heads y (declared.templated_mem hy)).type
  unfold entityClass isFunctionTemplate isClassTemplate Symbol.isFunction
  rw [htemplated, hhead.type]
  cases htempl : table.templated? x with
  | none => rfl
  | some y => simp only [Option.any_some, htypes y htempl]

theorem declClass_eq (member : x ∈ passed) : after.declClass x = table.declClass x := by
  rw [Table.declClass_eq, Table.declClass_eq, unmoved.canonical_eq declared,
    unmoved.entityClass_eq declared (declared.canonical_mem member)]

theorem isCompletable_eq (member : x ∈ passed) : after.isCompletable x = table.isCompletable x := by
  have hhead := unmoved.heads x member
  have htemplated := unmoved.templated x member
  unfold isCompletable isForwardDeclaration
  rw [htemplated, hhead.type, hhead.isTemplate]
  cases htempl : table.templated? x with
  | none => rfl
  | some y => simp only [Option.any_some, (unmoved.heads y (declared.templated_mem htempl)).type]

theorem typedefsDescend (descends : table.TypedefsDescend passed) :
    after.TypedefsDescend passed where
  names := by
    intro x member
    rw [(unmoved.heads x member).type]
    exact descends.names x member
  closed := by
    intro x member
    rw [unmoved.canonical_eq declared]
    exact descends.closed x member
  stands := by
    intro x member
    rw [unmoved.canonical_eq declared, (unmoved.heads _ (descends.closed x member)).type]
    exact descends.stands x member

theorem renames : table.Renames passed id after where
  canonical := fun x _ => unmoved.canonical_eq declared x
  typedef := fun x member _ => ⟨rfl, (unmoved.heads x member).type⟩
  plain := fun x member plain => (congrArg (·.isTypedef) (unmoved.heads x member).type).trans plain
  injective := fun _ _ _ _ same => same

theorem hasSameParameters_eq (descends : table.TypedefsDescend passed) (memberA : a ∈ passed)
    (memberB : b ∈ passed) : after.hasSameParameters a b = table.hasSameParameters a b := by
  have hkeeps : ∀ x ∈ passed, KeepsCall passed table after (table.canonical x) := by
    intro x member
    have hcanonical := declared.canonical_mem member
    exact declared.keepsCall hcanonical (unmoved.heads _ hcanonical) unmoved.types
  have hcall := (unmoved.renames declared).sameCall_iff descends declared.length_le
    unmoved.size_le (hkeeps a memberA) (hkeeps b memberB)
  rw [Bool.eq_iff_iff, hasSameParameters_iff, hasSameParameters_iff,
    unmoved.canonical_eq declared, unmoved.canonical_eq declared, hcall]

theorem rival_of (memberA : a ∈ passed) (memberB : b ∈ passed) (rival : after.Rival careful a b) :
    table.Rival careful a b := by
  have hclass := rival.declClass
  rw [unmoved.declClass_eq declared memberA, unmoved.declClass_eq declared memberB] at hclass
  refine ⟨hclass, fun hfunction => ?_⟩
  obtain ⟨hcareful, ha, hb, hsame⟩ :=
    rival.function ((unmoved.declClass_eq declared memberA).trans hfunction)
  rw [(unmoved.heads a memberA).isTemplate] at ha
  rw [(unmoved.heads b memberB).isTemplate] at hb
  rw [unmoved.hasSameParameters_eq declared (declared.typedefs hcareful) memberA memberB] at hsame
  exact ⟨hcareful, ha, hb, hsame⟩

theorem unambiguous {ids : List SymbolId} (sub : ∀ x ∈ ids, x ∈ passed)
    (before : table.Unambiguous careful ids) : after.Unambiguous careful ids where
  shares := by
    intro a ha b hb rival
    rw [unmoved.canonical_eq declared, unmoved.canonical_eq declared]
    exact before.shares a ha b hb (unmoved.rival_of declared (sub a ha) (sub b hb) rival)
  apart := by
    intro a ha b hb
    rw [unmoved.declClass_eq declared (sub a ha), unmoved.declClass_eq declared (sub b hb)]
    exact before.apart a ha b hb

end Unmoved

/-- What is left of the invariant once passed declarations have been left alone. -/
theorem Declared.unmoved (declared : table.Declared careful passed)
    (unmoved : table.Unmoved passed after) (bare : ∀ x, (after.symbol x).Bare)
    (attached : ∀ x, ∀ parameter ∈ (after.symbol x).parameters,
      (after.symbol parameter).scope.isSome = true)
    (members : ∀ scope name, ∀ x ∈ after.members scope name,
      x ∈ passed ∧ (after.symbol x).scope = some scope)
    (unambiguous : ∀ scope name, name.isEmpty = false →
      after.Unambiguous careful (after.members scope name)) :
    after.Declared careful passed where
  nodup := declared.nodup
  within := declared.within.mono unmoved.size_le
  linksEnd := declared.linksEnd.of_nextLink unmoved.nextLink
  bare := bare
  alone := by
    intro x fresh
    obtain ⟨hunlinked, huntargeted⟩ := declared.alone x fresh
    refine ⟨(unmoved.nextLink x).trans hunlinked, fun y linked => huntargeted y ?_⟩
    rw [← unmoved.nextLink y]
    exact linked
  members := members
  templated := by
    intro x member
    rw [(unmoved.heads x member).isTemplate, unmoved.templated x member]
    exact declared.templated x member
  templates := by
    intro x member
    have hcanonical := unmoved.heads _ (declared.canonical_mem member)
    rw [unmoved.declClass_eq declared member, unmoved.canonical_eq declared, hcanonical.isTemplate,
      (unmoved.heads x member).isTemplate]
    exact declared.templates x member
  unlinked := by
    intro x member
    rw [unmoved.declClass_eq declared member, unmoved.canonical_eq declared,
      (unmoved.heads x member).isTemplate]
    exact declared.unlinked x member
  attached := attached
  parameters := by
    intro x member parameter inside
    rw [(unmoved.heads x member).parameters] at inside
    rw [unmoved.types parameter (declared.attached x parameter inside)]
    exact declared.parameters x member parameter inside
  typedefs := fun hcareful => unmoved.typedefsDescend declared (declared.typedefs hcareful)
  final := by
    intro hcareful x member
    rw [(unmoved.heads x member).type, unmoved.isCompletable_eq declared member]
    exact declared.final hcareful x member
  unambiguous := unambiguous

end Table

end NameBinding
