import NameBinding.Proofs.Lookup.Overloads
import NameBinding.Proofs.Operation.Repetition
import NameBinding.Proofs.Table.Declaring

/-!
# Names after a using-declaration

A using-declaration adds aliases to the members of a scope.  It rejects a second object, but does not check
the other declarations that exclude each other, so that the name may be ambiguous afterwards.

* `Table.Imports`: the table after some of the aliases have been added.
* `Imports.introduceAlias`: what one more declaration adds.
* `mem_visibleEntities_old`, `mem_visibleEntities_new` and `visibleEntities_cases`: what is visible in the
  scope afterwards.

The main statement is `using_declaration_ambiguous_iff`.
-/

namespace NameBinding

/-! ## Symbols without their members -/

/-- A symbol without its members. -/
def Symbol.frame (symbol : Symbol) : Symbol :=
  symbol.mapDecls fun decls => { decls with byName := [], contents := [] }

theorem Symbol.frame_insert (symbol : Symbol) (name : Name) (member : SymbolId) :
    ((Edit.insertMember name member).apply symbol).frame = symbol.frame := by
  obtain ⟨_, scope, type, inTemplate, access, target, named, origin, link, payload⟩ := symbol
  cases payload <;> rfl

namespace Table

variable {table now after : Table} {scope origin : SymbolId} {name : Name} {ids aliases : List SymbolId}
  {id x : SymbolId}

/-- What is read from a symbol without regard to its members is the same for symbols that differ in these. -/
theorem read_frame {α : Type} {a b : Symbol} (same : a.frame = b.frame) (reader : Symbol → α)
    (blind : ∀ symbol : Symbol, reader symbol.frame = reader symbol) : reader a = reader b := by
  rw [← blind a, ← blind b, same]

/-- Members are no links. -/
theorem nextLink_of_frame (same : (after.symbol x).frame = (table.symbol x).frame) :
    after.nextLink x = table.nextLink x := by
  refine nextLink_of_symbol_eq (read_frame same Symbol.aliasOf fun symbol => ?_)
    (read_frame same Symbol.forwardTarget fun symbol => ?_)
  all_goals
    obtain ⟨_, scope, type, inTemplate, access, target, named, origin, link, payload⟩ := symbol
    cases payload <;> rfl

/-! ## Aliases that are added to a scope -/

/-- The aliases have been added to the members of the scope, for some of the entities `ids`. -/
structure Imports (table : Table) (scope : SymbolId) (name : Name) (ids aliases : List SymbolId)
    (after : Table) : Prop where
  size_le : table.size ≤ after.size
  frames : ∀ x : SymbolId, x.index < table.size → (after.symbol x).frame = (table.symbol x).frame
  plain : ∀ x : SymbolId, table.size ≤ x.index → (after.symbol x).holdsMembers = false
  members : after.members scope name = table.members scope name ++ aliases
  others : ∀ x other, x.index < table.size → x ≠ scope ∨ other ≠ name →
    after.members x other = table.members x other
  targets : ∀ made ∈ aliases, table.size ≤ made.index ∧ made.index < after.size ∧
    (after.symbol made).scope = some scope ∧ ∃ id ∈ ids, (after.symbol made).aliasOf = some id
  fresh : ∀ made ∈ aliases, ∀ x ∈ table.members scope name,
    (after.symbol made).aliasOf ≠ some (table.canonical x)
  distinct : (aliases.map fun made => (after.symbol made).aliasOf).Nodup
  unchanged : aliases = [] → after = table

namespace Imports

/-- Before the first alias. -/
theorem start (table : Table) (scope : SymbolId) (name : Name) (ids : List SymbolId) :
    table.Imports scope name ids [] table where
  size_le := Nat.le_refl _
  frames := fun _ _ => rfl
  plain := by
    intro x behind
    by_contra holds
    exact absurd (lt_size_of_holdsMembers (Bool.not_eq_false _ ▸ holds)) (Nat.not_lt.mpr behind)
  members := (List.append_nil _).symm
  others := fun _ _ _ _ => rfl
  targets := fun _ member => absurd member List.not_mem_nil
  fresh := fun _ member => absurd member List.not_mem_nil
  distinct := List.nodup_nil
  unchanged := fun _ => rfl

variable (imports : table.Imports scope name ids aliases after)

include imports

theorem type_eq (lt : x.index < table.size) : (after.symbol x).type = (table.symbol x).type := by
  refine read_frame (imports.frames x lt) Symbol.type fun symbol => ?_
  obtain ⟨_, scope, type, inTemplate, access, target, named, origin, link, payload⟩ := symbol
  cases payload <;> rfl

theorem nextLink_eq (lt : x.index < table.size) : after.nextLink x = table.nextLink x :=
  nextLink_of_frame (imports.frames x lt)

theorem isTemplate_eq (lt : x.index < table.size) :
    (after.symbol x).isTemplate = (table.symbol x).isTemplate := by
  refine read_frame (imports.frames x lt) Symbol.isTemplate fun symbol => ?_
  obtain ⟨_, scope, type, inTemplate, access, target, named, origin, link, payload⟩ := symbol
  cases payload <;> rfl

theorem name_eq (lt : x.index < table.size) : (after.symbol x).name = (table.symbol x).name := by
  refine read_frame (imports.frames x lt) Symbol.name fun symbol => ?_
  obtain ⟨_, scope, type, inTemplate, access, target, named, origin, link, payload⟩ := symbol
  cases payload <;> rfl

theorem scope_eq (lt : x.index < table.size) : (after.symbol x).scope = (table.symbol x).scope := by
  refine read_frame (imports.frames x lt) Symbol.scope fun symbol => ?_
  obtain ⟨_, scope, type, inTemplate, access, target, named, origin, link, payload⟩ := symbol
  cases payload <;> rfl

theorem parents_eq (lt : x.index < table.size) : (after.symbol x).parents = (table.symbol x).parents := by
  refine read_frame (imports.frames x lt) Symbol.parents fun symbol => ?_
  obtain ⟨_, scope, type, inTemplate, access, target, named, origin, link, payload⟩ := symbol
  cases payload <;> rfl

theorem parameters_eq (lt : x.index < table.size) :
    (after.symbol x).parameters = (table.symbol x).parameters := by
  refine read_frame (imports.frames x lt) Symbol.parameters fun symbol => ?_
  obtain ⟨_, scope, type, inTemplate, access, target, named, origin, link, payload⟩ := symbol
  cases payload <;> rfl

theorem renamed_eq (lt : x.index < table.size) :
    (after.symbol x).templateData?.map (·.definitionParameters) =
      (table.symbol x).templateData?.map (·.definitionParameters) := by
  refine read_frame (imports.frames x lt) (fun symbol => symbol.templateData?.map (·.definitionParameters))
    fun symbol => ?_
  obtain ⟨_, scope, type, inTemplate, access, target, named, origin, link, payload⟩ := symbol
  cases payload <;> rfl

section Ends

variable (represented : table.Represented) (ends : table.LinksEnd)

include represented ends

theorem stands (lt : x.index < table.size) : after.Stands x (table.canonical x) :=
  (ends.stands x).congr fun _ reaches => imports.nextLink_eq (represented.reaches_lt reaches lt)

theorem canonical_eq (lt : x.index < table.size) : after.canonical x = table.canonical x :=
  (imports.stands represented ends lt).canonical_eq

/-- An alias stands for the entity that it was made for. -/
theorem canonical_made (entities : ∀ id ∈ ids, id.index < table.size ∧ table.canonical id = id) {made : SymbolId}
    (member : made ∈ aliases) :
    after.canonical made ∈ ids ∧ (after.symbol made).aliasOf = some (after.canonical made) := by
  obtain ⟨behind, -, -, id, hid, named⟩ := imports.targets made member
  obtain ⟨lt, hentity⟩ := entities id hid
  have hlink : after.nextLink made = some id := by
    rw [nextLink, named]
    refine Option.filter_eq_some_iff.mpr ⟨rfl, ?_⟩
    have hne : id ≠ made := by
      rintro rfl
      omega
    simpa using hne
  have hstands := Stands.head hlink (imports.stands represented ends lt)
  rw [hentity] at hstands
  rw [hstands.canonical_eq]
  exact ⟨hid, named⟩

end Ends

end Imports

theorem frame_enroll (differs : id ≠ x) : ((table.enroll scope id).symbol x).frame = (table.symbol x).frame := by
  rw [enroll, symbol_perform]
  split
  · rw [Symbol.frame_insert, symbol_perform_of_ne _ _ differs]
  · rw [symbol_perform_of_ne _ _ differs]

/-- The table after an alias has been added. -/
def withAlias (table : Table) (scope : SymbolId) (name : Name) (target : SymbolId) : Table :=
  (table.allocate { name, type := (table.symbol target).type, aliasOf := some target }).2.enroll scope ⟨table.size⟩

theorem symbol_push_last (table : Table) (symbol : Symbol) :
    (table.allocate symbol).2.symbol ⟨table.size⟩ = symbol := by
  rw [symbol_of_push rfl, if_pos rfl]

section WithAlias

variable (table : Table) (scope : SymbolId) (name : Name) (target : SymbolId)

theorem size_withAlias : (table.withAlias scope name target).size = table.size + 1 := by
  rw [withAlias, size_enroll, size_allocate]

theorem sameHead_made : ((table.withAlias scope name target).symbol ⟨table.size⟩).SameHead
    { name, type := (table.symbol target).type, aliasOf := some target } := by
  have hhead := sameHead_enroll (table.allocate
    { name, type := (table.symbol target).type, aliasOf := some target }).2 scope ⟨table.size⟩ ⟨table.size⟩
  rwa [symbol_push_last] at hhead

theorem scope_made : ((table.withAlias scope name target).symbol ⟨table.size⟩).scope = some scope := by
  rw [withAlias, scope_enroll, if_pos ⟨rfl, by simp [size_allocate]⟩]

variable {table}

theorem ne_made (lt : x.index < table.size) : (⟨table.size⟩ : SymbolId) ≠ x := by
  rintro rfl
  exact absurd lt (Nat.lt_irrefl _)

theorem sameHead_withAlias (lt : x.index < table.size) :
    ((table.withAlias scope name target).symbol x).SameHead (table.symbol x) := by
  have hhead := sameHead_enroll (table.allocate
    { name, type := (table.symbol target).type, aliasOf := some target }).2 scope ⟨table.size⟩ x
  rwa [symbol_allocate lt] at hhead

theorem scope_withAlias (lt : x.index < table.size) :
    ((table.withAlias scope name target).symbol x).scope = (table.symbol x).scope := by
  rw [withAlias, scope_enroll, if_neg fun same => ne_made lt same.1, symbol_allocate lt]

theorem frame_withAlias (lt : x.index < table.size) :
    ((table.withAlias scope name target).symbol x).frame = (table.symbol x).frame := by
  rw [withAlias, frame_enroll (ne_made lt), symbol_allocate lt]

/-- No new symbol holds members. -/
theorem holdsMembers_withAlias (behind : table.size ≤ x.index) :
    ((table.withAlias scope name target).symbol x).holdsMembers = false := by
  rw [withAlias, (sameHead_enroll _ scope ⟨table.size⟩ x).holdsMembers, symbol_of_push rfl]
  split
  · rfl
  · by_contra holds
    exact absurd (lt_size_of_holdsMembers (Bool.not_eq_false _ ▸ holds)) (Nat.not_lt.mpr behind)

variable {scope}

theorem members_withAlias (holds : (table.symbol scope).holdsMembers = true) (other : Name) :
    (table.withAlias scope name target).members scope other =
      if other = name then table.members scope other ++ [⟨table.size⟩] else table.members scope other := by
  have hlt := lt_size_of_holdsMembers holds
  have hmembers : (table.allocate
      { name, type := (table.symbol target).type, aliasOf := some target }).2.members scope other =
        table.members scope other := by
    rw [Table.members, symbol_allocate hlt, Table.members]
  rw [withAlias, members_enroll (by rwa [symbol_allocate hlt]), symbol_push_last, hmembers]

theorem members_withAlias_of_ne (lt : x.index < table.size) (differs : x ≠ scope) (other : Name) :
    (table.withAlias scope name target).members x other = table.members x other := by
  rw [withAlias, members_enroll_of_ne _ differs, Table.members, symbol_allocate lt, ← Table.members]

end WithAlias

/-- An alias is added for an entity that the scope does not have under the name. -/
theorem Imports.withAlias (imports : table.Imports scope name ids aliases now)
    (represented : table.Represented) (ends : table.LinksEnd)
    (entities : ∀ id ∈ ids, id.index < table.size ∧ table.canonical id = id) (member : id ∈ ids)
    (new : id ∉ (now.members scope name).map now.canonical) (holds : (now.symbol scope).holdsMembers = true) :
    table.Imports scope name ids (aliases ++ [⟨now.size⟩]) (now.withAlias scope name id) := by
  have hle := imports.size_le
  have hmade := sameHead_made now scope name id
  have haliasOf : ∀ made ∈ aliases, ((now.withAlias scope name id).symbol made).aliasOf =
      (now.symbol made).aliasOf := fun made listed =>
    (sameHead_withAlias scope name id (imports.targets made listed).2.1).aliasOf
  have hcanonical : ∀ x ∈ table.members scope name, now.canonical x = table.canonical x := fun x listed =>
    imports.canonical_eq represented ends (represented.members_within scope name x listed)
  rw [List.mem_map, imports.members] at new
  constructor
  case size_le =>
    rw [size_withAlias]
    omega
  case frames =>
    intro x lt
    rw [frame_withAlias scope name id (by omega), imports.frames x lt]
  case plain =>
    intro x behind
    by_cases old : x.index < now.size
    · rw [(sameHead_withAlias scope name id old).holdsMembers, imports.plain x behind]
    · exact holdsMembers_withAlias scope name id (Nat.le_of_not_lt old)
  case members =>
    rw [members_withAlias name id holds, if_pos rfl, imports.members, List.append_assoc]
  case others =>
    intro x other lt differs
    rw [← imports.others x other lt differs]
    by_cases same : x = scope
    · subst same
      rw [members_withAlias name id holds, if_neg (differs.resolve_left (absurd rfl))]
    · exact members_withAlias_of_ne name id (by omega) same other
  case targets =>
    have hsize := size_withAlias now scope name id
    intro made listed
    rcases List.mem_append.mp listed with old | last
    · obtain ⟨behind, lt, inside, target, htarget, named⟩ := imports.targets made old
      exact ⟨behind, by omega, (scope_withAlias scope name id lt).trans inside, target, htarget,
        (haliasOf made old).trans named⟩
    · cases List.mem_singleton.mp last
      exact ⟨hle, by simp [hsize], scope_made now scope name id, id, member, hmade.aliasOf⟩
  case fresh =>
    intro made listed x inside
    rcases List.mem_append.mp listed with old | last
    · rw [haliasOf made old]
      exact imports.fresh made old x inside
    · cases List.mem_singleton.mp last
      rw [hmade.aliasOf]
      intro same
      exact new ⟨x, List.mem_append_left aliases inside, (hcanonical x inside).trans (Option.some.inj same).symm⟩
  case distinct =>
    rw [List.map_append, List.map_congr_left haliasOf, List.map_singleton, hmade.aliasOf]
    refine List.nodup_append'.mpr ⟨imports.distinct, List.nodup_singleton _, fun target old last => ?_⟩
    cases List.mem_singleton.mp last
    obtain ⟨made, hmade, named⟩ := List.mem_map.mp old
    obtain ⟨-, hstands⟩ := imports.canonical_made represented ends entities hmade
    rw [named] at hstands
    exact new ⟨made, List.mem_append_right _ hmade, (Option.some.inj hstands).symm⟩
  case unchanged =>
    intro none
    simp at none

end Table

namespace Analysis

open Table

variable {now after : Table} {scope found : SymbolId} {name : Name} {aliases aliases' : List SymbolId}

/-- The entity of the declaration has the name already, or an alias is made for it. -/
theorem introduceAlias_eq_ok (ends : introduceAlias scope name aliases found now = .ok aliases' after) :
    (aliases' = aliases ∧ after = now) ∨
      now.canonical found ∉ (now.members scope name).map now.canonical ∧
        (now.symbol scope).holdsMembers = true ∧ aliases' = aliases ++ [⟨now.size⟩] ∧
        after = now.withAlias scope name (now.canonical found) := by
  rw [introduceAlias, get_bind] at ends
  split at ends
  · cases ends
    exact .inl ⟨rfl, rfl⟩
  · rename_i new
    split at ends
    · cases ends
    · right
      obtain ⟨made, pushed, hcreate, hinsert⟩ := bind_eq_ok.mp ends
      cases hcreate
      obtain ⟨_, inserted, hinserted, hdone⟩ := bind_eq_ok.mp hinsert
      cases hdone
      obtain ⟨holds, rfl⟩ := insertMember_eq_ok hinserted
      refine ⟨new, ?_, rfl, rfl⟩
      rw [symbol_of_push rfl] at holds
      split at holds
      · cases holds
      · exact holds

/-- All aliases of a using-declaration have been added if it succeeds. -/
theorem imports_of_foldlM {table : Table} {ids rest : List SymbolId} (represented : table.Represented)
    (ends : table.LinksEnd) (entities : ∀ id ∈ ids, id.index < table.size ∧ table.canonical id = id)
    (among : ∀ id ∈ rest, id ∈ ids) (imports : table.Imports scope name ids aliases now)
    (succeeds : rest.foldlM (introduceAlias scope name) aliases now = .ok aliases' after) :
    table.Imports scope name ids aliases' after := by
  induction rest generalizing aliases now with
  | nil =>
      cases succeeds
      exact imports
  | cons id rest ih =>
      rw [List.foldlM_cons] at succeeds
      obtain ⟨middle, between, hfirst, hrest⟩ := bind_eq_ok.mp succeeds
      refine ih (fun other later => among other (List.mem_cons_of_mem id later)) ?_ hrest
      obtain ⟨lt, hentity⟩ := entities id (among id List.mem_cons_self)
      rcases introduceAlias_eq_ok hfirst with ⟨rfl, rfl⟩ | ⟨new, holds, rfl, rfl⟩
      · exact imports
      · rw [imports.canonical_eq represented ends lt, hentity] at new ⊢
        exact imports.withAlias represented ends entities (among id List.mem_cons_self) new holds

end Analysis

/-! ## What is visible afterwards -/

namespace Table

variable {table after : Table} {scope origin : SymbolId} {name : Name} {ids aliases : List SymbolId}
  {id x : SymbolId}

/-- Following namespace aliases from `scope` ends at `origin`. -/
def ResolvesTo (table : Table) (scope origin : SymbolId) : Prop :=
  ∀ steps, table.size ≤ steps → table.resolveNamespaceSteps steps scope = origin

theorem ResolvesTo.of_unlinked (unlinked : (table.symbol (table.canonical scope)).type.link = none)
    (nonempty : 0 < table.size) : table.ResolvesTo scope (table.canonical scope) := by
  intro steps enough
  cases steps with
  | zero => omega
  | succ steps => rw [resolveNamespaceSteps, unlinked]

namespace Imports

variable (imports : table.Imports scope name ids aliases after) (represented : table.Represented)
  (ends : table.LinksEnd)

include imports

theorem scope_lt (some : aliases ≠ []) : scope.index < table.size := by
  by_contra behind
  have hplain := imports.plain scope (Nat.le_of_not_lt behind)
  have hnone : after.members scope name = [] := by
    rw [Table.members, Symbol.membersNamed]
    cases hdecls : (after.symbol scope).decls? with
    | none => rfl
    | some decls => simp [Symbol.holdsMembers, hdecls] at hplain
  rw [imports.members] at hnone
  exact some (List.append_eq_nil_iff.mp hnone).2

/-- An alias comes after the templated declaration. -/
theorem templated?_eq (templated : (table.symbol scope).isTemplate = true → (table.templated? scope).isSome = true)
    (lt : x.index < table.size) : after.templated? x = table.templated? x := by
  rw [Table.templated?_eq, Table.templated?_eq, imports.isTemplate_eq lt, imports.name_eq lt]
  split
  · rename_i isTemplate
    by_cases inside : x = scope ∧ (table.symbol x).name = name
    · obtain ⟨rfl, named⟩ := inside
      have hsome := templated isTemplate
      rw [Table.templated?_eq, if_pos isTemplate, named] at hsome
      rw [named, imports.members]
      cases hmembers : table.members x name with
      | nil => simp [hmembers] at hsome
      | cons first rest => rfl
    · rw [imports.others x _ lt (not_and_or.mp inside)]
  · rfl

include represented ends

theorem resolvesTo (resolves : table.ResolvesTo scope origin) : after.resolveNamespace scope = origin := by
  have hsteps : ∀ steps (x : SymbolId), x.index < table.size →
      after.resolveNamespaceSteps steps x = table.resolveNamespaceSteps steps x := by
    intro steps
    induction steps with
    | zero => exact fun _ _ => rfl
    | succ steps ih =>
        intro x lt
        have hlt := represented.canonical_lt lt
        simp only [resolveNamespaceSteps, imports.canonical_eq represented ends lt, imports.type_eq hlt]
        cases hlink : (table.symbol (table.canonical x)).type.link with
        | none => rfl
        | some target =>
            dsimp only
            rw [ih target ((represented.type_below _).link hlink)]
  by_cases none : aliases = []
  · rw [imports.unchanged none]
    exact resolves _ (Nat.le_refl _)
  · rw [resolveNamespace, hsteps _ _ (imports.scope_lt none)]
    exact resolves _ imports.size_le

section Classes

variable (templated : (table.symbol scope).isTemplate = true → (table.templated? scope).isSome = true)

include templated

theorem declClass_eq (lt : x.index < table.size) : after.declClass x = table.declClass x := by
  have hlt := represented.canonical_lt lt
  have htype : ∀ y, table.templated? (table.canonical x) = some y →
      (after.symbol y).type = (table.symbol y).type := by
    intro y hy
    rw [Table.templated?_eq] at hy
    split at hy
    · exact imports.type_eq (represented.members_within _ _ y (List.mem_of_mem_head? hy))
    · cases hy
  rw [Table.declClass_eq, Table.declClass_eq, imports.canonical_eq represented ends lt]
  unfold entityClass isFunctionTemplate isClassTemplate Symbol.isFunction
  rw [imports.templated?_eq templated hlt, imports.type_eq hlt]
  cases hy : table.templated? (table.canonical x) with
  | none => rfl
  | some y => simp only [Option.any_some, htype y hy]

theorem declaredIn_eq (lt : x.index < table.size) (ltId : id.index < table.size) :
    after.declaredIn id x = table.declaredIn id x := by
  rw [declaredIn, declaredIn, imports.declClass_eq represented ends templated lt, imports.isTemplate_eq lt,
    imports.scope_eq lt, imports.scope_eq ltId]

theorem excludes_iff {a b : SymbolId × Option SymbolId} (ltA : a.1.index < table.size)
    (ltB : b.1.index < table.size) : after.Excludes a b ↔ table.Excludes a b := by
  rw [Excludes, Excludes, imports.declClass_eq represented ends templated ltA,
    imports.declClass_eq represented ends templated ltB]

/-! ### Visible entities -/

variable {entity : SymbolId × Option SymbolId} {added rest : List SymbolId}

omit templated in
theorem find?_old {list : List SymbolId} (within : ∀ id ∈ list, id.index < table.size) :
    list.find? (fun other => after.canonical other == x) = list.find? fun other => table.canonical other == x :=
  List.find?_congr fun other member => by rw [imports.canonical_eq represented ends (within other member)]

/-- Entities that were visible before still are, unless they got an alias. -/
theorem mem_visibleEntities_old (within : ∀ id ∈ table.members origin name ++ rest, id.index < table.size)
    (visible : entity ∈ table.visibleEntities (table.members origin name ++ rest))
    (others : ∀ made ∈ added, after.canonical made ≠ entity.1) :
    entity ∈ after.visibleEntities (table.members origin name ++ added ++ rest) := by
  obtain ⟨seen, id, first, declared⟩ := mem_visibleEntities.mp visible
  have hid := within id (List.mem_of_find?_eq_some first)
  have hentity : table.canonical id = entity.1 := by simpa using List.find?_some first
  have hlt : entity.1.index < table.size := hentity ▸ represented.canonical_lt hid
  have hnone : added.find? (fun other => after.canonical other == entity.1) = none :=
    List.find?_eq_none.mpr fun made member same => others made member (eq_of_beq same)
  refine mem_visibleEntities.mpr ⟨by rw [imports.type_eq hlt]; exact seen, id, ?_, ?_⟩
  · rw [List.find?_append, List.find?_append, hnone, Option.or_none,
      imports.find?_old represented ends fun id member => within id (List.mem_append_left _ member),
      imports.find?_old represented ends fun id member => within id (List.mem_append_right _ member),
      ← List.find?_append]
    exact first
  · rw [imports.declaredIn_eq represented ends templated hlt hid]
    exact declared

omit templated in
/-- An entity with an alias is visible, and counts as declared by this alias. -/
theorem mem_visibleEntities_new (entities : ∀ id ∈ ids, id.index < table.size ∧ table.canonical id = id)
    {made : SymbolId} (member : made ∈ aliases)
    (visible : (after.symbol (after.canonical made)).type.isFriend = false) :
    (after.canonical made, after.declaredIn made (after.canonical made)) ∈
      after.visibleEntities (table.members scope name ++ aliases ++ rest) := by
  have hstands : ∀ other ∈ aliases, (after.symbol other).aliasOf = some (after.canonical other) :=
    fun other listed => (imports.canonical_made represented ends entities listed).2
  have hold : (table.members scope name).find? (fun other => after.canonical other == after.canonical made) =
      none := by
    refine List.find?_eq_none.mpr fun x inside same => imports.fresh made member x inside ?_
    rw [hstands made member, ← eq_of_beq same,
      imports.canonical_eq represented ends (represented.members_within scope name x inside)]
  have hnew : aliases.find? (fun other => after.canonical other == after.canonical made) = some made := by
    obtain ⟨first, hfirst⟩ : ∃ first, aliases.find?
        (fun other => after.canonical other == after.canonical made) = some first :=
      Option.isSome_iff_exists.mp (List.find?_isSome.mpr ⟨made, member, by simp⟩)
    have hlisted := List.mem_of_find?_eq_some hfirst
    have hsame : after.canonical first = after.canonical made := by simpa using List.find?_some hfirst
    rw [hfirst, List.inj_on_of_nodup_map imports.distinct hlisted member
      (by rw [hstands first hlisted, hstands made member, hsame])]
  refine mem_visibleEntities.mpr ⟨visible, made, ?_, rfl⟩
  rw [List.find?_append, List.find?_append, hold, hnew]
  rfl

/-- What is visible afterwards has got an alias, or was visible before. -/
theorem visibleEntities_cases (within : ∀ id ∈ table.members origin name ++ rest, id.index < table.size)
    (visible : entity ∈ after.visibleEntities (table.members origin name ++ added ++ rest)) :
    (∃ made ∈ added, entity = (after.canonical made, after.declaredIn made (after.canonical made))) ∨
      entity ∈ table.visibleEntities (table.members origin name ++ rest) := by
  obtain ⟨seen, id, first, declared⟩ := mem_visibleEntities.mp visible
  have hentity : after.canonical id = entity.1 := by simpa using List.find?_some first
  have hold : (table.members origin name ++ rest).find? (fun other => table.canonical other == entity.1) =
      some id → entity ∈ table.visibleEntities (table.members origin name ++ rest) := by
    intro firstOld
    have hid := within id (List.mem_of_find?_eq_some firstOld)
    have hlt : entity.1.index < table.size := by
      rw [← hentity, imports.canonical_eq represented ends hid]
      exact represented.canonical_lt hid
    rw [imports.type_eq hlt] at seen
    rw [imports.declaredIn_eq represented ends templated hlt hid] at declared
    exact mem_visibleEntities.mpr ⟨seen, id, firstOld, declared⟩
  rw [List.find?_append, List.find?_append,
    imports.find?_old represented ends fun id member => within id (List.mem_append_left _ member),
    imports.find?_old represented ends fun id member => within id (List.mem_append_right _ member)] at first
  rw [List.find?_append] at hold
  cases hmembers : (table.members origin name).find? (fun other => table.canonical other == entity.1) with
  | some member =>
      rw [hmembers] at first hold
      exact .inr (hold first)
  | none =>
      rw [hmembers, Option.none_or] at first hold
      cases hadded : added.find? (fun other => after.canonical other == entity.1) with
      | some made =>
          rw [hadded, Option.some_or] at first
          cases first
          refine .inl ⟨id, List.mem_of_find?_eq_some hadded, ?_⟩
          rw [hentity, declared]
      | none =>
          rw [hadded, Option.none_or] at first
          exact .inr (hold first)

/-! ### Entities that exclude each other -/

variable (overloads : table.Overloads ids)
  (entities : ∀ id ∈ ids, id.index < table.size ∧ table.canonical id = id)

include overloads entities

/-- Functions that get aliases together do not exclude each other. -/
theorem not_excludes_made {made : SymbolId} (member : made ∈ aliases) {declared : Option SymbolId}
    {b : SymbolId × Option SymbolId} (together : b.1 ∈ ids) (differ : after.canonical made ≠ b.1) :
    ¬ after.Excludes (after.canonical made, declared) b := by
  intro excludes
  have hid := (imports.canonical_made represented ends entities member).1
  rcases overloads.alike _ hid _ together with same | ⟨hfirst, hsecond⟩
  · exact differ same
  · have hclass : ∀ id ∈ ids, after.declClass id = table.declClass id := fun id listed =>
      imports.declClass_eq represented ends templated (entities id listed).1
    rw [Excludes, hclass _ hid, hclass _ together, hfirst, hsecond] at excludes
    exact excludes

/-- If no two old entities exclude each other, one of two that do has got an alias, and the other one was
visible before. -/
theorem exists_excludes_made (added : List SymbolId)
    (within : ∀ id ∈ table.members origin name ++ rest, id.index < table.size)
    (clear : ∀ a ∈ table.visibleEntities (table.members origin name ++ rest),
      ∀ b ∈ table.visibleEntities (table.members origin name ++ rest), a.1 ≠ b.1 → ¬ after.Excludes a b)
    (made : added ⊆ aliases) {a b : SymbolId × Option SymbolId}
    (ha : a ∈ after.visibleEntities (table.members origin name ++ added ++ rest))
    (hb : b ∈ after.visibleEntities (table.members origin name ++ added ++ rest)) (differ : a.1 ≠ b.1)
    (excludes : after.Excludes a b) :
    ∃ made ∈ added, ∃ other ∈ table.visibleEntities (table.members origin name ++ rest),
      other.1 ≠ after.canonical made ∧
        after.Excludes (after.canonical made, after.declaredIn made (after.canonical made)) other := by
  rcases imports.visibleEntities_cases represented ends templated within ha with ⟨first, hfirst, rfl⟩ | oldA
  · rcases imports.visibleEntities_cases represented ends templated within hb with ⟨second, hsecond, rfl⟩ | oldB
    · have htogether := (imports.canonical_made represented ends entities (made hsecond)).1
      exact absurd excludes (imports.not_excludes_made represented ends templated overloads entities
        (made hfirst) htogether differ)
    · exact ⟨first, hfirst, b, oldB, differ.symm, excludes⟩
  · rcases imports.visibleEntities_cases represented ends templated within hb with ⟨second, hsecond, rfl⟩ | oldB
    · exact ⟨second, hsecond, a, oldA, differ, excludes.symm⟩
    · exact absurd excludes (clear a oldA b oldB differ)

/-- An entity that has got an alias and one that was visible before are both visible afterwards, if they exclude
each other. -/
theorem visible_of_excludes_made (within : ∀ id ∈ table.members scope name ++ rest, id.index < table.size)
    {made : SymbolId} (member : made ∈ aliases) {other : SymbolId × Option SymbolId}
    (visible : other ∈ table.visibleEntities (table.members scope name ++ rest))
    (differ : other.1 ≠ after.canonical made)
    (excludes : after.Excludes (after.canonical made, after.declaredIn made (after.canonical made)) other) :
    (after.canonical made, after.declaredIn made (after.canonical made)) ∈
        after.visibleEntities (table.members scope name ++ aliases ++ rest) ∧
      other ∈ after.visibleEntities (table.members scope name ++ aliases ++ rest) := by
  have hid := (imports.canonical_made represented ends entities member).1
  constructor
  · refine imports.mem_visibleEntities_new represented ends entities member ?_
    rw [imports.type_eq (entities _ hid).1]
    exact overloads.visible _ hid
  · refine imports.mem_visibleEntities_old represented ends templated within visible fun second hsecond same => ?_
    exact imports.not_excludes_made represented ends templated overloads entities member
      (same ▸ (imports.canonical_made represented ends entities hsecond).1) differ.symm excludes

end Classes

omit ends in
/-- Apart from its members, the scope answers as before. -/
theorem parameterHits_eq {query : Query} (exact : query.IsExact) (lt : x.index < table.size) :
    after.parameterHits query (after.symbol x) ++ after.definitionHits query (after.symbol x) =
      table.parameterHits query (table.symbol x) ++ table.definitionHits query (table.symbol x) := by
  have hparameters : after.parameterHits query (after.symbol x) =
      table.parameterHits query (table.symbol x) := by
    have hnames : (table.symbol x).parameters.map (fun id => ((after.symbol id).name, id)) =
        (table.symbol x).parameters.map fun id => ((table.symbol id).name, id) :=
      List.map_congr_left fun id member => by rw [imports.name_eq (represented.parameters_within x id member)]
    simp only [parameterHits, nameMatches, exact.whole, imports.parameters_eq lt, hnames]
  simp only [hparameters, definitionHits, nameMatches, exact.whole, imports.renamed_eq lt]

end Imports

end Table

/-! ## The lookup afterwards -/

namespace Analysis

open Table

variable {table after : Table} {scope origin qualifier : SymbolId} {name : Name} {aliases : List SymbolId}
  {options : LookupOptions}

/-- A using-declaration looks its name up and adds aliases for what it finds, of which several are
functions. -/
theorem imports_of_addUsingDeclaration (represented : table.Represented) (ends : table.LinksEnd)
    (succeeds : addUsingDeclaration scope name qualifier table = .ok aliases after) :
    ∃ ids, table.Overloads ids ∧ (∀ id ∈ ids, id.index < table.size ∧ table.canonical id = id) ∧
      table.Imports scope name ids aliases after := by
  obtain ⟨found, middle, hfound, hrest⟩ := bind_eq_ok.mp succeeds
  obtain ⟨rfl, overloads⟩ := lookup_reads represented ⟨rfl, rfl⟩ rfl hfound
  split at hrest
  · cases hrest
  · have hentities : ∀ id ∈ found.symbols, id.index < middle.size ∧ middle.canonical id = id := by
      intro id member
      obtain ⟨declared, rfl⟩ := overloads.canonical id member
      exact ⟨overloads.within _ member, ends.canonical_canonical declared⟩
    exact ⟨found.symbols, overloads, hentities, imports_of_foldlM represented ends hentities
      (fun id member => member) (.start middle scope name found.symbols) hrest⟩

/-- When a name is ambiguous after a using-declaration.  Let the name not be ambiguous in a scope without
bases, and let a using-declaration of it succeed there.  Then the name is ambiguous afterwards exactly if an
entity that got an alias and another one that was visible in the scope before exclude each other: two tags,
two objects, an object and a function, or a tag and something else that counts as declared elsewhere. -/
theorem using_declaration_ambiguous_iff (represented : table.Represented) (ends : table.LinksEnd)
    (templated : (table.symbol scope).isTemplate = true → (table.templated? scope).isSome = true)
    (exact : options.IsExact) (qualified : options.qualified = true)
    (directives : options.ignoreDirectives = true) (any : options.filter = .any)
    (resolves : table.ResolvesTo scope origin) (parentless : (table.symbol origin).parents = [])
    (clear : lookup scope name options table ≠ .error (.error (.ambiguous name)) table)
    (succeeds : addUsingDeclaration scope name qualifier table = .ok aliases after) :
    lookup scope name options after = .error (.error (.ambiguous name)) after ↔
      scope = origin ∧ ∃ made ∈ aliases,
        ∃ other ∈ table.visibleEntities (table.answers (table.query name options) scope),
          other.1 ≠ after.canonical made ∧
            after.Excludes (after.canonical made, after.declaredIn made (after.canonical made)) other := by
  obtain ⟨ids, overloads, entities, imports⟩ := imports_of_addUsingDeclaration represented ends succeeds
  by_cases none : aliases = []
  · subst none
    rw [imports.unchanged rfl]
    exact iff_of_false clear fun found => absurd found.2.choose_spec.1 List.not_mem_nil
  have hscope := imports.scope_lt none
  have horigin : origin.index < table.size := by
    rw [← resolves _ (Nat.le_refl _)]
    exact represented.resolveNamespace_lt hscope
  have hquery := exact.query_eq table after name
  let rest := (table.parameterHits (table.query name options) (table.symbol origin) ++
    table.definitionHits (table.query name options) (table.symbol origin)).map (·.2)
  have hbefore : table.answers (table.query name options) origin = table.members origin name ++ rest :=
    table.answers_of_any (exact.query table name) any origin
  have hafter : after.answers (after.query name options) origin = after.members origin name ++ rest := by
    rw [hquery, after.answers_of_any (exact.query table name) any origin,
      imports.parameterHits_eq represented (exact.query table name) horigin]
    rfl
  have hwithin : ∀ id ∈ table.members origin name ++ rest, id.index < table.size := by
    intro id member
    rw [← hbefore] at member
    obtain ⟨hit, hhit, rfl⟩ := List.mem_map.mp member
    exact represented.scopeHits_lt _ origin hit hhit
  have hlt : ∀ entity ∈ table.visibleEntities (table.members origin name ++ rest),
      entity.1.index < table.size := by
    intro entity visible
    obtain ⟨id, hid, rfl⟩ := exists_of_mem_visibleEntities visible
    exact represented.canonical_lt (hwithin id (List.mem_filter.mp hid).1)
  have hclear : ∀ a ∈ table.visibleEntities (table.members origin name ++ rest),
      ∀ b ∈ table.visibleEntities (table.members origin name ++ rest), a.1 ≠ b.1 → ¬ after.Excludes a b := by
    intro a ha b hb differ excludes
    refine clear ((lookup_here_ambiguous_iff exact qualified directives (resolves _ (Nat.le_refl _))
      parentless).mpr ?_)
    rw [hbefore]
    exact ⟨a, ha, b, hb, differ,
      (imports.excludes_iff represented ends templated (hlt a ha) (hlt b hb)).mp excludes⟩
  rw [lookup_here_ambiguous_iff exact qualified directives (imports.resolvesTo represented ends resolves)
    ((imports.parents_eq horigin).trans parentless), hafter]
  constructor
  · rintro ⟨a, ha, b, hb, differ, excludes⟩
    have hmade := fun added =>
      imports.exists_excludes_made represented ends templated overloads entities added hwithin hclear
    by_cases same : scope = origin
    · subst same
      rw [imports.members] at ha hb
      rw [hbefore]
      exact ⟨rfl, hmade aliases (List.Subset.refl aliases) ha hb differ excludes⟩
    · rw [imports.others origin name horigin (.inl (Ne.symm same)), ← List.append_nil (table.members origin name)]
        at ha hb
      obtain ⟨made, impossible, -⟩ := hmade [] (List.nil_subset aliases) ha hb differ excludes
      exact absurd impossible List.not_mem_nil
  · rintro ⟨rfl, made, hmade, other, hother, differ, excludes⟩
    rw [hbefore] at hother
    rw [imports.members]
    obtain ⟨hfirst, hsecond⟩ := imports.visible_of_excludes_made represented ends templated overloads entities
      hwithin hmade hother differ excludes
    exact ⟨_, hfirst, other, hsecond, differ.symm, excludes⟩

end Analysis

/-! ## A run -/

open Analysis

/-- A namespace has an object, and another one a function of the same name. -/
def declareApart : List Action :=
  [.perform (.createContainer ⟨18⟩ (.ofKind .nspace)), .perform (.addSymbol ⟨0⟩ ⟨1⟩),
    .perform (.createBasic ⟨17⟩ (.ofKind .int)), .perform (.addSymbol ⟨1⟩ ⟨2⟩),
    .perform (.createContainer ⟨19⟩ (.ofKind .nspace)), .perform (.addSymbol ⟨0⟩ ⟨3⟩),
    .perform (.createFunction ⟨17⟩ .function), .perform (.addSymbol ⟨3⟩ ⟨4⟩)]

/-- The table with the two declarations. -/
@[irreducible]
def apartTable : Table := (Table.new {}).ran declareApart

/-- The table in which the first namespace names the function of the second one. -/
@[irreducible]
def broughtTable : Table := finalTable apartTable (addUsingDeclaration ⟨1⟩ ⟨17⟩ ⟨3⟩)

/-- The using-declaration brings a function in beside an object, and makes their name ambiguous. -/
theorem function_brought_in_beside_object :
    apartTable.Represented ∧ apartTable.LinksEnd ∧ apartTable.ResolvesTo ⟨1⟩ ⟨1⟩ ∧
      lookup ⟨1⟩ ⟨17⟩ { qualified := true, ignoreDirectives := true } apartTable ≠
        .error (.error (.ambiguous ⟨17⟩)) apartTable ∧
      addUsingDeclaration ⟨1⟩ ⟨17⟩ ⟨3⟩ apartTable = .ok [⟨5⟩] broughtTable ∧
      lookup ⟨1⟩ ⟨17⟩ { qualified := true, ignoreDirectives := true } broughtTable =
        .error (.error (.ambiguous ⟨17⟩)) broughtTable := by
  have hcalm : apartTable.Calm := by
    have hreached : Reached Action.Joins ((Table.new {}).ran declareApart) :=
      Reached.ran (.new {}) (by decide +kernel)
    rw [apartTable]
    exact hreached.calm
  have hresolves : apartTable.ResolvesTo ⟨1⟩ ⟨1⟩ := by
    have hends : apartTable.ResolvesTo ⟨1⟩ (apartTable.canonical ⟨1⟩) :=
      .of_unlinked (by decide +kernel) (by decide +kernel)
    rwa [show apartTable.canonical ⟨1⟩ = ⟨1⟩ by decide +kernel] at hends
  have hclear : lookup ⟨1⟩ ⟨17⟩ { qualified := true, ignoreDirectives := true } apartTable ≠
      .error (.error (.ambiguous ⟨17⟩)) apartTable := by
    have hfound : (ending (lookup ⟨1⟩ ⟨17⟩ { qualified := true, ignoreDirectives := true } apartTable)).isOk := by
      decide +kernel
    intro ambiguous
    rw [ambiguous] at hfound
    cases hfound
  have hbrought : addUsingDeclaration ⟨1⟩ ⟨17⟩ ⟨3⟩ apartTable = .ok [⟨5⟩] broughtTable := by
    rw [broughtTable]
    exact eq_ok_of_ending (by decide +kernel)
  refine ⟨hcalm.represented, hcalm.linksEnd, hresolves, hclear, hbrought, ?_⟩
  refine (using_declaration_ambiguous_iff hcalm.represented hcalm.linksEnd (by decide +kernel) ⟨rfl, rfl⟩ rfl rfl
    rfl hresolves (by decide +kernel) hclear hbrought).mpr ?_
  have hfunction : broughtTable.declClass (broughtTable.canonical ⟨5⟩) = .function := by decide +kernel
  have hobject : broughtTable.declClass ⟨2⟩ = .object := by decide +kernel
  refine ⟨rfl, ⟨5⟩, by simp, (⟨2⟩, some ⟨1⟩), by decide +kernel, by decide +kernel, ?_⟩
  rw [Table.Excludes, hfunction, hobject]
  trivial

end NameBinding
