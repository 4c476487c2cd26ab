import NameBinding.Proofs.Lookup.Exclusion

/-!
# Merging and hiding at one scope level

The declarations that a level finds for a name stand for a set of entities: tags, objects and functions, where
friends do not count.  If each declaration stands in the scope of its entity, then these sets alone say what
the level amounts to.

* `Table.entitiesOf`: the entities of one sort that declarations stand for.
* `Table.Clash`: the entities exclude each other, and `Table.merged`: what is left of them otherwise.
* `entities_of_clear`: what is left depends on the entities alone, wherever they are declared.
* `visibleEntities_of_home`: each entity counts as declared in its own scope.

The main statement is `collectSymbol_merges`.
-/

namespace NameBinding

/-- The keys of the elements that are kept, one for each key, are the keys without duplicates. -/
theorem map_eraseDupsBy_key {α β : Type} [BEq β] (key : α → β) (list : List α) :
    (list.eraseDupsBy fun a b => key a == key b).map key = (list.map key).eraseDups := by
  induction hlength : list.length using Nat.strongRecOn generalizing list with
  | _ length ih =>
      cases list with
      | nil => simp
      | cons first rest =>
          have hle := List.length_filter_le (fun other => !(key other == key first)) rest
          simp only [List.length_cons] at hlength
          have hrest := ih _ (by omega) (rest.filter fun other => !(key other == key first)) rfl
          rw [List.eraseDupsBy_cons, List.map_cons, List.map_cons, List.eraseDups_cons, List.filter_map]
          refine congrArg (key first :: ·) (Eq.trans ?_ hrest)
          simp

namespace Table

variable {table : Table} {found found' : List SymbolId} {kind : DeclClass} {entity : SymbolId}

/-! ## The entities of each sort -/

/-- The entities of one sort that the declarations stand for, without friends and each once. -/
def entitiesOf (table : Table) (kind : DeclClass) (found : List SymbolId) : List SymbolId :=
  (found.map table.canonical).eraseDups.filter fun entity =>
    !(table.symbol entity).type.isFriend && table.declClass entity == kind

theorem mem_entitiesOf : entity ∈ table.entitiesOf kind found ↔
    (∃ id ∈ found, table.canonical id = entity) ∧ (table.symbol entity).type.isFriend = false ∧
      table.declClass entity = kind := by
  simp [entitiesOf]

theorem nodup_entitiesOf (table : Table) (kind : DeclClass) (found : List SymbolId) :
    (table.entitiesOf kind found).Nodup := by
  refine List.Nodup.filter _ ((pairwise_eraseDupsBy _ _).imp fun {a b} differs same => ?_)
  simp [same] at differs

/-- Neither the order nor the multiplicity of the declarations matters for the entities. -/
theorem perm_entitiesOf (same : ∀ id, id ∈ found ↔ id ∈ found') (kind : DeclClass) :
    (table.entitiesOf kind found).Perm (table.entitiesOf kind found') := by
  refine (List.perm_ext_iff_of_nodup (table.nodup_entitiesOf kind found)
    (table.nodup_entitiesOf kind found')).mpr fun entity => ?_
  simp only [mem_entitiesOf, same]

/-- The entities exclude each other: two tags, two objects, an object and a function, or a tag and something
else that is declared in another scope. -/
def Clash (table : Table) (found : List SymbolId) : Prop :=
  1 < (table.entitiesOf .tag found).length ∨ 1 < (table.entitiesOf .object found).length ∨
    (table.entitiesOf .object found ≠ [] ∧ table.entitiesOf .function found ≠ []) ∨
    ∃ tag ∈ table.entitiesOf .tag found,
      ∃ other ∈ table.entitiesOf .object found ++ table.entitiesOf .function found,
        (table.symbol other).scope ≠ (table.symbol tag).scope

instance (table : Table) (found : List SymbolId) : Decidable (table.Clash found) :=
  inferInstanceAs (Decidable (_ ∨ _ ∨ (_ ∧ _) ∨ ∃ tag ∈ _, _))

/-- The entities that are left if none exclude each other: the object, or the functions, of which those that
are no templates come first, or the tag. -/
def merged (table : Table) (found : List SymbolId) : List SymbolId :=
  if table.entitiesOf .object found ≠ [] then table.entitiesOf .object found
  else if table.entitiesOf .function found ≠ [] then
    (table.entitiesOf .function found).filter (fun id => !(table.symbol id).isTemplate) ++
      (table.entitiesOf .function found).filter fun id => (table.symbol id).isTemplate
  else table.entitiesOf .tag found

theorem Clash.of_same (clash : table.Clash found) (same : ∀ id, id ∈ found ↔ id ∈ found') :
    table.Clash found' := by
  have hperm : ∀ kind, (table.entitiesOf kind found).Perm (table.entitiesOf kind found') :=
    perm_entitiesOf same
  have hsome : ∀ kind, table.entitiesOf kind found ≠ [] → table.entitiesOf kind found' ≠ [] :=
    fun kind some none => some (none ▸ hperm kind).eq_nil
  rcases clash with tags | objects | mixed | ⟨tag, isTag, other, member, apart⟩
  · exact .inl ((hperm .tag).length_eq ▸ tags)
  · exact .inr (.inl ((hperm .object).length_eq ▸ objects))
  · exact .inr (.inr (.inl ⟨hsome _ mixed.1, hsome _ mixed.2⟩))
  · exact .inr (.inr (.inr ⟨tag, (hperm .tag).mem_iff.mp isTag, other,
      ((hperm .object).append (hperm .function)).mem_iff.mp member, apart⟩))

theorem perm_merged (same : ∀ id, id ∈ found ↔ id ∈ found') :
    (table.merged found).Perm (table.merged found') := by
  have hperm : ∀ kind, (table.entitiesOf kind found).Perm (table.entitiesOf kind found') :=
    perm_entitiesOf same
  have hnone : ∀ kind, table.entitiesOf kind found = [] ↔ table.entitiesOf kind found' = [] :=
    fun kind => ⟨fun none => (none ▸ hperm kind).symm.eq_nil, fun none => (none ▸ hperm kind).eq_nil⟩
  simp only [merged, ne_eq, hnone]
  split
  · exact hperm .object
  · split
    · exact ((hperm .function).filter _).append ((hperm .function).filter _)
    · exact hperm .tag

/-! ## The entities of a level -/

/-- One declaration is kept for each entity. -/
theorem snd_eraseDupsBy_canonical (table : Table) (found : List SymbolId) :
    ((found.map fun id => (id, table.canonical id)).eraseDupsBy fun a b => a.2 == b.2).map (·.2) =
      (found.map table.canonical).eraseDups := by
  have hkeys := map_eraseDupsBy_key (·.2) (found.map fun id => (id, table.canonical id))
  rwa [List.map_map, show (·.2) ∘ (fun id => (id, table.canonical id)) = table.canonical from rfl] at hkeys

/-- What is visible are the entities that no friend stands for, each once. -/
theorem fst_visibleEntities (table : Table) (found : List SymbolId) :
    (table.visibleEntities found).map (·.1) =
      (found.map table.canonical).eraseDups.filter fun entity => !(table.symbol entity).type.isFriend := by
  rw [← snd_eraseDupsBy_canonical, List.filter_map, visibleEntities, List.map_map]
  rfl

/-- The sorted declarations stand for the entities of each sort. -/
theorem fst_classify (table : Table) (found : List SymbolId) :
    (table.classify found).tags.map (·.1) = table.entitiesOf .tag found ∧
      (table.classify found).objects.map (·.1) = table.entitiesOf .object found ∧
      (table.classify found).functions.map (·.1) =
        (table.entitiesOf .function found).filter (fun id => !(table.symbol id).isTemplate) ∧
      (table.classify found).templates.map (·.1) =
        (table.entitiesOf .function found).filter fun id => (table.symbol id).isTemplate := by
  have hsorted : ∀ kind, ((table.visibleEntities found).filter fun pair => table.declClass pair.1 == kind).map
      (·.1) = table.entitiesOf kind found := by
    intro kind
    have hvisible := congrArg (List.filter fun id => table.declClass id == kind)
      (table.fst_visibleEntities found)
    rw [List.filter_map, List.filter_filter] at hvisible
    refine hvisible.trans (List.filter_congr fun entity _ => ?_)
    rw [Bool.and_comm]
  have hfunctions : ∀ sort : SymbolId → Bool,
      (((table.visibleEntities found).filter fun pair => table.declClass pair.1 == .function).filter
          fun pair => sort pair.1).map (·.1) = (table.entitiesOf .function found).filter sort := by
    intro sort
    rw [← hsorted .function, List.filter_map]
    rfl
  exact ⟨hsorted .tag, hsorted .object, hfunctions fun id => !(table.symbol id).isTemplate,
    hfunctions fun id => (table.symbol id).isTemplate⟩

/-- Unless they exclude each other, the entities come to the object, or the functions, or the tag. -/
theorem entities_of_clear (clear : (table.classify found).isAmbiguous = false) :
    table.entities found = table.merged found := by
  obtain ⟨htags, hobjects, hfunctions, htemplates⟩ := table.fst_classify found
  have hnone : (table.classify found).functions.map (·.1) ++ (table.classify found).templates.map (·.1) = [] ↔
      table.entitiesOf .function found = [] := by
    have hperm := List.perm_append_comm.trans (List.filter_append_perm
      (fun id => (table.symbol id).isTemplate) (table.entitiesOf .function found))
    rw [hfunctions, htemplates]
    exact ⟨fun none => (none ▸ hperm).symm.eq_nil, fun none => by rw [none]; rfl⟩
  simp only [Candidates.isAmbiguous, Bool.or_eq_false_iff, decide_eq_false_iff_not, Nat.not_lt] at clear
  obtain ⟨⟨⟨hsingleTag, hsingleObject⟩, -⟩, -⟩ := clear
  unfold entities Candidates.entities merged
  cases hlist : (table.classify found).objects with
  | cons object rest =>
      have hrest : rest = [] := by
        rw [hlist, List.length_cons] at hsingleObject
        exact List.length_eq_zero_iff.mp (by omega)
      rw [← hobjects, hlist, hrest, List.map_cons, List.map_nil, if_pos (List.cons_ne_nil _ _)]
  | nil =>
      rw [← hobjects, hlist, List.map_nil, if_neg (not_not_intro rfl)]
      dsimp only
      split
      · rename_i some
        rw [Candidates.select_of_ne_nil (mt hnone.mp some), hfunctions, htemplates]
      · rename_i none
        rw [Candidates.select_of_nil hlist (hnone.mpr (not_not.mp none)) hsingleTag, htags]

/-! ## Declarations in the scopes of their entities -/

/-- Each declaration stands in the scope of the entity that it stands for. -/
def AtHome (table : Table) (found : List SymbolId) : Prop :=
  ∀ id ∈ found, (table.symbol id).scope = (table.symbol (table.canonical id)).scope

/-- Every entity counts as declared in its own scope. -/
theorem visibleEntities_of_home (home : table.AtHome found) : table.visibleEntities found =
    ((found.map table.canonical).eraseDups.filter fun entity => !(table.symbol entity).type.isFriend).map
      fun entity => (entity, (table.symbol entity).scope) := by
  rw [← snd_eraseDupsBy_canonical, List.filter_map, List.map_map, visibleEntities]
  refine List.map_congr_left fun pair member => Prod.ext rfl ?_
  obtain ⟨id, hid, rfl⟩ := List.mem_map.mp (mem_of_mem_eraseDupsBy (List.mem_filter.mp member).1)
  -- A function template counts as declared in its own scope anyway.
  show table.declaredIn id (table.canonical id) = (table.symbol (table.canonical id)).scope
  unfold declaredIn
  split
  · rfl
  · exact home id hid

theorem mem_visibleEntities_of_home (home : table.AtHome found) {pair : SymbolId × Option SymbolId} :
    pair ∈ table.visibleEntities found ↔
      pair.1 ∈ table.entitiesOf (table.declClass pair.1) found ∧ pair.2 = (table.symbol pair.1).scope := by
  rw [visibleEntities_of_home home, List.mem_map]
  simp only [entitiesOf, List.mem_filter, beq_self_eq_true, Bool.and_true]
  constructor
  · rintro ⟨entity, member, rfl⟩
    exact ⟨member, rfl⟩
  · rintro ⟨member, scope⟩
    exact ⟨pair.1, member, Prod.ext rfl scope.symm⟩

/-- Entities that exclude each other clash. -/
theorem Clash.of_excludes (home : table.AtHome found) {a b : SymbolId × Option SymbolId}
    (ha : a ∈ table.visibleEntities found) (hb : b ∈ table.visibleEntities found) (differ : a.1 ≠ b.1)
    (excludes : table.Excludes a b) : table.Clash found := by
  obtain ⟨hseenA, hscopeA⟩ := (mem_visibleEntities_of_home home).mp ha
  obtain ⟨hseenB, hscopeB⟩ := (mem_visibleEntities_of_home home).mp hb
  cases hclassA : table.declClass a.1 <;> cases hclassB : table.declClass b.1 <;>
    simp only [Excludes, hclassA, hclassB] at excludes <;> rw [hclassA] at hseenA <;>
      rw [hclassB] at hseenB
  case tag.tag => exact .inl (one_lt_length_of_mem hseenA hseenB differ)
  case object.object => exact .inr (.inl (one_lt_length_of_mem hseenA hseenB differ))
  case object.function =>
    exact .inr (.inr (.inl ⟨List.ne_nil_of_mem hseenA, List.ne_nil_of_mem hseenB⟩))
  case function.object =>
    exact .inr (.inr (.inl ⟨List.ne_nil_of_mem hseenB, List.ne_nil_of_mem hseenA⟩))
  case tag.object =>
    exact .inr (.inr (.inr ⟨_, hseenA, _, List.mem_append_left _ hseenB, hscopeA ▸ hscopeB ▸ Ne.symm excludes⟩))
  case tag.function =>
    exact .inr (.inr (.inr ⟨_, hseenA, _, List.mem_append_right _ hseenB, hscopeA ▸ hscopeB ▸ Ne.symm excludes⟩))
  case object.tag =>
    exact .inr (.inr (.inr ⟨_, hseenB, _, List.mem_append_left _ hseenA, hscopeA ▸ hscopeB ▸ excludes⟩))
  case function.tag =>
    exact .inr (.inr (.inr ⟨_, hseenB, _, List.mem_append_right _ hseenA, hscopeA ▸ hscopeB ▸ excludes⟩))

/-- Entities that clash exclude each other. -/
theorem Clash.exists_excludes (clash : table.Clash found) :
    ∃ a b, a ≠ b ∧ (∃ kind, a ∈ table.entitiesOf kind found) ∧ (∃ kind, b ∈ table.entitiesOf kind found) ∧
      table.Excludes (a, (table.symbol a).scope) (b, (table.symbol b).scope) := by
  have hclass : ∀ {entity kind}, entity ∈ table.entitiesOf kind found → table.declClass entity = kind :=
    fun member => (mem_entitiesOf.mp member).2.2
  rcases clash with tags | objects | ⟨object, function⟩ | ⟨tag, htag, other, member, apart⟩
  · obtain ⟨a, ha, b, hb, differ⟩ := exists_related_of_pairwise (table.nodup_entitiesOf .tag found) tags
    exact ⟨a, b, differ, ⟨_, ha⟩, ⟨_, hb⟩, by rw [Excludes, hclass ha, hclass hb]; trivial⟩
  · obtain ⟨a, ha, b, hb, differ⟩ := exists_related_of_pairwise (table.nodup_entitiesOf .object found) objects
    exact ⟨a, b, differ, ⟨_, ha⟩, ⟨_, hb⟩, by rw [Excludes, hclass ha, hclass hb]; trivial⟩
  · obtain ⟨a, ha⟩ := List.exists_mem_of_ne_nil _ object
    obtain ⟨b, hb⟩ := List.exists_mem_of_ne_nil _ function
    exact ⟨a, b, ne_of_declClass (hclass ha) (hclass hb) (by decide), ⟨_, ha⟩, ⟨_, hb⟩,
      by rw [Excludes, hclass ha, hclass hb]; trivial⟩
  · have hapart := Ne.symm apart
    rcases List.mem_append.mp member with object | function
    · exact ⟨tag, other, ne_of_declClass (hclass htag) (hclass object) (by decide), ⟨_, htag⟩, ⟨_, object⟩,
        by rw [Excludes, hclass htag, hclass object]; exact hapart⟩
    · exact ⟨tag, other, ne_of_declClass (hclass htag) (hclass function) (by decide), ⟨_, htag⟩,
        ⟨_, function⟩, by rw [Excludes, hclass htag, hclass function]; exact hapart⟩

theorem isAmbiguous_of_home (home : table.AtHome found) :
    (table.classify found).isAmbiguous = true ↔ table.Clash found := by
  have hvisible : ∀ {entity}, (∃ kind, entity ∈ table.entitiesOf kind found) →
      (entity, (table.symbol entity).scope) ∈ table.visibleEntities found := by
    rintro entity ⟨kind, member⟩
    refine (mem_visibleEntities_of_home home).mpr ⟨?_, rfl⟩
    rwa [show table.declClass entity = kind from (mem_entitiesOf.mp member).2.2]
  rw [isAmbiguous_iff]
  constructor
  · rintro ⟨a, ha, b, hb, differ, excludes⟩
    exact .of_excludes home ha hb differ excludes
  · intro clash
    obtain ⟨a, b, differ, ha, hb, excludes⟩ := clash.exists_excludes
    exact ⟨_, hvisible ha, _, hvisible hb, differ, excludes⟩

theorem entities_of_home (home : table.AtHome found) (clear : ¬ table.Clash found) :
    table.entities found = table.merged found :=
  entities_of_clear (Bool.eq_false_of_not_eq_true (mt (isAmbiguous_of_home home).mp clear))

end Table

/-! ## One level -/

namespace Search

open Analysis Table

variable {table : Table} {query : Query} {found : List SymbolId}

/-- Merging and hiding at one level, for a name that is looked up without argument types.  Let each
declaration that was found stand in the scope of its entity.  If the entities exclude each other, then the name
is ambiguous.  Otherwise what the level amounts to is the object if there is one, or else the functions, or
else the tag.  Neither the order nor the multiplicity of the declarations matters, but for the order of the
functions. -/
theorem collectSymbol_merges (exact : query.IsExact) (home : table.AtHome found) (trail : Trail)
    (name : Name) :
    (collectSymbol query name found trail table = .error (.error (.ambiguous name)) table ↔
      table.Clash found) ∧
    (¬ table.Clash found →
      collectSymbol query name found trail table = .ok (table.merged found, trail) table) ∧
    ∀ found', (∀ id, id ∈ found ↔ id ∈ found') →
      (collectSymbol query name found' trail table = .error (.error (.ambiguous name)) table ↔
        table.Clash found) ∧
      (¬ table.Clash found → ∃ ids, ids.Perm (table.merged found) ∧
        collectSymbol query name found' trail table = .ok (ids, trail) table) := by
  have hclear : ∀ {found}, table.AtHome found → ¬ table.Clash found →
      collectSymbol query name found trail table = .ok (table.merged found, trail) table := by
    intro found home clear
    have hends := ends_collectSymbol exact table trail name found
    rw [settle, if_neg (mt (isAmbiguous_of_home home).mp clear), entities_of_home home clear] at hends
    exact hends
  have hclash : ∀ {found}, table.AtHome found →
      (collectSymbol query name found trail table = .error (.error (.ambiguous name)) table ↔
        table.Clash found) := by
    intro found home
    constructor
    · intro failed
      by_contra clear
      cases failed.symm.trans (hclear home clear)
    · intro clash
      have hends := ends_collectSymbol exact table trail name found
      rw [settle, if_pos ((isAmbiguous_of_home home).mpr clash)] at hends
      exact hends
  refine ⟨hclash home, hclear home, fun found' same => ?_⟩
  have home' : table.AtHome found' := fun id member => home id ((same id).mpr member)
  have hsame : table.Clash found' ↔ table.Clash found :=
    ⟨fun clash => clash.of_same fun id => (same id).symm, fun clash => clash.of_same same⟩
  refine ⟨(hclash home').trans hsame, fun clear => ⟨table.merged found', (perm_merged same).symm, ?_⟩⟩
  exact hclear home' (mt hsame.mp clear)

/-- A struct and two functions, all called 17: the struct and one function have a forward declaration, and the
other function is the one of a template, which comes first.  There is a friend of the name as well, and a struct
of the name in a namespace. -/
def hiddenStructTable : Table :=
  finalTable (Table.new {}) do
    let forward := { specifiers := { isForward := true } }
    let namedStruct := createClass ⟨17⟩ .struct
    let namedFunction := createFunction ⟨17⟩ .function
    let declared ← namedStruct
    addFlags declared forward
    addSymbol ⟨0⟩ declared
    let template ← createTemplate ⟨17⟩
    let parameter ← createTemplateParameter ⟨18⟩ .typeName
    addTemplateParameter template parameter
    let templated ← namedFunction
    discard (addParameterType templated (.ofSymbol parameter))
    addSymbol template templated
    addSymbol ⟨0⟩ template
    let prototype ← namedFunction
    addFlags prototype forward
    addSymbol ⟨0⟩ prototype
    let function ← namedFunction
    addSymbol ⟨0⟩ function
    let struct ← namedStruct
    addSymbol ⟨0⟩ struct
    let friend ← namedFunction
    discard (addParameterType friend (.ofKind .int))
    addFlags friend { specifiers := { isFriend := true } }
    addSymbol ⟨0⟩ friend
    let nspace ← createContainer ⟨19⟩ (.ofKind .nspace)
    addSymbol ⟨0⟩ nspace
    let other ← namedStruct
    addSymbol nspace other

/-- The functions of the global scope hide its struct, but not the one of the namespace. -/
theorem functions_hide_struct :
    let found := hiddenStructTable.members ⟨0⟩ ⟨17⟩
    let query := hiddenStructTable.query ⟨17⟩ {}
    query.IsExact ∧ hiddenStructTable.AtHome found ∧
      collectSymbol query ⟨17⟩ found {} hiddenStructTable =
        .ok ([⟨7⟩, ⟨2⟩], {}) hiddenStructTable ∧
      hiddenStructTable.AtHome (⟨12⟩ :: found) ∧
      collectSymbol query ⟨17⟩ (⟨12⟩ :: found) {} hiddenStructTable =
        .error (.error (.ambiguous ⟨17⟩)) hiddenStructTable := by
  intro found query
  have hexact : query.IsExact := ⟨rfl, rfl⟩
  have hhome : hiddenStructTable.AtHome found := by unfold AtHome; decide +kernel
  have hhome' : hiddenStructTable.AtHome (⟨12⟩ :: found) := by unfold AtHome; decide +kernel
  have hmerged : hiddenStructTable.merged found = [⟨7⟩, ⟨2⟩] := by decide +kernel
  refine ⟨hexact, hhome, ?_, hhome', ?_⟩
  · rw [← hmerged]
    exact (collectSymbol_merges hexact hhome {} ⟨17⟩).2.1 (by decide +kernel)
  · exact (collectSymbol_merges hexact hhome' {} ⟨17⟩).1.mpr (by decide +kernel)

end Search

end NameBinding
