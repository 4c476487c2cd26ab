import NameBinding.Proofs.Lookup.Outcome

/-!
# Merging declarations found in another order

Which entities a level finds does not depend on the order of its declarations, but the scope in which an
entity counts as declared does: it is that of the first declaration that names the entity.  This scope only
matters where a tag meets something else.

* `Table.Steady`: the order does not matter for these declarations, because there are no tags, or nothing
  but tags, or each entity counts as declared in one scope.
* `Candidates.Alike`: the same entities of each sort, among which a tag clashes or not.

The main statement is `settle_perm`: steady declarations amount to the same entities in any order.
-/

namespace NameBinding

/-- Everything is kept or the same as something that is kept. -/
theorem exists_mem_eraseDupsBy {α : Type} {same : α → α → Bool} (refl : ∀ a, same a a = true)
    {list : List α} {element : α} (member : element ∈ list) :
    ∃ kept ∈ list.eraseDupsBy same, same element kept = true := by
  induction hlength : list.length using Nat.strongRecOn generalizing list with
  | _ length ih =>
      cases list with
      | nil => exact absurd member List.not_mem_nil
      | cons first rest =>
          rw [List.eraseDupsBy_cons]
          by_cases hsame : same element first = true
          · exact ⟨first, List.mem_cons_self, hsame⟩
          · -- It is not erased together with the copies of the first element.
            have hother : element ∈ rest.filter fun other => decide (same other first = false) := by
              rcases List.mem_cons.mp member with rfl | later
              · exact absurd (refl element) hsame
              · exact List.mem_filter.mpr ⟨later, by simpa using hsame⟩
            have hle := List.length_filter_le (fun other => decide (same other first = false)) rest
            simp only [List.length_cons] at hlength
            obtain ⟨kept, hkept, hagrees⟩ := ih _ (by omega) hother rfl
            exact ⟨kept, List.mem_cons_of_mem first hkept, hagrees⟩

/-! ## Candidates -/

namespace Candidates

/-- The candidates are the same entities of each sort; as long as it matters, they agree on whether a tag
clashes with something else. -/
structure Alike (candidates other : Candidates) : Prop where
  tags : (candidates.tags.map (·.1)).Perm (other.tags.map (·.1))
  objects : (candidates.objects.map (·.1)).Perm (other.objects.map (·.1))
  functions : (candidates.functions.map (·.1)).Perm (other.functions.map (·.1))
  templates : (candidates.templates.map (·.1)).Perm (other.templates.map (·.1))
  clash : candidates.tags.length ≤ 1 → candidates.objects.length ≤ 1 →
    other.clashesWithTag = candidates.clashesWithTag

variable {candidates other : Candidates}

/-- With one tag and one object at most, the order does not matter for a clash. -/
theorem clashesWithTag_perm (tags : candidates.tags.Perm other.tags)
    (objects : candidates.objects.Perm other.objects)
    (functions : candidates.functions.Perm other.functions)
    (templates : candidates.templates.Perm other.templates) (singleTag : candidates.tags.length ≤ 1)
    (singleObject : candidates.objects.length ≤ 1) :
    other.clashesWithTag = candidates.clashesWithTag := by
  have heq : ∀ {list list' : List (SymbolId × Option SymbolId)}, list.Perm list' → list.length ≤ 1 →
      list' = list := by
    intro list list' perm short
    match list with
    | [] => exact perm.symm.eq_nil
    | [_] => exact List.perm_singleton.mp perm.symm
  have hscopes : candidates.hidingScopes.Perm other.hidingScopes := by
    unfold hidingScopes
    rw [heq objects singleObject]
    exact (((List.Perm.refl _).append functions).append templates).map _
  unfold clashesWithTag
  rw [heq tags singleTag]
  split
  · rfl
  · rw [Bool.eq_iff_iff, List.any_eq_true, List.any_eq_true]
    simp only [hscopes.mem_iff]

theorem select_of_ne_nil {instances : List SymbolId}
    (some : candidates.functions.map (·.1) ++ instances ≠ []) :
    candidates.select instances = candidates.functions.map (·.1) ++ instances := by
  simp [select, some]

/-- Nothing hides a tag that is found alone. -/
theorem select_of_nil (noObject : candidates.objects = [])
    (noFunction : candidates.functions.map (·.1) ++ candidates.templates.map (·.1) = [])
    (singleTag : candidates.tags.length ≤ 1) :
    candidates.select (candidates.templates.map (·.1)) = candidates.tags.map (·.1) := by
  obtain ⟨hfunctions, htemplates⟩ := List.append_eq_nil_iff.mp noFunction
  have hhides : candidates.hidesTag = false := by
    unfold hidesTag hidingScopes
    rw [noObject, List.map_eq_nil_iff.mp hfunctions, List.map_eq_nil_iff.mp htemplates]
    cases candidates.tags <;> rfl
  unfold select
  rw [noFunction, hhides, List.take_of_length_le singleTag]
  rfl

namespace Alike

variable (alike : candidates.Alike other)

include alike

theorem length_tags : other.tags.length = candidates.tags.length := by
  simpa using alike.tags.length_eq.symm

theorem length_objects : other.objects.length = candidates.objects.length := by
  simpa using alike.objects.length_eq.symm

theorem isAmbiguous_eq : other.isAmbiguous = candidates.isAmbiguous := by
  have hempty : ∀ {list list' : List (SymbolId × Option SymbolId)},
      (list.map (·.1)).Perm (list'.map (·.1)) → list'.isEmpty = list.isEmpty := by
    intro list list' perm
    have hlength := perm.length_eq
    cases list <;> cases list' <;> simp_all
  unfold isAmbiguous
  rw [alike.length_tags, alike.length_objects, hempty alike.objects, hempty alike.functions,
    hempty alike.templates]
  by_cases htags : candidates.tags.length ≤ 1
  · by_cases hobjects : candidates.objects.length ≤ 1
    · rw [alike.clash htags hobjects]
    · simp [Nat.lt_of_not_le hobjects]
  · simp [Nat.lt_of_not_le htags]

/-- Without objects, the functions and function templates are selected, or else the tag. -/
theorem perm_select (noObject : candidates.objects = []) (singleTag : candidates.tags.length ≤ 1) :
    (candidates.select (candidates.templates.map (·.1))).Perm
      (other.select (other.templates.map (·.1))) := by
  have hnoObject : other.objects = [] := by
    have hperm := alike.objects
    rw [noObject] at hperm
    exact List.map_eq_nil_iff.mp hperm.symm.eq_nil
  have hfunctions := alike.functions.append alike.templates
  by_cases none : candidates.functions.map (·.1) ++ candidates.templates.map (·.1) = []
  · rw [none] at hfunctions
    rw [select_of_nil noObject none singleTag,
      select_of_nil hnoObject hfunctions.symm.eq_nil (alike.length_tags ▸ singleTag)]
    exact alike.tags
  · have hsome : other.functions.map (·.1) ++ other.templates.map (·.1) ≠ [] := fun none' =>
      none (none' ▸ hfunctions).eq_nil
    rw [select_of_ne_nil none, select_of_ne_nil hsome]
    exact hfunctions

theorem perm_entities (clear : candidates.isAmbiguous = false) :
    candidates.entities.Perm other.entities := by
  simp only [isAmbiguous, Bool.or_eq_false_iff, decide_eq_false_iff_not, Nat.not_lt] at clear
  obtain ⟨⟨⟨hsingleTag, hsingleObject⟩, -⟩, -⟩ := clear
  have hobjects := alike.objects
  unfold entities
  cases hlist : candidates.objects with
  | nil =>
      have hselect := alike.perm_select hlist hsingleTag
      rw [hlist] at hobjects
      rw [List.map_eq_nil_iff.mp hobjects.symm.eq_nil]
      exact hselect
  | cons object rest =>
      have hrest : rest = [] := by
        rw [hlist] at hsingleObject
        exact List.length_eq_zero_iff.mp (by simpa using hsingleObject)
      rw [hlist, hrest] at hobjects
      have hsame : other.objects.map (·.1) = [object.1] := List.perm_singleton.mp hobjects.symm
      cases hother : other.objects with
      | nil => simp [hother] at hsame
      | cons object' rest' =>
          rw [hother] at hsame
          have hfirst : object'.1 = object.1 := (List.cons.inj hsame).1
          dsimp only
          rw [hfirst]

end Alike

end Candidates

/-! ## Declarations found in another order -/

namespace Table

variable {table : Table} {found found' : List SymbolId} {id entity : SymbolId} {name : Name}

/-- The declarations that are no friends. -/
def seen (table : Table) (found : List SymbolId) : List SymbolId :=
  found.filter fun id => !(table.symbol (table.canonical id)).type.isFriend

/-- The order of the declarations does not matter: tags meet nothing but tags, or each entity counts as
declared in one scope, whichever of its declarations is found first. -/
def Steady (table : Table) (found : List SymbolId) : Prop :=
  (∀ a ∈ table.seen found, ∀ b ∈ table.seen found,
      table.declClass (table.canonical a) = .tag → table.declClass (table.canonical b) = .tag) ∨
    ∀ a ∈ table.seen found, ∀ b ∈ table.seen found, table.canonical a = table.canonical b →
      table.declaredIn a (table.canonical a) = table.declaredIn b (table.canonical b)

/-- The visible entities, each with the scope in which it counts as declared. -/
def visibleEntities (table : Table) (found : List SymbolId) : List (SymbolId × Option SymbolId) :=
  (((found.map fun id => (id, table.canonical id)).eraseDupsBy fun a b => a.2 == b.2).filter
    fun pair => !(table.symbol pair.2).type.isFriend).map fun pair =>
      (pair.2, table.declaredIn pair.1 pair.2)

/-- An entity counts as declared where one of its declarations is. -/
theorem exists_of_mem_visibleEntities {pair : SymbolId × Option SymbolId}
    (member : pair ∈ table.visibleEntities found) :
    ∃ id ∈ table.seen found, pair = (table.canonical id, table.declaredIn id (table.canonical id)) := by
  obtain ⟨kept, hkept, rfl⟩ := List.mem_map.mp member
  obtain ⟨hlisted, hvisible⟩ := List.mem_filter.mp hkept
  obtain ⟨id, hid, rfl⟩ := List.mem_map.mp (mem_of_mem_eraseDupsBy hlisted)
  exact ⟨id, List.mem_filter.mpr ⟨hid, hvisible⟩, rfl⟩

/-- What is seen counts, though perhaps as declared elsewhere. -/
theorem exists_visibleEntity (member : id ∈ table.seen found) :
    ∃ first ∈ table.seen found, table.canonical first = table.canonical id ∧
      (table.canonical first, table.declaredIn first (table.canonical first)) ∈
        table.visibleEntities found := by
  obtain ⟨hfound, hvisible⟩ := List.mem_filter.mp member
  have hlisted : (id, table.canonical id) ∈ found.map fun id => (id, table.canonical id) :=
    List.mem_map.mpr ⟨id, hfound, rfl⟩
  have hfirst : ∃ kept ∈ (found.map fun id => (id, table.canonical id)).eraseDupsBy fun a b => a.2 == b.2,
      (table.canonical id == kept.2) = true :=
    exists_mem_eraseDupsBy (fun pair => beq_self_eq_true pair.2) hlisted
  obtain ⟨kept, hkept, hsame⟩ := hfirst
  obtain ⟨first, hfirst, rfl⟩ := List.mem_map.mp (mem_of_mem_eraseDupsBy hkept)
  have hcanonical : table.canonical id = table.canonical first := eq_of_beq hsame
  rw [hcanonical] at hvisible
  exact ⟨first, List.mem_filter.mpr ⟨hfirst, hvisible⟩, hcanonical.symm,
    List.mem_map.mpr ⟨_, List.mem_filter.mpr ⟨hkept, hvisible⟩, rfl⟩⟩

theorem mem_map_visibleEntities : entity ∈ (table.visibleEntities found).map (·.1) ↔
    ∃ id ∈ table.seen found, table.canonical id = entity := by
  constructor
  · intro member
    obtain ⟨pair, hpair, rfl⟩ := List.mem_map.mp member
    obtain ⟨id, hid, rfl⟩ := exists_of_mem_visibleEntities hpair
    exact ⟨id, hid, rfl⟩
  · rintro ⟨id, hid, rfl⟩
    obtain ⟨first, -, hsame, hmember⟩ := exists_visibleEntity hid
    exact List.mem_map.mpr ⟨_, hmember, hsame⟩

theorem nodup_visibleEntities (table : Table) (found : List SymbolId) :
    ((table.visibleEntities found).map (·.1)).Nodup :=
  table.nodup_visible found

theorem mem_seen_of_perm (perm : found.Perm found') :
    id ∈ table.seen found ↔ id ∈ table.seen found' :=
  (perm.filter _).mem_iff

/-- In any order the same entities are found. -/
theorem perm_map_visibleEntities (perm : found.Perm found') :
    ((table.visibleEntities found).map (·.1)).Perm ((table.visibleEntities found').map (·.1)) := by
  refine (List.perm_ext_iff_of_nodup (table.nodup_visibleEntities found)
    (table.nodup_visibleEntities found')).mpr fun entity => ?_
  simp only [mem_map_visibleEntities, mem_seen_of_perm perm]

/-- If each entity counts as declared in one scope, these scopes are the same in any order. -/
theorem perm_visibleEntities (perm : found.Perm found')
    (settled : ∀ a ∈ table.seen found, ∀ b ∈ table.seen found, table.canonical a = table.canonical b →
      table.declaredIn a (table.canonical a) = table.declaredIn b (table.canonical b)) :
    (table.visibleEntities found).Perm (table.visibleEntities found') := by
  have hsub : ∀ {list list' : List SymbolId}, (∀ id, id ∈ table.seen list ↔ id ∈ table.seen list') →
      (∀ id ∈ table.seen list, id ∈ table.seen found) →
      ∀ pair ∈ table.visibleEntities list, pair ∈ table.visibleEntities list' := by
    intro list list' same among pair member
    obtain ⟨id, hid, rfl⟩ := exists_of_mem_visibleEntities member
    -- Another declaration may come first in the other order, but it has the same scope.
    obtain ⟨first, hfirst, hcanonical, hmember⟩ := exists_visibleEntity ((same id).mp hid)
    rwa [settled first (among first ((same first).mpr hfirst)) id (among id hid) hcanonical, hcanonical]
      at hmember
  refine (List.perm_ext_iff_of_nodup (List.Nodup.of_map _ (table.nodup_visibleEntities found))
    (List.Nodup.of_map _ (table.nodup_visibleEntities found'))).mpr fun pair => ⟨?_, ?_⟩
  · exact hsub (fun id => mem_seen_of_perm perm) (fun id seen => seen) pair
  · exact hsub (fun id => (mem_seen_of_perm perm).symm) (fun id => (mem_seen_of_perm perm).mpr) pair

/-- Where tags meet nothing but tags, nothing clashes with a tag. -/
theorem clashesWithTag_of_tags
    (tags : ∀ a ∈ table.seen found, ∀ b ∈ table.seen found,
      table.declClass (table.canonical a) = .tag → table.declClass (table.canonical b) = .tag) :
    (table.classify found).clashesWithTag = false := by
  unfold Candidates.clashesWithTag
  split
  · rfl
  · rename_i tag rest hlist
    have htag : tag ∈ (table.classify found).tags := hlist ▸ List.mem_cons_self
    obtain ⟨a, ha, rfl⟩ := exists_of_mem_visibleEntities (List.mem_filter.mp htag).1
    have hclass : ∀ {pair}, pair ∈ table.visibleEntities found → table.declClass pair.1 = .tag := by
      intro pair member
      obtain ⟨b, hb, rfl⟩ := exists_of_mem_visibleEntities member
      exact tags a ha b hb (declClass_of_mem_classify.1 htag)
    rw [List.any_eq_false]
    intro scope member
    obtain ⟨pair, hpair, rfl⟩ := List.mem_map.mp member
    simp only [List.append_assoc, List.mem_append] at hpair
    rcases hpair with object | function | template
    · have hobject := List.mem_of_mem_take object
      exact absurd ((hclass (List.mem_filter.mp hobject).1).symm.trans
        (declClass_of_mem_classify.2.1 hobject)) (by decide)
    · have hvisible := (List.mem_filter.mp (List.mem_filter.mp function).1).1
      exact absurd ((hclass hvisible).symm.trans (declClass_of_mem_classify.2.2.1 function)) (by decide)
    · have hvisible := (List.mem_filter.mp (List.mem_filter.mp template).1).1
      exact absurd ((hclass hvisible).symm.trans (declClass_of_mem_classify.2.2.2 template)) (by decide)

/-- Steady declarations are sorted into the same candidates in any order. -/
theorem classify_perm (perm : found.Perm found') (steady : table.Steady found) :
    (table.classify found).Alike (table.classify found') := by
  have hentities : ((table.visibleEntities found).map (·.1)).Perm
      ((table.visibleEntities found').map (·.1)) := perm_map_visibleEntities perm
  have hsorted : ∀ sort : SymbolId → Bool,
      (((table.visibleEntities found).filter fun pair => sort pair.1).map (·.1)).Perm
        (((table.visibleEntities found').filter fun pair => sort pair.1).map (·.1)) := by
    intro sort
    have hfilter := hentities.filter sort
    rwa [List.filter_map, List.filter_map] at hfilter
  have hfunctions : ∀ sort : SymbolId → Bool,
      ((((table.visibleEntities found).filter fun pair => table.declClass pair.1 == .function).filter
          fun pair => sort pair.1).map (·.1)).Perm
        ((((table.visibleEntities found').filter fun pair => table.declClass pair.1 == .function).filter
          fun pair => sort pair.1).map (·.1)) := by
    intro sort
    simpa only [List.filter_filter] using hsorted fun id => sort id && table.declClass id == .function
  refine ⟨hsorted fun id => table.declClass id == .tag, hsorted fun id => table.declClass id == .object,
    hfunctions fun id => !(table.symbol id).isTemplate, hfunctions fun id => (table.symbol id).isTemplate, ?_⟩
  intro hsingleTag hsingleObject
  rcases steady with tags | settled
  · rw [clashesWithTag_of_tags tags, clashesWithTag_of_tags fun a ha b hb =>
      tags a ((mem_seen_of_perm perm).mpr ha) b ((mem_seen_of_perm perm).mpr hb)]
  · have hperm := perm_visibleEntities perm settled
    exact Candidates.clashesWithTag_perm (hperm.filter _) (hperm.filter _) ((hperm.filter _).filter _)
      ((hperm.filter _).filter _) hsingleTag hsingleObject

/-- Steady declarations amount to the same in any order. -/
theorem settle_perm (perm : found.Perm found') (steady : table.Steady found) (name : Name) :
    EndAlike List.Perm (table.settle name found) (table.settle name found') := by
  have halike := classify_perm perm steady
  unfold settle
  rw [halike.isAmbiguous_eq]
  by_cases hambiguous : (table.classify found).isAmbiguous = true
  · rw [if_pos hambiguous, if_pos hambiguous]
    exact .error _
  · rw [if_neg hambiguous, if_neg hambiguous]
    exact .ok (halike.perm_entities (by simpa using hambiguous))

end Table

end NameBinding
