import NameBinding.Proofs.Lookup.Merging
import NameBinding.Proofs.Lookup.Nominated

/-!
# Entities that exclude each other

The declarations of a name at one level are ambiguous because of two entities among them.

* `Table.Excludes`: two entities that cannot both be meant by one name.
* `mem_visibleEntities`: an entity counts as declared where its first declaration is.
* `isAmbiguous_iff`: declarations are ambiguous if two of their entities exclude each other.

The main statement is `lookup_here_ambiguous_iff`, for a qualified lookup that searches one scope only.
-/

namespace NameBinding

theorem one_lt_length_of_mem {α : Type} {list : List α} {a b : α} (first : a ∈ list) (second : b ∈ list)
    (differ : a ≠ b) : 1 < list.length := by
  by_contra few
  match list with
  | [] => exact absurd first List.not_mem_nil
  | [_] => exact differ ((List.mem_singleton.mp first).trans (List.mem_singleton.mp second).symm)
  | _ :: _ :: rest => exact few (by simp)

/-- Two of several elements that are pairwise related. -/
theorem exists_related_of_pairwise {α : Type} {related : α → α → Prop} {list : List α}
    (pairwise : list.Pairwise related) (several : 1 < list.length) : ∃ a ∈ list, ∃ b ∈ list, related a b := by
  match list with
  | [] => simp at several
  | [_] => simp at several
  | a :: b :: rest => exact ⟨a, by simp, b, by simp, (List.pairwise_cons.mp pairwise).1 b List.mem_cons_self⟩

/-- Of the elements with one key, the first one is kept. -/
theorem mem_eraseDupsBy_key {α β : Type} [BEq β] [LawfulBEq β] {key : α → β} {list : List α} {element : α} :
    element ∈ list.eraseDupsBy (fun a b => key a == key b) ↔
      list.find? (fun other => key other == key element) = some element := by
  induction hlength : list.length using Nat.strongRecOn generalizing list with
  | _ length ih =>
      cases list with
      | nil => simp
      | cons first rest =>
          have hle := List.length_filter_le (fun other => decide ((key other == key first) = false)) rest
          simp only [List.length_cons] at hlength
          rw [List.eraseDupsBy_cons, List.mem_cons, ih _ (by omega) rfl, List.find?_filter, List.find?_cons]
          by_cases hsame : key first = key element
          · -- The rest has no copies of the first element any more.
            have hnone : rest.find? (fun other => decide (decide ((key other == key first) = false) = true ∧
                (key other == key element) = true)) = none := by
              refine List.find?_eq_none.mpr fun other _ kept => ?_
              obtain ⟨differs, same⟩ := of_decide_eq_true kept
              rw [hsame, same] at differs
              cases differs
            rw [hnone, beq_iff_eq.mpr hsame]
            simp [eq_comm]
          · have hother : (fun other => decide (decide ((key other == key first) = false) = true ∧
                (key other == key element) = true)) = fun other => key other == key element := by
              funext other
              refine Bool.eq_iff_iff.mpr ⟨fun kept => (of_decide_eq_true kept).2, fun same => ?_⟩
              refine decide_eq_true ⟨decide_eq_true (beq_eq_false_iff_ne.mpr fun first => ?_), same⟩
              exact hsame (first.symm.trans (eq_of_beq same))
            rw [hother, beq_eq_false_iff_ne.mpr hsame]
            have hne : element ≠ first := fun same => hsame (same ▸ rfl)
            simp [hne]

namespace Table

variable {table : Table} {found : List SymbolId} {a b : SymbolId × Option SymbolId}

/-- Two entities, each with the scope in which it counts as declared, exclude each other under one name: two
tags, two objects, an object and a function, or a tag and something else from another scope. -/
def Excludes (table : Table) (a b : SymbolId × Option SymbolId) : Prop :=
  match table.declClass a.1, table.declClass b.1 with
  | .tag, .tag | .object, .object | .object, .function | .function, .object => True
  | .function, .function => False
  | _, _ => a.2 ≠ b.2

theorem Excludes.symm (excludes : table.Excludes a b) : table.Excludes b a := by
  unfold Excludes at excludes ⊢
  cases ha : table.declClass a.1 <;> cases hb : table.declClass b.1 <;> rw [ha, hb] at excludes <;>
    first | trivial | exact excludes.elim | exact Ne.symm excludes

theorem ne_of_declClass {a b : SymbolId} {kind other : DeclClass} (first : table.declClass a = kind)
    (second : table.declClass b = other) (differ : kind ≠ other) : a ≠ b := fun same =>
  differ (first.symm.trans (same ▸ second))

/-- An entity is visible unless it is a friend, and counts as declared where its first declaration is. -/
theorem mem_visibleEntities : a ∈ table.visibleEntities found ↔
    (table.symbol a.1).type.isFriend = false ∧
      ∃ id, found.find? (fun other => table.canonical other == a.1) = some id ∧
        table.declaredIn id a.1 = a.2 := by
  have hkept : ∀ id entity, (id, entity) ∈
      (found.map fun id => (id, table.canonical id)).eraseDupsBy (fun a b => a.2 == b.2) ↔
        found.find? (fun other => table.canonical other == entity) = some id := by
    intro id entity
    rw [mem_eraseDupsBy_key, List.find?_map, Option.map_eq_some_iff]
    constructor
    · rintro ⟨first, hfirst, hpair⟩
      cases hpair
      exact hfirst
    · intro first
      have hentity := List.find?_some first
      exact ⟨id, first, by rw [eq_of_beq hentity]⟩
  simp only [visibleEntities, List.mem_map, List.mem_filter, Prod.exists, hkept, Bool.not_eq_eq_eq_not,
    Bool.not_true]
  constructor
  · rintro ⟨id, entity, ⟨first, visible⟩, rfl⟩
    exact ⟨visible, id, first, rfl⟩
  · rintro ⟨visible, id, first, declared⟩
    exact ⟨id, a.1, ⟨first, visible⟩, Prod.ext rfl declared⟩

/-! ## Ambiguous declarations -/

theorem mem_tags : a ∈ (table.classify found).tags ↔
    a ∈ table.visibleEntities found ∧ table.declClass a.1 = .tag := by
  have htags : (table.classify found).tags =
      (table.visibleEntities found).filter fun pair => table.declClass pair.1 == .tag := rfl
  rw [htags, List.mem_filter, beq_iff_eq]

theorem mem_objects : a ∈ (table.classify found).objects ↔
    a ∈ table.visibleEntities found ∧ table.declClass a.1 = .object := by
  have hobjects : (table.classify found).objects =
      (table.visibleEntities found).filter fun pair => table.declClass pair.1 == .object := rfl
  rw [hobjects, List.mem_filter, beq_iff_eq]

theorem mem_functions : a ∈ (table.classify found).functions ∨ a ∈ (table.classify found).templates ↔
    a ∈ table.visibleEntities found ∧ table.declClass a.1 = .function := by
  have hfunctions : (table.classify found).functions =
      ((table.visibleEntities found).filter fun pair => table.declClass pair.1 == .function).filter
        fun pair => !(table.symbol pair.1).isTemplate := rfl
  have htemplates : (table.classify found).templates =
      ((table.visibleEntities found).filter fun pair => table.declClass pair.1 == .function).filter
        fun pair => (table.symbol pair.1).isTemplate := rfl
  rw [hfunctions, htemplates, List.mem_filter, List.mem_filter, List.mem_filter, beq_iff_eq]
  cases (table.symbol a.1).isTemplate <;> simp

/-- A tag clashes with something else from another scope. -/
theorem isAmbiguous_of_tag (tag : a ∈ (table.classify found).tags)
    (other : b ∈ table.visibleEntities found) (noTag : table.declClass b.1 ≠ .tag) (apart : a.2 ≠ b.2) :
    (table.classify found).isAmbiguous = true := by
  unfold Candidates.isAmbiguous
  by_cases htags : 1 < (table.classify found).tags.length
  · simp [htags]
  by_cases hobjects : 1 < (table.classify found).objects.length
  · simp [hobjects]
  have honly : (table.classify found).tags = [a] := by
    cases hlist : (table.classify found).tags with
    | nil => exact absurd (hlist ▸ tag) List.not_mem_nil
    | cons first rest =>
        have hrest : rest = [] := by
          rw [hlist, List.length_cons] at htags
          exact List.length_eq_zero_iff.mp (by omega)
        rw [hlist, hrest] at tag
        rw [hrest, List.mem_singleton.mp tag]
  have hhides : b.2 ∈ (table.classify found).hidingScopes := by
    refine List.mem_map_of_mem ?_
    rw [List.append_assoc, List.mem_append, List.mem_append]
    cases hclass : table.declClass b.1 with
    | tag => exact absurd hclass noTag
    | object =>
        left
        have hmember := mem_objects.mpr ⟨other, hclass⟩
        rwa [List.take_of_length_le (by omega)]
    | function => exact .inr (mem_functions.mpr ⟨other, hclass⟩)
  have hclash : (table.classify found).clashesWithTag = true := by
    unfold Candidates.clashesWithTag
    rw [honly]
    exact List.any_eq_true.mpr ⟨b.2, hhides, by simpa using Ne.symm apart⟩
  simp [hclash]

/-- An object and a function exclude each other. -/
theorem isAmbiguous_of_object_function (ha : a ∈ table.visibleEntities found)
    (hb : b ∈ table.visibleEntities found) (object : table.declClass a.1 = .object)
    (function : table.declClass b.1 = .function) : (table.classify found).isAmbiguous = true := by
  have hobject := List.ne_nil_of_mem (mem_objects.mpr ⟨ha, object⟩)
  rcases mem_functions.mpr ⟨hb, function⟩ with member | member
  · simp [Candidates.isAmbiguous, hobject, List.ne_nil_of_mem member]
  · simp [Candidates.isAmbiguous, hobject, List.ne_nil_of_mem member]

/-- Two entities that exclude each other make a name ambiguous. -/
theorem isAmbiguous_of_excludes (ha : a ∈ table.visibleEntities found) (hb : b ∈ table.visibleEntities found)
    (differ : a.1 ≠ b.1) (excludes : table.Excludes a b) : (table.classify found).isAmbiguous = true := by
  have hpairs : a ≠ b := fun same => differ (congrArg Prod.fst same)
  cases hclassA : table.declClass a.1 <;> cases hclassB : table.declClass b.1 <;>
    simp only [Excludes, hclassA, hclassB] at excludes
  case tag.tag =>
    have hseveral := one_lt_length_of_mem (mem_tags.mpr ⟨ha, hclassA⟩) (mem_tags.mpr ⟨hb, hclassB⟩) hpairs
    simp [Candidates.isAmbiguous, hseveral]
  case object.object =>
    have hseveral := one_lt_length_of_mem (mem_objects.mpr ⟨ha, hclassA⟩) (mem_objects.mpr ⟨hb, hclassB⟩) hpairs
    simp [Candidates.isAmbiguous, hseveral]
  case object.function => exact isAmbiguous_of_object_function ha hb hclassA hclassB
  case function.object => exact isAmbiguous_of_object_function hb ha hclassB hclassA
  case tag.object | tag.function =>
    exact isAmbiguous_of_tag (mem_tags.mpr ⟨ha, hclassA⟩) hb (by simp [hclassB]) excludes
  case object.tag | function.tag =>
    exact isAmbiguous_of_tag (mem_tags.mpr ⟨hb, hclassB⟩) ha (by simp [hclassA]) (Ne.symm excludes)

/-- A tag that clashes with another scope excludes something that is declared there. -/
theorem exists_excludes_of_clash (clash : (table.classify found).clashesWithTag = true) :
    ∃ a ∈ table.visibleEntities found, ∃ b ∈ table.visibleEntities found,
      a.1 ≠ b.1 ∧ table.Excludes a b := by
  unfold Candidates.clashesWithTag at clash
  split at clash
  · cases clash
  · rename_i tag rest hlist
    obtain ⟨hseen, htag⟩ := mem_tags.mp (hlist ▸ List.mem_cons_self : tag ∈ (table.classify found).tags)
    obtain ⟨scope, hscope, differs⟩ := List.any_eq_true.mp clash
    obtain ⟨b, hb, rfl⟩ := List.mem_map.mp hscope
    rw [List.append_assoc, List.mem_append, List.mem_append] at hb
    have hapart : tag.2 ≠ b.2 := fun same => by simp [same] at differs
    rcases hb with object | function
    · obtain ⟨hother, hobject⟩ := mem_objects.mp (List.mem_of_mem_take object)
      have hexcludes : table.Excludes tag b := by
        rw [Excludes, htag, hobject]
        exact hapart
      exact ⟨tag, hseen, b, hother, ne_of_declClass htag hobject (by decide), hexcludes⟩
    · obtain ⟨hother, hfunction⟩ := mem_functions.mp function
      have hexcludes : table.Excludes tag b := by
        rw [Excludes, htag, hfunction]
        exact hapart
      exact ⟨tag, hseen, b, hother, ne_of_declClass htag hfunction (by decide), hexcludes⟩

/-- A name is ambiguous because of two entities that exclude each other. -/
theorem exists_excludes (ambiguous : (table.classify found).isAmbiguous = true) :
    ∃ a ∈ table.visibleEntities found, ∃ b ∈ table.visibleEntities found,
      a.1 ≠ b.1 ∧ table.Excludes a b := by
  obtain ⟨htags, hobjects⟩ := table.pairwise_classify found
  simp only [Candidates.isAmbiguous, Bool.or_eq_true, decide_eq_true_eq] at ambiguous
  rcases ambiguous with ((tags | objects) | clash) | mixed
  · obtain ⟨a, ha, b, hb, differ⟩ := exists_related_of_pairwise htags tags
    obtain ⟨hseenA, hclassA⟩ := mem_tags.mp ha
    obtain ⟨hseenB, hclassB⟩ := mem_tags.mp hb
    exact ⟨a, hseenA, b, hseenB, differ, by rw [Excludes, hclassA, hclassB]; trivial⟩
  · obtain ⟨a, ha, b, hb, differ⟩ := exists_related_of_pairwise hobjects objects
    obtain ⟨hseenA, hclassA⟩ := mem_objects.mp ha
    obtain ⟨hseenB, hclassB⟩ := mem_objects.mp hb
    exact ⟨a, hseenA, b, hseenB, differ, by rw [Excludes, hclassA, hclassB]; trivial⟩
  · exact exists_excludes_of_clash clash
  · simp only [Bool.and_eq_true, Bool.not_eq_true', List.isEmpty_eq_false_iff, Bool.and_eq_false_iff] at mixed
    obtain ⟨a, ha⟩ := List.exists_mem_of_ne_nil _ mixed.1
    obtain ⟨hseenA, hclassA⟩ := mem_objects.mp ha
    have hfunction : ∃ b, b ∈ (table.classify found).functions ∨ b ∈ (table.classify found).templates := by
      rcases mixed.2 with functions | templates
      · exact (List.exists_mem_of_ne_nil _ functions).imp fun _ => .inl
      · exact (List.exists_mem_of_ne_nil _ templates).imp fun _ => .inr
    obtain ⟨b, hb⟩ := hfunction
    obtain ⟨hseenB, hclassB⟩ := mem_functions.mp hb
    exact ⟨a, hseenA, b, hseenB, ne_of_declClass hclassA hclassB (by decide),
      by rw [Excludes, hclassA, hclassB]; trivial⟩

/-- The declarations of a name are ambiguous if two entities among them exclude each other. -/
theorem isAmbiguous_iff : (table.classify found).isAmbiguous = true ↔
    ∃ a ∈ table.visibleEntities found, ∃ b ∈ table.visibleEntities found,
      a.1 ≠ b.1 ∧ table.Excludes a b := by
  refine ⟨exists_excludes, ?_⟩
  rintro ⟨a, ha, b, hb, differ, excludes⟩
  exact isAmbiguous_of_excludes ha hb differ excludes

end Table

/-! ## A lookup in one scope -/

/-- A scope without bases is searched alone if no using-directives are followed. -/
theorem Search.ends_lookupIn_here {query : Query} {table : Table} {origin : SymbolId} (exact : query.IsExact)
    (directives : query.options.ignoreDirectives = true) (parentless : (table.symbol origin).parents = [])
    (trail : Trail) :
    (lookupIn query origin).Ends table trail ((table.settle query.name (table.answers query origin)).map
      fun ids => (Found.under query.name ids, trail)) := by
  have hlevel := ends_collectLevel exact table trail (table.scopeHits_named exact origin)
  have hbases := hlevel.bind .ok fun found _ =>
    ends_addInherited_of_parentless parentless query found.2 found.1
  refine Ends.congr ?_ (lookupIn_alone (by simp [directives]) trail)
  cases hsettle : table.settle query.name (table.answers query origin) with
  | error error =>
      rw [show table.settle query.name ((table.scopeHits query origin).map (·.2)) = .error error from hsettle]
        at hbases
      exact hbases
  | ok ids =>
      rw [show table.settle query.name ((table.scopeHits query origin).map (·.2)) = .ok ids from hsettle]
        at hbases
      exact hbases

namespace Analysis

open Table

variable {table : Table} {start origin : SymbolId} {name : Name} {options : LookupOptions}

/-- In a scope without bases, and without regard to using-directives, a name is ambiguous if two entities
that its declarations stand for exclude each other. -/
theorem lookup_here_ambiguous_iff (exact : options.IsExact) (qualified : options.qualified = true)
    (directives : options.ignoreDirectives = true) (resolved : table.resolveNamespace start = origin)
    (parentless : (table.symbol origin).parents = []) :
    lookup start name options table = .error (.error (.ambiguous name)) table ↔
      ∃ a ∈ table.visibleEntities (table.answers (table.query name options) origin),
        ∃ b ∈ table.visibleEntities (table.answers (table.query name options) origin),
          a.1 ≠ b.1 ∧ table.Excludes a b := by
  have hsearch := Search.ends_lookupIn_here (exact.query table name) directives parentless
    { fresh := table.ids }
  have hanswer := (hsearch.congr (answer_qualified qualified _))
  rw [← resolved] at hanswer
  rw [← isAmbiguous_iff, ← resolved]
  unfold settle at hanswer
  split at hanswer
  · rename_i ambiguous
    exact iff_of_true (lookup_of_error exact hanswer) ambiguous
  · rename_i clear
    refine iff_of_false (fun impossible => ?_) clear
    rw [lookup_of_ends exact hanswer] at impossible
    cases impossible

end Analysis

end NameBinding
