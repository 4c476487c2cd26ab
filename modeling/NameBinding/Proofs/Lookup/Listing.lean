import NameBinding.Proofs.Lookup.Overloads

/-!
# What completion collects at one level

Completion looks for all names with one beginning at once.  The hits of a level are grouped by name, and what
is found under a name does not depend on the other names: it is what a lookup of that name alone would have
to settle.  Only where declarations exclude each other does completion go on, and list them all.

* `Found.lookup_ofHits`, `Found.lookup_fill`: what is found under one name.
* `Query.exactly`: the exact query for one of the names.
* `Table.offered`: what completion lists for declarations found at one level.
* `Table.scopeHits_filter`: of what a scope answers to completion, the part under one name is what it answers
  to the exact query.

* `Notes`: which names completion notes as ambiguous.

The main statement is `ends_collectLevel_completing`.
-/

namespace NameBinding

/-! ## Entries by name -/

namespace Found

variable {found other : Found} {name key : Name} {ids : List SymbolId} {hits : List Hit}

theorem lookup_eq_none_iff : found.lookup name = none ↔ name ∉ found.map (·.1) := by
  simp only [List.lookup_eq_none_iff, bne_iff_ne, List.mem_map, not_exists, not_and]
  exact forall₂_congr fun entry _ => ne_comm

theorem lookup_cons_self (name : Name) (ids : List SymbolId) (rest : Found) :
    List.lookup name ((name, ids) :: rest) = some ids := by
  rw [List.lookup_cons, beq_self_eq_true]

theorem lookup_cons_of_ne (differs : name ≠ key) (ids : List SymbolId) (rest : Found) :
    List.lookup name ((key, ids) :: rest) = List.lookup name rest := by
  rw [List.lookup_cons, beq_eq_false_iff_ne.mpr differs]

/-- Whether an entry stays depends on its name only. -/
theorem lookup_filter (keep : Name → Bool) (found : Found) (name : Name) :
    List.lookup name (found.filter fun entry => keep entry.1) =
      if keep name then found.lookup name else none := by
  induction found with
  | nil => simp
  | cons entry rest ih =>
      obtain ⟨key, ids⟩ := entry
      rw [List.filter_cons]
      by_cases same : name = key
      · subst same
        by_cases keeps : keep name = true
        · rw [if_pos keeps, if_pos keeps, lookup_cons_self, lookup_cons_self]
        · rw [if_neg keeps, ih, if_neg keeps, if_neg keeps]
      · rw [lookup_cons_of_ne same]
        split
        · rw [lookup_cons_of_ne same, ih]
        · exact ih

/-- What is found already is not replaced. -/
theorem lookup_fill (found other : Found) (name : Name) :
    (found.fill other).lookup name = (found.lookup name).or (other.lookup name) := by
  have hfilter := lookup_filter (fun key => (found.lookup key).isNone) other name
  rw [fill, List.lookup_append, hfilter]
  cases found.lookup name <;> rfl

theorem lookup_add (found : Found) (key : Name) (ids : List SymbolId) (name : Name) :
    (found.add key ids).lookup name =
      if name = key then some ((found.lookup key).getD [] ++ ids) else found.lookup name := by
  induction found with
  | nil =>
      unfold add
      split
      · rename_i same
        rw [same, lookup_cons_self]
        rfl
      · rename_i differs
        rw [lookup_cons_of_ne differs]
  | cons entry rest ih =>
      obtain ⟨first, known⟩ := entry
      unfold add
      by_cases sameKey : first = key
      · subst sameKey
        rw [if_pos rfl, lookup_cons_self]
        split
        · rename_i same
          rw [same, lookup_cons_self]
          rfl
        · rename_i differs
          rw [lookup_cons_of_ne differs, lookup_cons_of_ne differs]
      · rw [if_neg sameKey, lookup_cons_of_ne (Ne.symm sameKey)]
        by_cases same : name = first
        · subst same
          rw [lookup_cons_self, if_neg sameKey, lookup_cons_self]
        · rw [lookup_cons_of_ne same, lookup_cons_of_ne same, ih]

/-- The hits of one name, in their order. -/
theorem lookup_ofHits (hits : List Hit) (name : Name) :
    (ofHits hits).lookup name =
      if hits.filter (·.1 = name) = [] then none
      else some ((hits.filter (·.1 = name)).map (·.2)) := by
  have hfold : ∀ (hits : List Hit) (found : Found),
      List.lookup name (hits.foldl (fun found hit => Found.add found hit.1 [hit.2]) found) =
        if hits.filter (·.1 = name) = [] then found.lookup name
        else some ((found.lookup name).getD [] ++ (hits.filter (·.1 = name)).map (·.2)) := by
    intro hits
    induction hits with
    | nil => exact fun found => rfl
    | cons hit rest ih =>
        intro found
        rw [List.foldl_cons, ih, lookup_add]
        by_cases same : hit.1 = name
        · subst same
          rw [List.filter_cons_of_pos (by simp), if_pos rfl, if_neg (List.cons_ne_nil _ _)]
          split
          · rename_i none
            rw [none]
            rfl
          · rw [Option.getD_some, List.map_cons, List.append_assoc]
            rfl
        · rw [List.filter_cons_of_neg (by simpa using same), if_neg (Ne.symm same)]
  exact hfold hits []

/-- Each name has one entry, and is one of those that are wanted. -/
structure Lists (found : Found) (wanted : Name → Prop) : Prop where
  nodup : (found.map (·.1)).Nodup
  wanted : ∀ name ∈ found.map (·.1), wanted name

namespace Lists

variable {wanted : Name → Prop}

theorem nil (wanted : Name → Prop) : Lists [] wanted :=
  ⟨List.nodup_nil, fun _ member => absurd member List.not_mem_nil⟩

/-- The names are the same. -/
theorem of_names (lists : found.Lists wanted) (names : other.map (·.1) = found.map (·.1)) :
    other.Lists wanted :=
  ⟨names ▸ lists.nodup, fun name member => lists.wanted name (names ▸ member)⟩

/-- Some of the names. -/
theorem of_sublist (lists : found.Lists wanted) (sublist : other.Sublist found) : other.Lists wanted :=
  ⟨lists.nodup.sublist (sublist.map _), fun name member => lists.wanted name ((sublist.map _).subset member)⟩

theorem of_perm (lists : found.Lists wanted) (perm : other.Perm found) : other.Lists wanted :=
  ⟨(perm.map _).nodup_iff.mpr lists.nodup, fun name member => lists.wanted name ((perm.map _).mem_iff.mp member)⟩

theorem append (lists : found.Lists wanted) (lists' : other.Lists wanted)
    (apart : ∀ name ∈ other.map (·.1), found.lookup name = none) : Lists (found ++ other) wanted := by
  constructor
  · rw [List.map_append]
    refine List.nodup_append'.mpr ⟨lists.nodup, lists'.nodup, fun name first second => ?_⟩
    exact lookup_eq_none_iff.mp (apart name second) first
  · rw [List.map_append]
    exact List.forall_mem_append.mpr ⟨lists.wanted, lists'.wanted⟩

theorem fill (lists : found.Lists wanted) (lists' : other.Lists wanted) : (found.fill other).Lists wanted := by
  refine lists.append (lists'.of_sublist List.filter_sublist) fun name member => ?_
  obtain ⟨entry, hentry, rfl⟩ := List.mem_map.mp member
  exact Option.isNone_iff_eq_none.mp (List.mem_filter.mp hentry).2

theorem add (lists : found.Lists wanted) (isWanted : wanted key) (ids : List SymbolId) :
    (found.add key ids).Lists wanted := by
  induction found with
  | nil => exact ⟨List.nodup_singleton key, List.forall_mem_singleton.mpr isWanted⟩
  | cons entry rest ih =>
      obtain ⟨first, known⟩ := entry
      have hrest : Lists rest wanted := lists.of_sublist (List.sublist_cons_self _ _)
      have hnodup : first ∉ rest.map (·.1) := (List.nodup_cons.mp lists.nodup).1
      unfold Found.add
      split
      · exact lists.of_names rfl
      · rename_i differs
        have hadded : first ∉ (Found.add rest key ids).map (·.1) := by
          rw [← lookup_eq_none_iff, lookup_add, if_neg differs]
          exact lookup_eq_none_iff.mpr hnodup
        exact ⟨List.nodup_cons.mpr ⟨hadded, (ih hrest).nodup⟩,
          List.forall_mem_cons.mpr ⟨lists.wanted first List.mem_cons_self, (ih hrest).wanted⟩⟩

theorem ofHits (isWanted : ∀ hit ∈ hits, wanted hit.1) : (ofHits hits).Lists wanted := by
  have hfold : ∀ (hits : List Hit) (found : Found), found.Lists wanted → (∀ hit ∈ hits, wanted hit.1) →
      Lists (hits.foldl (fun found hit => Found.add found hit.1 [hit.2]) found) wanted := by
    intro hits
    induction hits with
    | nil => exact fun found lists _ => lists
    | cons hit rest ih =>
        intro found lists isWanted
        obtain ⟨hfirst, hrest⟩ := List.forall_mem_cons.mp isWanted
        exact ih _ (lists.add hfirst [hit.2]) hrest
  exact hfold hits [] (.nil wanted) isWanted

/-- In a list with one entry for each name, what is found under a name does not depend on the order. -/
theorem mem_iff (lists : found.Lists wanted) : (name, ids) ∈ found ↔ found.lookup name = some ids := by
  refine ⟨fun member => ?_, mem_of_lookup⟩
  cases hlookup : found.lookup name with
  | none => exact absurd (List.mem_map_of_mem member) (lookup_eq_none_iff.mp hlookup)
  | some others =>
      have hsame := List.inj_on_of_nodup_map lists.nodup (mem_of_lookup hlookup) member rfl
      exact congrArg (fun entry : Name × List SymbolId => some entry.2) hsame

theorem lookup_eq_of_perm (lists : found.Lists wanted) (perm : other.Perm found) (name : Name) :
    other.lookup name = found.lookup name := by
  refine Option.ext fun ids => ?_
  show other.lookup name = some ids ↔ found.lookup name = some ids
  rw [← lists.mem_iff, ← (lists.of_perm perm).mem_iff, perm.mem_iff]

/-- What a change of each entry by itself leaves under a name. -/
theorem lookup_flatMap_under (lists : found.Lists wanted) (amounts : List SymbolId → List SymbolId)
    (name : Name) :
    List.lookup name (found.flatMap fun entry => under entry.1 (amounts entry.2)) =
      (found.lookup name).bind fun ids => (under name (amounts ids)).lookup name := by
  induction found with
  | nil => rfl
  | cons entry rest ih =>
      have hrest : Lists rest wanted := lists.of_sublist (List.sublist_cons_self _ _)
      obtain ⟨first, known⟩ := entry
      rw [List.flatMap_cons, List.lookup_append, ih hrest]
      by_cases same : name = first
      · subst same
        have hmissing := lookup_eq_none_iff.mpr (List.nodup_cons.mp lists.nodup).1
        rw [lookup_cons_self, hmissing, Option.bind_none, Option.or_none]
        rfl
      · have hother : List.lookup name (under first (amounts known)) = none := by
          unfold under
          split
          · rfl
          · exact lookup_cons_of_ne same _ _
        rw [hother, lookup_cons_of_ne same, Option.none_or]

theorem flatMap_under (lists : found.Lists wanted) (amounts : List SymbolId → List SymbolId) :
    Lists (found.flatMap fun entry => under entry.1 (amounts entry.2)) wanted := by
  have hnames : ((found.flatMap fun entry => under entry.1 (amounts entry.2)).map (·.1)).Sublist
      (found.map (·.1)) := by
    clear lists
    induction found with
    | nil => exact .refl _
    | cons entry rest ih =>
        rw [List.flatMap_cons, List.map_append, List.map_cons]
        unfold under
        split
        · exact ih.cons _
        · exact ih.cons_cons _
  exact ⟨lists.nodup.sublist hnames, fun name member => lists.wanted name (hnames.subset member)⟩

end Lists

end Found

/-! ## One name among those that are looked for -/

/-- The query is for all names with one beginning, and brings no argument types. -/
structure Query.IsCompletion (query : Query) : Prop where
  completing : query.isCompleting = true
  noArguments : query.options.arguments = none

/-- The exact query for one name. -/
def Query.exactly (query : Query) (name : Name) : Query :=
  { name, options := { query.options with completing := false } }

theorem Query.IsCompletion.exactly {query : Query} (completion : query.IsCompletion) (name : Name) :
    (query.exactly name).IsExact :=
  ⟨rfl, completion.noArguments⟩

/-- Completion is never satisfied with what it has found. -/
theorem Query.IsCompletion.unsatisfied {query : Query} (completion : query.IsCompletion) (found : Found) :
    query.isSatisfied found = false := by
  simp [Query.isSatisfied, completion.completing]

/-- An exact lookup is satisfied with an entry for its name. -/
theorem Query.IsExact.satisfied {query : Query} (exact : query.IsExact) (ids : List SymbolId) :
    query.isSatisfied [(query.name, ids)] = true := by
  simp [Query.isSatisfied, exact.not_completing]

/-- Elements with one key are sorted by it. -/
theorem pairwise_le_of_key {α : Type} {key : α → Nat} {wanted : α → Bool} (value : Nat)
    (same : ∀ element, wanted element = true → key element = value) (list : List α) :
    (list.filter wanted).Pairwise fun a b => decide (key a ≤ key b) = true := by
  refine List.pairwise_of_forall_mem_list fun a ha b hb => ?_
  rw [same a (List.mem_filter.mp ha).2, same b (List.mem_filter.mp hb).2]
  exact decide_eq_true (Nat.le_refl value)

/-- When a list is sorted by a key, the elements with one key stay in their order. -/
theorem filter_mergeSort_of_key {α : Type} {key : α → Nat} {wanted : α → Bool} (value : Nat)
    (same : ∀ element, wanted element = true → key element = value) (list : List α) :
    (list.mergeSort fun a b => key a ≤ key b).filter wanted = list.filter wanted := by
  have hsorted := pairwise_le_of_key value same list
  have hstays : (list.filter wanted).Sublist (list.mergeSort fun a b => key a ≤ key b) :=
    List.sublist_mergeSort (fun a b c first second => by simp only [decide_eq_true_eq] at *; omega)
      (fun a b => by simp only [Bool.or_eq_true, decide_eq_true_eq]; omega) hsorted List.filter_sublist
  have hperm := (List.mergeSort_perm list fun a b => decide (key a ≤ key b)).filter wanted
  have hkept : (list.filter wanted).Sublist
      ((list.mergeSort fun a b => decide (key a ≤ key b)).filter wanted) := by
    have hfiltered := hstays.filter wanted
    rwa [List.filter_filter, List.filter_congr fun element _ => Bool.and_self (wanted element)] at hfiltered
  exact (hkept.eq_of_length hperm.length_eq.symm).symm

namespace Table

variable {table : Table} {query : Query} {name : Name} {found : List SymbolId}

theorem nameMatches_exactly (query : Query) (name other : Name) :
    table.nameMatches (query.exactly name) other = (other == name) :=
  rfl

/-- The names that match are a choice from all names, of which one name is a part. -/
theorem filter_nameMatches (isMatch : table.nameMatches query name = true) (hits : List Hit) :
    (hits.filter fun hit => table.nameMatches query hit.1).filter (·.1 = name) =
      hits.filter fun hit => table.nameMatches (query.exactly name) hit.1 := by
  rw [List.filter_filter]
  refine List.filter_congr fun hit _ => ?_
  rw [nameMatches_exactly]
  by_cases same : hit.1 = name
  · simp [same, isMatch]
  · simp [same]

/-- Of what a scope answers to completion, the part under one name is what it answers to the exact query. -/
theorem scopeHits_filter (represented : table.Represented) (completion : query.IsCompletion)
    (isMatch : table.nameMatches query name = true) (scope : SymbolId) :
    (table.scopeHits query scope).filter (·.1 = name) = table.scopeHits (query.exactly name) scope := by
  have hmembers : (table.memberHits query (table.symbol scope)).filter (·.1 = name) =
      table.memberHits (query.exactly name) (table.symbol scope) := by
    have hindexed := represented.indexed scope name
    rw [memberHits, memberHits, if_pos completion.completing, filter_nameMatches isMatch,
      if_neg (by simp [(completion.exactly name).not_completing])]
    show _ = ((table.symbol scope).membersNamed name).map fun id => (name, id)
    rw [hindexed, List.filter_map]
    refine List.map_congr_left fun id member => ?_
    exact Prod.ext (of_decide_eq_true (List.mem_filter.mp member).2) rfl
  have hparameters : (table.parameterHits query (table.symbol scope)).filter (·.1 = name) =
      table.parameterHits (query.exactly name) (table.symbol scope) := filter_nameMatches isMatch _
  have hrenamed : (table.definitionHits query (table.symbol scope)).filter (·.1 = name) =
      table.definitionHits (query.exactly name) (table.symbol scope) := by
    have hnamed : ∀ hit : Hit, decide (hit.1 = name) = true → hit.1.index = name.index := fun hit same =>
      congrArg Name.index (of_decide_eq_true same)
    have hsorted : ((((table.symbol scope).templateData?.map (·.definitionParameters)).getD []).filter
        fun hit => table.nameMatches (query.exactly name) hit.1).Pairwise
          fun a b => decide (a.1.index ≤ b.1.index) = true := pairwise_le_of_key name.index hnamed _
    rw [definitionHits, definitionHits, filter_mergeSort_of_key name.index hnamed, filter_nameMatches isMatch,
      List.mergeSort_of_pairwise hsorted]
  rw [scopeHits, scopeHits, ← hmembers, ← hparameters, ← hrenamed, ← List.filter_append,
    ← List.filter_append, List.filter_filter, List.filter_filter]
  exact List.filter_congr fun hit _ => Bool.and_comm _ _

/-- The same holds of several scopes that are searched together. -/
theorem filter_flatMap_scopeHits (represented : table.Represented) (completion : query.IsCompletion)
    (isMatch : table.nameMatches query name = true) (scopes : List SymbolId) :
    (scopes.flatMap (table.scopeHits query)).filter (·.1 = name) =
      scopes.flatMap (table.scopeHits (query.exactly name)) := by
  rw [List.filter_flatMap]
  exact congrArg scopes.flatMap (funext (scopeHits_filter represented completion isMatch))

/-! ## What one level amounts to -/

/-- Declarations amount to something if one of them is seen. -/
theorem entities_eq_nil_iff : table.entities found = [] ↔ table.seen found = [] := by
  constructor
  · intro nothing
    by_contra something
    obtain ⟨id, hseen⟩ := List.exists_mem_of_ne_nil _ something
    obtain ⟨first, -, -, hvisible⟩ := exists_visibleEntity hseen
    unfold entities Candidates.entities at nothing
    cases hobjects : (table.classify found).objects with
    | cons object rest => simp [hobjects] at nothing
    | nil =>
        have hnone : (table.classify found).functions = [] ∧ (table.classify found).templates = [] ∧
            (table.classify found).tags = [] := by
          cases hfunctions : (table.classify found).functions with
          | cons function rest => simp [hobjects, hfunctions, Candidates.select] at nothing
          | nil =>
              cases htemplates : (table.classify found).templates with
              | cons template rest => simp [hobjects, hfunctions, htemplates, Candidates.select] at nothing
              | nil =>
                  cases htags : (table.classify found).tags with
                  | cons tag rest =>
                      simp [hobjects, hfunctions, htemplates, htags, Candidates.select, Candidates.hidesTag,
                        Candidates.hidingScopes] at nothing
                  | nil => exact ⟨rfl, rfl, rfl⟩
        cases hclass : table.declClass (table.canonical first) with
        | tag => exact List.not_mem_nil (hnone.2.2 ▸ mem_tags.mpr ⟨hvisible, hclass⟩)
        | object => exact List.not_mem_nil (hobjects ▸ mem_objects.mpr ⟨hvisible, hclass⟩)
        | function =>
            rcases mem_functions.mpr ⟨hvisible, hclass⟩ with plain | template
            · exact List.not_mem_nil (hnone.1 ▸ plain)
            · exact List.not_mem_nil (hnone.2.1 ▸ template)
  · intro unseen
    refine List.eq_nil_iff_forall_not_mem.mpr fun entity member => ?_
    obtain ⟨scope, hvisible⟩ := exists_of_mem_entities member
    obtain ⟨id, hseen, -⟩ := exists_of_mem_visibleEntities hvisible
    exact List.not_mem_nil (unseen ▸ hseen)

/-- If a level amounts to nothing, then neither does a part of it. -/
theorem entities_eq_nil_of_append {more : List SymbolId} (nothing : table.entities (found ++ more) = []) :
    table.entities found = [] := by
  rw [entities_eq_nil_iff, seen, List.filter_append] at nothing
  exact entities_eq_nil_iff.mpr (List.append_eq_nil_iff.mp nothing).1

/-- What completion lists for the declarations found at one level: all that are visible if they exclude each
other, and otherwise what they amount to. -/
def offered (table : Table) (found : List SymbolId) : List SymbolId :=
  if (table.classify found).isAmbiguous then (table.classify found).visible else table.entities found

theorem offered_of_clear (clear : (table.classify found).isAmbiguous = false) :
    table.offered found = table.entities found :=
  if_neg (by simp [clear])

theorem offered_eq_nil_iff : table.offered found = [] ↔ table.entities found = [] := by
  unfold offered
  split
  · have hvisible : (table.classify found).visible = (table.visibleEntities found).map (·.1) := rfl
    rw [entities_eq_nil_iff, hvisible]
    simp only [List.eq_nil_iff_forall_not_mem, mem_map_visibleEntities]
    exact ⟨fun none id seen => none _ ⟨id, seen, rfl⟩, fun none entity ⟨id, seen, _⟩ => none id seen⟩
  · rfl

/-- What completion lists for the hits of one level. -/
def listing (table : Table) (hits : List Hit) : Found :=
  (Found.ofHits hits).flatMap fun entry => Found.under entry.1 (table.offered entry.2)

theorem lists_listing {wanted : Name → Prop} {hits : List Hit} (isWanted : ∀ hit ∈ hits, wanted hit.1) :
    (table.listing hits).Lists wanted :=
  (Found.Lists.ofHits isWanted).flatMap_under table.offered

/-- What completion lists under a name depends on the hits of that name only. -/
theorem lookup_listing (table : Table) (hits : List Hit) (name : Name) :
    (table.listing hits).lookup name =
      (Found.under name (table.offered ((hits.filter (·.1 = name)).map (·.2)))).lookup name := by
  have hlists : (Found.ofHits hits).Lists fun _ => True := .ofHits fun _ _ => trivial
  rw [listing, hlists.lookup_flatMap_under, Found.lookup_ofHits]
  split
  · rename_i none
    rw [none]
    rfl
  · rfl

end Table

/-! ## What is noted -/

/-- The names noted later are those noted before and the new ones. -/
def Notes (new : Name → Prop) (before later : List Name) : Prop :=
  ∀ name, name ∈ later ↔ name ∈ before ∨ new name

namespace Notes

variable {new more : Name → Prop} {before between later : List Name}

theorem refl (none : ∀ name, ¬ new name) (before : List Name) : Notes new before before := fun name =>
  (or_iff_left (none name)).symm

theorem trans (first : Notes new before between) (second : Notes more between later) :
    Notes (fun name => new name ∨ more name) before later := fun name => by
  rw [second, first, or_assoc]

theorem congr (notes : Notes new before later) (same : ∀ name, new name ↔ more name) :
    Notes more before later := fun name =>
  (notes name).trans (or_congr_right (same name))

end Notes

namespace Table

variable {table : Table} {query : Query} {name : Name}

/-- The hits of the name exclude each other. -/
def ClashesAt (table : Table) (hits : List Hit) (name : Name) : Prop :=
  (table.classify ((hits.filter (·.1 = name)).map (·.2))).isAmbiguous = true

/-- The declarations that several scopes have together for the query exclude each other. -/
def Clashes (table : Table) (query : Query) (scopes : List SymbolId) : Prop :=
  (table.classify (scopes.flatMap (table.answers query))).isAmbiguous = true

/-- The hits of a name exclude each other if the declarations for the exact query do. -/
theorem clashesAt_flatMap (represented : table.Represented) (completion : query.IsCompletion)
    (isMatch : table.nameMatches query name = true) (scopes : List SymbolId) :
    table.ClashesAt (scopes.flatMap (table.scopeHits query)) name ↔
      table.Clashes (query.exactly name) scopes := by
  rw [ClashesAt, filter_flatMap_scopeHits represented completion isMatch, List.map_flatMap]
  rfl

end Table

namespace Search

variable {query : Query}

/-- Completion notes that a name is ambiguous, and goes on. -/
theorem ends_ambiguity_completing (completion : query.IsCompletion) (table : Table) (trail : Trail)
    (name : Name) :
    ∃ ambiguous, (ambiguity query name).Ends table trail (.ok ((), { trail with ambiguous })) ∧
      Notes (· = name) trail.ambiguous ambiguous := by
  unfold ambiguity
  rw [if_pos completion.completing]
  by_cases noted : name ∈ trail.ambiguous
  · refine ⟨trail.ambiguous, ?_, fun other => ⟨.inl, ?_⟩⟩
    · show EStateM.Result.ok ((), if name ∈ trail.ambiguous then trail else _) table = _
      rw [if_pos noted]
    · rintro (before | rfl)
      · exact before
      · exact noted
  · refine ⟨trail.ambiguous ++ [name], ?_, fun other => ?_⟩
    · show EStateM.Result.ok ((), if name ∈ trail.ambiguous then trail else _) table = _
      rw [if_neg noted]
    · rw [List.mem_append, List.mem_singleton]

theorem ends_collectSymbol_completing (completion : query.IsCompletion) (table : Table) (trail : Trail)
    (name : Name) (found : List SymbolId) :
    ∃ ambiguous, (collectSymbol query name found).Ends table trail
        (.ok (table.offered found, { trail with ambiguous })) ∧
      Notes (fun other => other = name ∧ (table.classify found).isAmbiguous = true) trail.ambiguous
        ambiguous := by
  unfold Table.offered Table.entities Candidates.entities
  cases hambiguous : (table.classify found).isAmbiguous with
  | true =>
      obtain ⟨ambiguous, hnoted, hnotes⟩ := ends_ambiguity_completing completion table trail name
      refine ⟨ambiguous, .read ?_, hnotes.congr fun other => (and_iff_left rfl).symm⟩
      dsimp only
      rw [if_pos hambiguous]
      exact hnoted.bind_ok (.pure _)
  | false =>
      refine ⟨trail.ambiguous, .read ?_, .refl (fun other new => Bool.false_ne_true new.2) _⟩
      dsimp only
      rw [if_neg (by simp [hambiguous])]
      cases hobjects : (table.classify found).objects with
      | cons object rest => exact .pure _
      | nil =>
          have hfold : Analysis.foldTemplates query.options ((table.classify found).templates.map (·.1)) =
              Pure.pure ((table.classify found).templates.map (·.1)) := by
            rw [Analysis.foldTemplates, completion.noArguments]
          rw [hfold]
          exact .pure _

/-- Completion lists what the hits of a level amount to, name by name, and notes the names whose hits exclude
each other. -/
theorem ends_collectLevel_completing (completion : query.IsCompletion) (table : Table) (trail : Trail)
    (hits : List Hit) :
    ∃ ambiguous, (collectLevel query hits).Ends table trail
        (.ok (table.listing hits, { trail with ambiguous })) ∧
      Notes (table.ClashesAt hits) trail.ambiguous ambiguous := by
  have hfold : ∀ (entries collected : Found) (trail : Trail), ∃ ambiguous,
      Ends (entries.foldlM (fun collected entry => do
        let ids ← collectSymbol query entry.1 entry.2
        Pure.pure (if ids.isEmpty then collected else collected ++ [(entry.1, ids)])) collected) table trail
          (.ok (collected ++ entries.flatMap fun entry => Found.under entry.1 (table.offered entry.2),
            { trail with ambiguous })) ∧
        Notes (fun name => ∃ ids, (name, ids) ∈ entries ∧ (table.classify ids).isAmbiguous = true)
          trail.ambiguous ambiguous := by
    intro entries
    induction entries with
    | nil =>
        intro collected trail
        rw [List.flatMap_nil, List.append_nil]
        exact ⟨trail.ambiguous, .pure collected, .refl (fun name ⟨_, listed, _⟩ => nomatch listed) _⟩
    | cons entry rest ih =>
        intro collected trail
        obtain ⟨between, hsymbol, hnotes⟩ :=
          ends_collectSymbol_completing completion table trail entry.1 entry.2
        obtain ⟨ambiguous, hrest, hnotesRest⟩ := ih (collected ++ Found.under entry.1 (table.offered entry.2))
          { trail with ambiguous := between }
        have hcollected : (if (table.offered entry.2).isEmpty then collected
            else collected ++ [(entry.1, table.offered entry.2)]) =
              collected ++ Found.under entry.1 (table.offered entry.2) := by
          unfold Found.under
          split <;> simp
        have hentry : Ends (do
            let ids ← collectSymbol query entry.1 entry.2
            Pure.pure (if ids.isEmpty then collected else collected ++ [(entry.1, ids)])) table trail
              (.ok (collected ++ Found.under entry.1 (table.offered entry.2),
                { trail with ambiguous := between })) :=
          hcollected ▸ hsymbol.bind_ok (.pure _)
        refine ⟨ambiguous, ?_, (hnotes.trans hnotesRest).congr fun name => ?_⟩
        · rw [List.foldlM_cons, List.flatMap_cons, ← List.append_assoc]
          exact hentry.bind_ok hrest
        · simp only [List.mem_cons, or_and_right, exists_or, Prod.ext_iff]
          simp only [and_assoc, exists_and_left, exists_eq_left]
  obtain ⟨ambiguous, hends, hnotes⟩ := hfold (Found.ofHits hits) [] trail
  refine ⟨ambiguous, hends, hnotes.congr fun name => ?_⟩
  have hlists : (Found.ofHits hits).Lists fun _ => True := .ofHits fun _ _ => trivial
  simp only [hlists.mem_iff, Found.lookup_ofHits, Table.ClashesAt]
  split
  · rename_i none
    rw [none]
    simp only [reduceCtorEq, false_and, exists_false, false_iff]
    exact Bool.false_ne_true
  · simp only [Option.some.injEq, exists_eq_left']

end Search

end NameBinding
