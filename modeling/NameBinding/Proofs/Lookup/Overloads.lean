import NameBinding.Proofs.Lookup.Exclusion
import NameBinding.Proofs.Lookup.Inherited
import NameBinding.Proofs.Template.Runs

/-!
# What an exact lookup finds

An exact lookup leaves the table as it is.  If it succeeds, it finds one entity, or functions that overload
each other.

* `Table.Overloads`: visible entities that one name may mean together.
* `Search.Reads`: a step of a lookup leaves the table as it is.

The main statements are `lookup_answers` and `lookup_reads`, for qualified lookups.
-/

namespace NameBinding

namespace Table

variable {table : Table} {found : List SymbolId}

/-- The entities are visible, and there is one of them, or they are functions. -/
structure Overloads (table : Table) (ids : List SymbolId) : Prop where
  within : Within table.size ids
  visible : ∀ id ∈ ids, (table.symbol id).type.isFriend = false
  canonical : ∀ id ∈ ids, ∃ declared, table.canonical declared = id
  alike : ∀ a ∈ ids, ∀ b ∈ ids, a = b ∨ table.declClass a = .function ∧ table.declClass b = .function

/-- What declarations amount to are entities that stand for some of them and are seen. -/
theorem exists_of_mem_entities {entity : SymbolId} (member : entity ∈ table.entities found) :
    ∃ scope, (entity, scope) ∈ table.visibleEntities found := by
  unfold entities Candidates.entities Candidates.select at member
  split at member
  · rename_i object rest hobjects
    have hobject := mem_objects.mp (hobjects ▸ List.mem_cons_self : object ∈ (table.classify found).objects)
    exact ⟨object.2, List.mem_singleton.mp member ▸ hobject.1⟩
  · dsimp only at member
    split at member
    · rcases List.mem_append.mp member with function | template
      · obtain ⟨pair, hpair, rfl⟩ := List.mem_map.mp function
        exact ⟨pair.2, (mem_functions.mp (.inl hpair)).1⟩
      · obtain ⟨pair, hpair, rfl⟩ := List.mem_map.mp template
        exact ⟨pair.2, (mem_functions.mp (.inr hpair)).1⟩
    · split at member
      · exact absurd member List.not_mem_nil
      · obtain ⟨pair, hpair, rfl⟩ := List.mem_map.mp member
        exact ⟨pair.2, (mem_tags.mp (List.mem_of_mem_take hpair)).1⟩

/-- Entities of different classes, or several that are no functions, are never given together. -/
theorem entities_alike (table : Table) (found : List SymbolId) :
    ∀ a ∈ table.entities found, ∀ b ∈ table.entities found,
      a = b ∨ table.declClass a = .function ∧ table.declClass b = .function := by
  unfold entities Candidates.entities Candidates.select
  split
  · rename_i object rest hobjects
    intro a ha b hb
    exact .inl ((List.mem_singleton.mp ha).trans (List.mem_singleton.mp hb).symm)
  · have hfunction : ∀ id ∈ (table.classify found).functions.map (·.1) ++
        (table.classify found).templates.map (·.1), table.declClass id = .function := by
      intro id member
      rcases List.mem_append.mp member with function | template
      · obtain ⟨pair, hpair, rfl⟩ := List.mem_map.mp function
        exact (mem_functions.mp (.inl hpair)).2
      · obtain ⟨pair, hpair, rfl⟩ := List.mem_map.mp template
        exact (mem_functions.mp (.inr hpair)).2
    dsimp only
    split
    · exact fun a ha b hb => .inr ⟨hfunction a ha, hfunction b hb⟩
    · split
      · exact fun a ha => absurd ha List.not_mem_nil
      · intro a ha b hb
        cases htags : (table.classify found).tags with
        | nil => simp [htags] at ha
        | cons tag rest =>
            simp only [htags, List.take_succ_cons, List.take_zero, List.map_cons, List.map_nil,
              List.mem_singleton] at ha hb
            exact .inl (ha.trans hb.symm)

theorem overloads_entities (represented : table.Represented) (within : Within table.size found) :
    table.Overloads (table.entities found) where
  within := by
    intro entity member
    obtain ⟨scope, hvisible⟩ := exists_of_mem_entities member
    obtain ⟨id, hid, hpair⟩ := exists_of_mem_visibleEntities hvisible
    cases hpair
    exact represented.canonical_lt (within id (List.mem_filter.mp hid).1)
  visible := by
    intro entity member
    obtain ⟨scope, hvisible⟩ := exists_of_mem_entities member
    exact (mem_visibleEntities.mp hvisible).1
  canonical := by
    intro entity member
    obtain ⟨scope, hvisible⟩ := exists_of_mem_entities member
    obtain ⟨id, -, hpair⟩ := exists_of_mem_visibleEntities hvisible
    exact ⟨id, (congrArg Prod.fst hpair).symm⟩
  alike := entities_alike table found

end Table

/-! ## Steps that leave the table as it is -/

namespace Search

variable {α β : Type} {table : Table} {result : α → Prop} {last : β → Prop}

/-- If the step succeeds, it leaves the table as it is and gives a value that satisfies `result`. -/
def Reads (table : Table) (result : α → Prop) (search : Search α) : Prop :=
  ∀ trail found after, search trail table = .ok found after → after = table ∧ result found.1

namespace Reads

theorem pure {value : α} (holds : result value) : Reads table result (Pure.pure value) := by
  intro trail found after ends
  cases ends
  exact ⟨rfl, holds⟩

theorem fail (error : SemanticError) :
    Reads table result (liftM (Analysis.fail error : Analysis α) : Search α) := by
  intro trail found after ends
  cases ends

theorem bind {search : Search α} {next : α → Search β} (first : Reads table result search)
    (second : ∀ value, result value → Reads table last (next value)) : Reads table last (search >>= next) := by
  intro trail found after ends
  obtain ⟨value, middle, hvalue, hnext⟩ := Analysis.bind_eq_ok.mp
    (ends : (search trail >>= fun found => next found.1 found.2) table = .ok found after)
  obtain ⟨rfl, hresult⟩ := first trail value middle hvalue
  exact second value.1 hresult value.2 found after hnext

/-- Going on with the table. -/
theorem read {next : Table → Search α} (second : Reads table result (next table)) :
    Reads table result (Search.table >>= next) :=
  second

/-- Going on with what the lookup remembers. -/
theorem get {next : Trail → Search α} (second : ∀ trail, Reads table result (next trail)) :
    Reads table result (MonadState.get >>= next) :=
  fun trail => second trail trail

/-- Remembering something else first. -/
theorem set {next : PUnit → Search α} {trail : Trail} (second : Reads table result (next ⟨⟩)) :
    Reads table result (MonadStateOf.set trail >>= next) :=
  fun _ => second trail

/-- The step ends in the same way, whatever the lookup remembers. -/
theorem of_ends {search : Search α} {outcome : Except SemanticError α}
    (ends : ∀ trail, search.Ends table trail (outcome.map fun value => (value, trail)))
    (holds : ∀ value, outcome = .ok value → result value) : Reads table result search := by
  intro trail found after hsearch
  have hends := ends trail
  cases outcome with
  | error error =>
      have hfailed : search trail table = .error (.error error) table := hends
      rw [hfailed] at hsearch
      cases hsearch
  | ok value =>
      have hgiven : search trail table = .ok (value, trail) table := hends
      rw [hgiven] at hsearch
      cases hsearch
      exact ⟨rfl, holds value rfl⟩

theorem foldlM {list : List α} {step : β → α → Search β}
    (each : ∀ state, last state → ∀ element ∈ list, Reads table last (step state element)) {start : β}
    (begins : last start) : Reads table last (list.foldlM step start) := by
  induction list generalizing start with
  | nil => exact pure begins
  | cons first rest ih =>
      rw [List.foldlM_cons]
      exact (each start begins first List.mem_cons_self).bind fun state hstate =>
        ih (fun state holds element member => each state holds element (List.mem_cons_of_mem first member))
          hstate

end Reads

/-! ## The steps of an exact lookup -/

/-- Each name is found with what declarations amount to with which scopes answer to the query. -/
def FindsAnswers (table : Table) (query : Query) (found : Found) : Prop :=
  ∀ entry ∈ found, ∃ hits : List Hit, (∀ hit ∈ hits, ∃ scope, hit ∈ table.scopeHits query scope) ∧
    entry.2 = table.entities (hits.map (·.2))

variable {query : Query}

theorem FindsAnswers.nil (table : Table) (query : Query) : FindsAnswers table query [] :=
  fun _ member => absurd member List.not_mem_nil

theorem FindsAnswers.append {found other : Found} (first : FindsAnswers table query found)
    (second : FindsAnswers table query other) : FindsAnswers table query (found ++ other) := by
  intro entry member
  rcases List.mem_append.mp member with early | late
  · exact first entry early
  · exact second entry late

theorem FindsAnswers.fill {found other : Found} (first : FindsAnswers table query found)
    (second : FindsAnswers table query other) : FindsAnswers table query (found.fill other) :=
  first.append fun entry member => second entry (List.mem_filter.mp member).1

variable (exact : query.IsExact)

include exact

theorem reads_mergeSibling {merged found : Found} (before : FindsAnswers table query merged)
    (added : FindsAnswers table query found) :
    Reads table (FindsAnswers table query) (mergeSibling query merged found) := by
  refine .foldlM (fun merged before entry member => .read ?_) before
  split
  · refine .pure (before.append fun other hother => ?_)
    exact List.mem_singleton.mp hother ▸ added entry member
  · split
    · exact .pure before
    · have hfails : Reads table (fun _ => False) (ambiguity query entry.1) := by
        rw [ambiguity, exact.not_completing]
        exact .fail _
      exact hfails.bind fun _ impossible => impossible.elim

theorem reads_collectLevel {hits : List Hit}
    (answered : ∀ hit ∈ hits, ∃ scope, hit ∈ table.scopeHits query scope) :
    Reads table (FindsAnswers table query) (collectLevel query hits) := by
  have hnamed : ∀ hit ∈ hits, hit.1 = query.name := by
    intro hit member
    obtain ⟨scope, hhit⟩ := answered hit member
    exact table.scopeHits_named exact scope hit hhit
  have hends : ∀ trail, (collectLevel query hits).Ends table trail
      (((table.settle query.name (hits.map (·.2))).map (Found.under query.name)).map
        fun found => (found, trail)) := by
    intro trail
    have hlevel := ends_collectLevel exact table trail hnamed
    cases hsettle : table.settle query.name (hits.map (·.2)) <;> rw [hsettle] at hlevel <;> exact hlevel
  refine .of_ends hends fun found settled => ?_
  unfold Table.settle at settled
  split at settled
  · cases settled
  · cases settled
    intro entry member
    unfold Found.under at member
    split at member
    · exact absurd member List.not_mem_nil
    · exact ⟨hits, answered, List.mem_singleton.mp member ▸ rfl⟩

theorem reads_searchBase {deeper : SymbolId → Search Found} (parent : SymbolId)
    (searches : ∀ base, Reads table (FindsAnswers table query) (deeper base)) :
    Reads table (FindsAnswers table query) (searchBase query deeper parent) := by
  refine .read ((reads_collectLevel exact fun hit member => ⟨parent, member⟩).bind
    fun found hfound => .read ?_)
  split
  · exact .pure hfound
  · exact (searches parent).bind fun inherited hinherited => .pure (hfound.fill hinherited)

theorem reads_searchParents (depth : Nat) (path : List SymbolId) (id : SymbolId) :
    Reads table (FindsAnswers table query) (searchParents query depth path id) := by
  induction depth generalizing path id with
  | zero => exact .read (.fail _)
  | succ depth ih =>
      rw [searchParents_succ]
      refine .read (.foldlM (fun merged hmerged link _ => .read ?_) (.nil table query))
      refine Reads.get fun trail => ?_
      have hbase : Reads table (FindsAnswers table query) (do
          let found ← searchBase query (fun base => searchParents query depth (base :: path) base)
            (table.classOf link.parent)
          mergeSibling query merged found) :=
        (reads_searchBase exact _ fun base => ih (base :: path) base).bind
          fun found hfound => reads_mergeSibling exact hmerged hfound
      dsimp only
      split
      · exact .pure hmerged
      · split
        · exact .fail _
        · split
          · exact .pure hmerged
          · split
            · exact .set hbase
            · exact hbase

theorem reads_addInherited {collected : Found} (before : FindsAnswers table query collected)
    (scope : SymbolId) :
    Reads table (FindsAnswers table query) (addInherited query scope collected) := by
  refine .read ?_
  split
  · exact .pure before
  · have hchecks : Reads table (fun _ => True) (checkInheritance scope) := by
      refine .read (.get fun trail => ?_)
      cases table.checkAcyclic trail.acyclic scope with
      | error error => exact (Reads.fail _ : Reads table (fun _ => False) _).bind fun _ impossible =>
          impossible.elim
      | ok proved => exact .set (.pure trivial)
    refine hchecks.bind fun _ _ => ?_
    split
    · exact .pure before
    · exact (Reads.read (reads_searchParents exact _ _ _)).bind fun inherited hinherited =>
        .pure (before.fill hinherited)

theorem reads_lookupIn (scope : SymbolId) :
    Reads table (FindsAnswers table query) (lookupIn query scope) := by
  have hhits : ∀ scopes : List SymbolId, Reads table (FindsAnswers table query) (do
      let found ← collectLevel query (scopes.flatMap (table.scopeHits query))
      addInherited query scope found) := by
    intro scopes
    refine (reads_collectLevel exact fun hit member => ?_).bind
      fun found hfound => reads_addInherited exact hfound scope
    obtain ⟨answering, -, hhit⟩ := List.mem_flatMap.mp member
    exact ⟨answering, hhit⟩
  intro trail found after ends
  rw [lookupIn_apply] at ends
  split at ends
  · exact hhits (scope :: table.reachedNamespaces query trail.fresh scope) trail found after ends
  · refine hhits [scope] trail found after ?_
    rw [List.flatMap_singleton]
    exact ends

end Search

namespace Analysis

variable {table after : Table} {start : SymbolId} {name : Name} {options : LookupOptions}
  {result : LookupResult}

/-- A qualified lookup for one name without argument types leaves the table as it is, and finds what some
declarations amount to with which scopes answer. -/
theorem lookup_answers (exact : options.IsExact) (qualified : options.qualified = true)
    (found : lookup start name options table = .ok result after) :
    after = table ∧ ∃ hits : List Hit,
      (∀ hit ∈ hits, ∃ scope, hit ∈ table.scopeHits (table.query name options) scope) ∧
        result.symbols = table.entities (hits.map (·.2)) := by
  obtain ⟨entries, hanswer, rfl⟩ := answer_of_lookup_ok found
  rw [answer_qualified qualified] at hanswer
  obtain ⟨rfl, hentries⟩ := Search.reads_lookupIn (exact.query table name) _ _ _ _ hanswer
  refine ⟨rfl, ?_⟩
  simp only [LookupResult.symbols, Table.lookupResult, (exact.query after name).not_completing,
    Bool.false_eq_true, if_false]
  cases hfound : entries.1 with
  | nil => exact ⟨[], by simp, rfl⟩
  | cons entry rest => exact hentries entry (hfound ▸ List.mem_cons_self)

/-- It finds one visible entity or functions that overload each other. -/
theorem lookup_reads (represented : table.Represented) (exact : options.IsExact)
    (qualified : options.qualified = true) (found : lookup start name options table = .ok result after) :
    after = table ∧ table.Overloads result.symbols := by
  obtain ⟨same, hits, answered, hsymbols⟩ := lookup_answers exact qualified found
  refine ⟨same, hsymbols ▸ table.overloads_entities represented fun id member => ?_⟩
  obtain ⟨hit, hhit, rfl⟩ := List.mem_map.mp member
  obtain ⟨scope, hscope⟩ := answered hit hhit
  exact represented.scopeHits_lt _ scope hit hscope

end Analysis

end NameBinding
