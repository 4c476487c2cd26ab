import NameBinding.Proofs.Lookup.Exact

/-!
# How an exact lookup ends

A lookup for one name without argument types makes no instances.  It leaves the table as it is, and ends
with what it found or with an error, both of which the table alone determines.

* `Search.Ends`: how a step of a lookup ends, given the table and what the lookup remembers.
* `Table.settle`: what the declarations found at one level amount to.

The main statements are `ends_collectLevel`, for what one level found, and `lookup_of_found` and
`lookup_of_error`, which take the end of a search to that of the lookup.
-/

namespace NameBinding

/-- The query is for one name, and brings no argument types. -/
structure Query.IsExact (query : Query) : Prop where
  whole : query.stem = none
  noArguments : query.options.arguments = none

theorem Query.IsExact.not_completing {query : Query} (exact : query.IsExact) :
    query.isCompleting = false := by
  rw [isCompleting, exact.whole, Option.isSome_none]

/-- The options ask for one name, and bring no argument types. -/
structure LookupOptions.IsExact (options : LookupOptions) : Prop where
  whole : options.completing = false
  noArguments : options.arguments = none

/-- An exact query does not depend on the table. -/
theorem LookupOptions.IsExact.query_eq {options : LookupOptions} (exact : options.IsExact)
    (table other : Table) (name : Name) : other.query name options = table.query name options := by
  simp [Table.query, exact.whole]

theorem LookupOptions.IsExact.query {options : LookupOptions} (exact : options.IsExact) (table : Table)
    (name : Name) : (table.query name options).IsExact :=
  ⟨by simp [Table.query, exact.whole], exact.noArguments⟩

/-- What the candidates amount to, unless they exclude each other. -/
def Candidates.entities (candidates : Candidates) : List SymbolId :=
  match candidates.objects with
  | object :: _ => [object.1]
  | [] => candidates.select (candidates.templates.map (·.1))

/-- Candidates that exclude each other do not all hide each other. -/
theorem Candidates.entities_ne_nil_of_isAmbiguous {candidates : Candidates}
    (ambiguous : candidates.isAmbiguous = true) : candidates.entities ≠ [] := by
  unfold entities
  cases hobjects : candidates.objects with
  | cons object rest => simp
  | nil =>
      unfold select
      dsimp only
      split
      · rename_i hfunctions
        simpa using hfunctions
      · rename_i hfunctions
        -- Without objects and functions it takes two tags, neither of which is hidden.
        have hnone : candidates.functions = [] ∧ candidates.templates = [] := by simpa using hfunctions
        have hscopes : candidates.hidingScopes = [] := by simp [hidingScopes, hobjects, hnone]
        have htags : 1 < candidates.tags.length := by
          cases htag : candidates.tags <;>
            simp_all [isAmbiguous, clashesWithTag]
        cases htag : candidates.tags with
        | nil => simp [htag] at htags
        | cons tag rest => simp [hidesTag, htag, hscopes]

namespace Table

/-- The declarations that a scope itself answers with. -/
def answers (table : Table) (query : Query) (scope : SymbolId) : List SymbolId :=
  (table.scopeHits query scope).map (·.2)

/-- The entities that the declarations found at one level amount to, unless these exclude each other. -/
def entities (table : Table) (found : List SymbolId) : List SymbolId := (table.classify found).entities

/-- What the declarations found at one level amount to. -/
def settle (table : Table) (name : Name) (found : List SymbolId) :
    Except SemanticError (List SymbolId) :=
  if (table.classify found).isAmbiguous then .error (.ambiguous name)
  else .ok (table.entities found)

variable {table : Table} {query : Query} {name : Name}

@[simp]
theorem settle_nil (table : Table) (name : Name) : table.settle name [] = .ok [] := rfl

theorem mem_ids {id : SymbolId} : id ∈ table.ids ↔ id.index < table.size := by
  simp only [ids, List.mem_map, List.mem_range]
  constructor
  · rintro ⟨index, lt, rfl⟩
    exact lt
  · exact fun lt => ⟨id.index, lt, rfl⟩

theorem nodup_ids (table : Table) : table.ids.Nodup :=
  List.nodup_range.map fun _ _ same => congrArg SymbolId.index same

/-- Only symbols of the table nominate namespaces. -/
theorem lt_size_of_nominated {scope id : SymbolId} (nominates : id ∈ table.nominated scope) :
    scope.index < table.size := by
  refine lt_size_of_symbol (fun symbol => !symbol.directives.isEmpty) rfl ?_
  obtain ⟨directive, hdirective, -⟩ := List.mem_map.mp nominates
  cases hall : (table.symbol scope).directives with
  | nil => simp [hall] at hdirective
  | cons => rfl

/-- Only symbols of the table answer. -/
theorem lt_size_of_answers {id : SymbolId} (answer : table.scopeHits query id ≠ []) :
    id.index < table.size := by
  by_contra behind
  have hmissing := symbol_of_getElem?_none (Array.getElem?_eq_none (Nat.le_of_not_lt behind))
  refine answer ?_
  cases hcompleting : query.isCompleting <;>
    simp [scopeHits, hmissing, memberHits, parameterHits, definitionHits, hcompleting,
      Symbol.contents, Symbol.membersNamed, Symbol.decls?, Symbol.parameters, Symbol.templateData?,
      default, instInhabitedSymbol.default]

/-- Without a filter, a scope answers with its members and then its parameters. -/
theorem answers_of_any (exact : query.IsExact) (any : query.options.filter = .any) (scope : SymbolId) :
    table.answers query scope = table.members scope query.name ++
      (table.parameterHits query (table.symbol scope) ++
        table.definitionHits query (table.symbol scope)).map (·.2) := by
  have haccepted : ∀ id, table.accepts query.options.filter id = true := by
    intro id
    rw [any]
    rfl
  simp only [answers, scopeHits, memberHits, exact.not_completing, haccepted, List.filter_true,
    Bool.false_eq_true, if_false, List.append_assoc, List.map_append, List.map_map]
  exact congrArg (· ++ _) (List.map_id _)

/-- No entity is given twice. -/
theorem nodup_entities (table : Table) (found : List SymbolId) : (table.entities found).Nodup := by
  have hdeclared := List.pairwise_map.mp (table.nodup_visible found)
  have hfunctions : ((table.classify found).functions.map (·.1)).Nodup :=
    List.pairwise_map.mpr ((hdeclared.filter _).filter _)
  have htemplates : ((table.classify found).templates.map (·.1)).Nodup :=
    List.pairwise_map.mpr ((hdeclared.filter _).filter _)
  have hapart : ∀ id ∈ (table.classify found).functions.map (·.1),
      id ∉ (table.classify found).templates.map (·.1) := by
    intro id function template
    obtain ⟨first, hfirst, rfl⟩ := List.mem_map.mp function
    obtain ⟨second, hsecond, hsame⟩ := List.mem_map.mp template
    have hplain := (List.mem_filter.mp hfirst).2
    rw [← hsame, (List.mem_filter.mp hsecond).2] at hplain
    cases hplain
  unfold entities Candidates.entities
  cases (table.classify found).objects with
  | cons object rest => exact List.nodup_singleton object.1
  | nil =>
      unfold Candidates.select
      dsimp only
      split
      · exact List.nodup_append'.mpr ⟨hfunctions, htemplates, hapart⟩
      · split
        · exact List.nodup_nil
        · cases (table.classify found).tags with
          | nil => exact List.nodup_nil
          | cons tag rest => exact List.nodup_singleton tag.1

/-- An exact query asks for its own name. -/
theorem scopeHits_named (exact : query.IsExact) (scope : SymbolId) :
    ∀ hit ∈ table.scopeHits query scope, hit.1 = query.name := by
  have hnamed : ∀ other, table.nameMatches query other = true → other = query.name := by
    simp [nameMatches, exact.whole]
  intro hit member
  obtain ⟨hmember, -⟩ := List.mem_filter.mp member
  simp only [List.mem_append] at hmember
  rcases hmember with (declared | parameter) | renamed
  · simp only [memberHits, exact.not_completing, Bool.false_eq_true, if_false, List.mem_map] at declared
    obtain ⟨id, -, rfl⟩ := declared
    rfl
  · exact hnamed _ (List.mem_filter.mp parameter).2
  · simp only [definitionHits, List.mem_mergeSort, List.mem_filter] at renamed
    exact hnamed _ renamed.2

theorem scopesHits_named (exact : query.IsExact) (scopes : List SymbolId) :
    ∀ hit ∈ scopes.flatMap (table.scopeHits query), hit.1 = query.name := by
  intro hit member
  obtain ⟨scope, -, hhit⟩ := List.mem_flatMap.mp member
  exact scopeHits_named exact scope hit hhit

end Table

namespace Found

/-- What is found under one name, which is nothing if there is no entity. -/
def under (name : Name) (ids : List SymbolId) : Found := if ids.isEmpty then [] else [(name, ids)]

variable {name : Name} {ids : List SymbolId}

@[simp]
theorem under_nil (name : Name) : under name [] = [] := rfl

theorem under_of_ne_nil (nonempty : ids ≠ []) : under name ids = [(name, ids)] := by
  simp [under, nonempty]

@[simp]
theorem isSatisfied_nil (query : Query) : query.isSatisfied [] = false := by
  simp [Query.isSatisfied]

/-- A found name is found. -/
theorem isSatisfied_under {query : Query} (exact : query.IsExact) (ids : List SymbolId) :
    query.isSatisfied (under query.name ids) = !ids.isEmpty := by
  cases ids <;> simp [Query.isSatisfied, exact.not_completing, under]

@[simp]
theorem nil_fill (other : Found) : fill [] other = other := by
  simp [fill]

end Found

/-! ## The end of a step -/

/-- Two ends are alike: both with related values, or both with the same error. -/
inductive EndAlike {α β : Type} (related : α → β → Prop) :
    Except SemanticError α → Except SemanticError β → Prop where
  | ok {value : α} {value' : β} (alike : related value value') : EndAlike related (.ok value) (.ok value')
  | error (error : SemanticError) : EndAlike related (.error error) (.error error)

theorem EndAlike.refl {α : Type} {related : α → α → Prop} (same : ∀ value, related value value)
    (ended : Except SemanticError α) : EndAlike related ended ended := by
  cases ended with
  | ok value => exact .ok (same value)
  | error error => exact .error error

namespace Search

/-- From this table and trail, the step leaves the table as it is, and ends with a value and a trail, or
with an error. -/
def Ends {α : Type} (search : Search α) (table : Table) (trail : Trail) :
    Except SemanticError (α × Trail) → Prop
  | .ok found => search trail table = .ok found table
  | .error error => search trail table = .error (.error error) table

variable {α β : Type} {search : Search α} {table : Table} {trail : Trail} {query : Query}

namespace Ends

theorem pure (value : α) : Ends (Pure.pure value) table trail (.ok (value, trail)) := rfl

theorem fail (error : SemanticError) :
    Ends (liftM (Analysis.fail error : Analysis α)) table trail (.error error) := rfl

/-- After a step that succeeds, the next one is what is left to do. -/
theorem bind_apply (next : α → Search β) {found : α × Trail}
    (first : search.Ends table trail (.ok found)) :
    (search >>= next) trail table = next found.1 found.2 table := by
  have hfirst : search trail table = .ok found table := first
  exact Analysis.bind_ok hfirst

/-- A step that fails is the last one. -/
theorem bind_error {error : SemanticError} (first : search.Ends table trail (.error error))
    (next : α → Search β) : (search >>= next).Ends table trail (.error error) := by
  have hfirst : search trail table = .error (.error error) table := first
  exact Analysis.bind_error hfirst

/-- Two steps in sequence, of which the second one is made only if the first one succeeds. -/
theorem bind {next : α → Search β} {outcome : Except SemanticError (α × Trail)}
    (rest : α × Trail → Except SemanticError (β × Trail)) (first : search.Ends table trail outcome)
    (second : ∀ found, outcome = .ok found → (next found.1).Ends table found.2 (rest found)) :
    (search >>= next).Ends table trail (outcome >>= rest) := by
  cases outcome with
  | error error => exact first.bind_error next
  | ok found =>
      have hsecond := second found rfl
      show (search >>= next).Ends table trail (rest found)
      cases hrest : rest found with
      | ok last =>
          rw [hrest] at hsecond
          exact (first.bind_apply next).trans hsecond
      | error error =>
          rw [hrest] at hsecond
          exact (first.bind_apply next).trans hsecond

/-- Going on with the value of a step that succeeds. -/
theorem bind_ok {next : α → Search β} {found : α × Trail}
    {outcome : Except SemanticError (β × Trail)} (first : search.Ends table trail (.ok found))
    (second : (next found.1).Ends table found.2 outcome) :
    (search >>= next).Ends table trail outcome := by
  refine first.bind (fun _ => outcome) fun other same => ?_
  cases same
  exact second

/-- Going on with the table that was read. -/
theorem read {next : Table → Search α} {outcome : Except SemanticError (α × Trail)}
    (second : (next table).Ends table trail outcome) :
    (Search.table >>= next).Ends table trail outcome := by
  cases outcome <;> exact second

/-- Going on with the trail that was read. -/
theorem get {next : Trail → Search α} {outcome : Except SemanticError (α × Trail)}
    (second : (next trail).Ends table trail outcome) :
    (MonadState.get >>= next).Ends table trail outcome := by
  cases outcome <;> exact second

/-- Going on after the trail was replaced. -/
theorem set {next : PUnit → Search α} {after : Trail} {outcome : Except SemanticError (α × Trail)}
    (second : (next ⟨⟩).Ends table after outcome) :
    (MonadStateOf.set after >>= next).Ends table trail outcome := by
  cases outcome <;> exact second

/-- A step that comes to the same as another one ends in the same way. -/
theorem congr {other : Search α} {trail' : Trail} {outcome : Except SemanticError (α × Trail)}
    (ends : other.Ends table trail' outcome) (same : search trail table = other trail' table) :
    search.Ends table trail outcome := by
  cases outcome <;> exact same.trans ends

/-- A step ends in one way. -/
theorem unique {outcome other : Except SemanticError (α × Trail)}
    (ends : search.Ends table trail outcome) (ends' : search.Ends table trail other) :
    outcome = other := by
  cases outcome <;> cases other <;> simp_all [Ends]

end Ends

/-! ## One level -/

/-- Declarations that exclude each other end an exact lookup. -/
theorem ends_ambiguity (exact : query.IsExact) (table : Table) (trail : Trail) (name : Name) :
    (ambiguity query name).Ends table trail (.error (.ambiguous name)) := by
  rw [ambiguity, exact.not_completing]
  exact .fail _

theorem ends_collectSymbol (exact : query.IsExact) (table : Table) (trail : Trail) (name : Name)
    (found : List SymbolId) :
    (collectSymbol query name found).Ends table trail
      ((table.settle name found).map fun ids => (ids, trail)) := by
  refine .read ?_
  unfold Table.settle Table.entities Candidates.entities
  dsimp only
  split
  · refine (ends_ambiguity exact table trail name).bind (fun found => .ok ([], found.2)) ?_
    exact fun _ impossible => nomatch impossible
  · cases hobjects : (table.classify found).objects with
    | cons object rest => exact .pure _
    | nil =>
        have hfold : Analysis.foldTemplates query.options ((table.classify found).templates.map (·.1)) =
            Pure.pure ((table.classify found).templates.map (·.1)) := by
          rw [Analysis.foldTemplates, exact.noArguments]
        rw [hfold]
        exact .pure _

/-- The declarations that one level finds are settled under the name that the query asks for. -/
theorem ends_collectLevel (exact : query.IsExact) (table : Table) (trail : Trail) {hits : List Hit}
    (named : ∀ hit ∈ hits, hit.1 = query.name) :
    (collectLevel query hits).Ends table trail
      ((table.settle query.name (hits.map (·.2))).map fun ids =>
        (Found.under query.name ids, trail)) := by
  unfold collectLevel
  rcases Found.ofHits_cases named with rfl | hone
  · exact .pure _
  · have hcollect := ends_collectSymbol exact table trail query.name (hits.map (·.2))
    have hentry : Ends (do
        let ids ← collectSymbol query query.name (hits.map (·.2))
        Pure.pure (if ids.isEmpty then [] else [] ++ [(query.name, ids)])) table trail
          ((table.settle query.name (hits.map (·.2))).map (fun ids => (ids, trail)) >>= fun found =>
            .ok (Found.under query.name found.1, found.2)) :=
      hcollect.bind _ fun found _ => .pure (Found.under query.name found.1)
    have hlevel := hentry.bind .ok fun found _ => .pure found.1
    rw [hone, List.foldlM_cons]
    cases hsettle : table.settle query.name (hits.map (·.2)) with
    | error error =>
        rw [hsettle] at hlevel
        exact hlevel
    | ok ids =>
        rw [hsettle] at hlevel
        exact hlevel

/-- Scopes that are searched together have their answers settled together. -/
theorem ends_collectScopes (exact : query.IsExact) (table : Table) (trail : Trail)
    (scopes : List SymbolId) :
    (collectLevel query (scopes.flatMap (table.scopeHits query))).Ends table trail
      ((table.settle query.name (scopes.flatMap (table.answers query))).map fun ids =>
        (Found.under query.name ids, trail)) := by
  have hlevel := ends_collectLevel exact table trail (table.scopesHits_named exact scopes)
  rwa [List.map_flatMap] at hlevel

theorem ends_followsDirectives (query : Query) (table : Table) (trail : Trail) :
    (followsDirectives query).Ends table trail
      (.ok (table.config.isCxx && !query.options.ignoreDirectives, trail)) :=
  .read (.pure _)

/-- A scope without bases inherits nothing. -/
theorem ends_addInherited_of_parentless {scope : SymbolId} (none : (table.symbol scope).parents = [])
    (query : Query) (trail : Trail) (collected : Found) :
    (addInherited query scope collected).Ends table trail (.ok (collected, trail)) := by
  refine .read ?_
  rw [none]
  exact .pure collected

end Search

/-! ## The whole lookup -/

namespace Analysis

/-- The lookups find the same symbols, or fail with the same error. -/
inductive FindAlike : EStateM.Result Interrupt Table LookupResult →
    EStateM.Result Interrupt Table LookupResult → Prop where
  | found {result result' : LookupResult} {table table' : Table}
      (same : ∀ id, id ∈ result.symbols ↔ id ∈ result'.symbols) :
      FindAlike (.ok result table) (.ok result' table')
  | failed (interrupt : Interrupt) {table table' : Table} :
      FindAlike (.error interrupt table) (.error interrupt table')

variable {table : Table} {start : SymbolId} {name : Name} {options : LookupOptions}

/-- A lookup ends as its search does, unless it is refused. -/
theorem lookup_cases (table : Table) (start : SymbolId) (name : Name) (options : LookupOptions) :
    lookup start name options table = violated .completionOff table ∨
      lookup start name options table =
        match Search.answer (table.query name options) (table.resolveNamespace start)
          { fresh := table.ids } table with
        | .ok found after =>
            .ok (after.lookupResult (table.query name options) found.1 found.2.ambiguous) after
        | .error interrupt after => .error interrupt after := by
  rw [lookup, get_bind]
  split
  · exact .inl rfl
  · right
    cases hanswer : Search.answer (table.query name options) (table.resolveNamespace start)
        { fresh := table.ids } table with
    | ok found after => exact bind_ok hanswer
    | error interrupt after => exact bind_error hanswer

theorem answer_of_lookup_ok {result : LookupResult} {after : Table}
    (succeeded : lookup start name options table = .ok result after) :
    ∃ found, Search.answer (table.query name options) (table.resolveNamespace start)
      { fresh := table.ids } table = .ok found after ∧
        result = after.lookupResult (table.query name options) found.1 found.2.ambiguous := by
  rcases lookup_cases table start name options with refused | carried
  · rw [refused] at succeeded
    cases succeeded
  · rw [carried] at succeeded
    split at succeeded
    · rename_i found now hanswer
      cases succeeded
      exact ⟨found, hanswer, rfl⟩
    · cases succeeded

theorem answer_of_lookup_error {error : SemanticError} {after : Table}
    (failed : lookup start name options table = .error (.error error) after) :
    Search.answer (table.query name options) (table.resolveNamespace start)
      { fresh := table.ids } table = .error (.error error) after := by
  rcases lookup_cases table start name options with refused | carried
  · rw [refused] at failed
    cases failed
  · rw [carried] at failed
    split at failed
    · cases failed
    · rename_i interrupt now hanswer
      cases failed
      exact hanswer

/-- A qualified lookup searches one scope. -/
theorem answer_qualified (qualified : options.qualified = true) (trail : Trail) :
    Search.answer (table.query name options) start trail table =
      Search.lookupIn (table.query name options) start trail table := by
  show (if options.qualified then _ else _ : Search Found) trail table = _
  rw [if_pos qualified]

theorem lookup_eq (exact : options.IsExact) :
    lookup start name options table = (do
      let (found, trail) ←
        (Search.answer (table.query name options) (table.resolveNamespace start)).run
          { fresh := table.ids }
      let after ← get
      pure (after.lookupResult (table.query name options) found trail.ambiguous)) table := by
  rw [lookup, get_bind, exact.whole]
  rfl

/-- A lookup whose search ends with an error. -/
theorem lookup_of_error (exact : options.IsExact) {error : SemanticError}
    (ends : (Search.answer (table.query name options) (table.resolveNamespace start)).Ends table
      { fresh := table.ids } (.error error)) :
    lookup start name options table = .error (.error error) table := by
  rw [lookup_eq exact]
  exact bind_error ends

/-- A lookup whose search ends with what it found; this is given as it is. -/
theorem lookup_of_ends (exact : options.IsExact) {found : Found × Trail}
    (ends : (Search.answer (table.query name options) (table.resolveNamespace start)).Ends table
      { fresh := table.ids } (.ok found)) :
    lookup start name options table = .ok { entries := found.1, ambiguous :=
      (table.lookupResult (table.query name options) found.1 found.2.ambiguous).ambiguous } table := by
  rw [lookup_eq exact]
  refine (bind_ok ends).trans ?_
  show EStateM.Result.ok _ table = _
  simp [Table.lookupResult, (exact.query table name).not_completing]

/-- A lookup whose search found no name ambiguous gives nothing else. -/
theorem lookup_of_found (exact : options.IsExact) {found : Found} {trail : Trail}
    (ends : (Search.answer (table.query name options) (table.resolveNamespace start)).Ends table
      { fresh := table.ids } (.ok (found, trail))) (clear : trail.ambiguous = []) :
    lookup start name options table = .ok { entries := found } table := by
  rw [lookup_of_ends exact ends, clear]
  simp [Table.lookupResult]

end Analysis

end NameBinding
