import NameBinding.Lookup.Position
import NameBinding.Proofs.Lookup.InheritedListing
import NameBinding.Proofs.Lookup.Outward
import NameBinding.Proofs.Operation.Representation
import NameBinding.Proofs.Table.Interned

/-!
# Completion agrees with exact lookup

A completion list gives, under each name with the wanted beginning, what an unqualified lookup of that name
finds, although the walk for it goes on to the global scope and searches all bases on the way.  Up to the
level that supplies a name both walks see the same, and what the further levels list under that name is
discarded.

* `Search.searchLevel`: what a walk does at one scope of its chain.
* `Table.openedListing`: what completion lists for the scopes that are opened there.
* `Trail.Alongside`: the two walks have the same directives and virtual bases left.
* `Search.announces_searchLevel` and `Search.announces_walk`: one level, and the whole walk.
* `Table.ComesBefore`: the order of a completion list.

The main statement is `completions_agree_with_lookup`.
-/

namespace NameBinding

/-- The same namespaces are fresh, the same directives wait, and the same virtual bases have been entered. -/
structure Trail.Alongside (trail other : Trail) : Prop where
  fresh : trail.fresh = other.fresh
  pending : trail.pending = other.pending
  virtualBases : trail.virtualBases = other.virtualBases

namespace Table

variable {table : Table} {query : Query} {name : Name} {trail other : Trail} {scope : SymbolId}

/-- The scopes that a walk searches together when it reaches `scope`. -/
def opened (table : Table) (query : Query) (trail : Trail) (scope : SymbolId) : List SymbolId :=
  if table.config.isCxx && !query.options.ignoreDirectives then
    table.level trail.fresh trail.pending scope
  else [scope]

/-- What a walk remembers when it has opened the scopes that it reaches at `scope`. -/
def opening (table : Table) (query : Query) (trail : Trail) (scope : SymbolId) : Trail :=
  if table.config.isCxx && !query.options.ignoreDirectives then trail.passing table scope else trail

theorem opened_eq_cons (table : Table) (query : Query) (trail : Trail) (scope : SymbolId) :
    ∃ nominated, table.opened query trail scope = scope :: nominated := by
  unfold opened
  split
  · exact ⟨_, rfl⟩
  · exact ⟨[], rfl⟩

/-- What completion lists for the scopes that are searched together. -/
def openedListing (table : Table) (query : Query) (trail : Trail) (scope : SymbolId) : Found :=
  table.listing ((table.opened query trail scope).flatMap (table.scopeHits query))

theorem opened_exactly (alongside : trail.Alongside other) :
    table.opened (query.exactly name) trail scope = table.opened query other scope := by
  rw [opened, opened, alongside.fresh, alongside.pending]
  rfl

/-- Both walks see the same declarations of the name. -/
theorem answers_opened_exactly (alongside : trail.Alongside other) :
    (table.opened (query.exactly name) trail scope).flatMap (table.answers (query.exactly name)) =
      (table.opened query other scope).flatMap (table.answers (query.exactly name)) :=
  congrArg (List.flatMap _) (opened_exactly alongside)

theorem opening_exactly (alongside : trail.Alongside other) :
    (table.opening (query.exactly name) trail scope).Alongside (table.opening query other scope) := by
  unfold opening
  show Trail.Alongside (if _ then _ else _) _
  obtain ⟨fresh, pending, virtualBases, _, _⟩ := trail
  obtain ⟨fresh', pending', virtualBases', _, _⟩ := other
  obtain ⟨rfl, rfl, rfl⟩ := alongside
  split <;> rename_i follows
  · have hfollows : (table.config.isCxx && !query.options.ignoreDirectives) = true := follows
    rw [if_pos hfollows]
    exact ⟨rfl, rfl, rfl⟩
  · have hignores : ¬ (table.config.isCxx && !query.options.ignoreDirectives) = true := follows
    rw [if_neg hignores]
    exact ⟨rfl, rfl, rfl⟩

/-- Nothing else is remembered when the scopes are opened. -/
theorem opening_keeps (table : Table) (query : Query) (trail : Trail) (scope : SymbolId) :
    (table.opening query trail scope).virtualBases = trail.virtualBases ∧
      (table.opening query trail scope).acyclic = trail.acyclic ∧
      (table.opening query trail scope).ambiguous = trail.ambiguous := by
  unfold opening
  split <;> exact ⟨rfl, rfl, rfl⟩

end Table

namespace Search

variable {table : Table} {query : Query} {name : Name} {wanted : Name → Prop} {trail trail' : Trail}
  {scope : SymbolId}

/-! ## One level -/

/-- What a walk does at one scope of its chain. -/
def searchLevel (query : Query) (scope : SymbolId) : Search Found := do
  let hits ← levelHits query scope
  let collected ← collectLevel query hits
  addInherited query scope collected

theorem walk_cons (query : Query) (scope : SymbolId) (outer : List SymbolId) (found : Found) :
    walk query (scope :: outer) found = searchLevel query scope >>= fun level =>
      if query.isSatisfied (found.fill level) || query.options.stopScope == some scope then
        pure (found.fill level)
      else walk query outer (found.fill level) := by
  simp only [walk, searchLevel, bind_assoc]

section Walk

variable {found level : Found} {after : Trail} (outer : List SymbolId)

/-- An error at one level ends the walk. -/
theorem ends_walk_of_error {error : SemanticError}
    (first : (searchLevel query scope).Ends table trail (.error error)) (found : Found) :
    (walk query (scope :: outer) found).Ends table trail (.error error) := by
  rw [walk_cons]
  exact first.bind_error _

/-- A walk that has found nothing yet stops at the level that satisfies it. -/
theorem ends_walk_of_found (first : (searchLevel query scope).Ends table trail (.ok (level, after)))
    (satisfied : query.isSatisfied level = true) :
    (walk query (scope :: outer) []).Ends table trail (.ok (level, after)) := by
  rw [walk_cons]
  refine first.bind_ok ?_
  rw [Found.nil_fill, satisfied, Bool.true_or, if_pos rfl]
  exact .pure _

/-- A walk goes on outward from a level that does not satisfy it. -/
theorem ends_walk_of_unsatisfied (unstopped : query.options.stopScope = none)
    (first : (searchLevel query scope).Ends table trail (.ok (level, after)))
    (unsatisfied : query.isSatisfied (found.fill level) = false)
    {outcome : Except SemanticError (Found × Trail)}
    (further : (walk query outer (found.fill level)).Ends table after outcome) :
    (walk query (scope :: outer) found).Ends table trail outcome := by
  rw [walk_cons]
  refine first.bind_ok ?_
  rw [if_neg (by simp [unsatisfied, unstopped])]
  exact further

/-- So does one that has found nothing, from a level where nothing is found. -/
theorem ends_walk_of_nothing (unstopped : query.options.stopScope = none)
    (first : (searchLevel query scope).Ends table trail (.ok ([], after)))
    {outcome : Except SemanticError (Found × Trail)} (further : (walk query outer []).Ends table after outcome) :
    (walk query (scope :: outer) []).Ends table trail outcome := by
  refine ends_walk_of_unsatisfied outer unstopped first ?_ ?_
  · rw [Found.nil_fill, Found.isSatisfied_nil]
  · rwa [Found.nil_fill]

end Walk

theorem ends_levelHits_opened (query : Query) (table : Table) (trail : Trail) (scope : SymbolId) :
    (levelHits query scope).Ends table trail
      (.ok ((table.opened query trail scope).flatMap (table.scopeHits query),
        table.opening query trail scope)) := by
  unfold Table.opened Table.opening
  split
  · rename_i follows
    obtain ⟨hcxx, hdirectives⟩ := Bool.and_eq_true_iff.mp follows
    exact ends_levelHits hcxx (by simpa using hdirectives) scope trail
  · rename_i ignores
    have hfollows := ends_followsDirectives query table trail
    rw [Bool.eq_false_iff.mpr ignores] at hfollows
    rw [List.flatMap_cons, List.flatMap_nil, List.append_nil]
    exact .read (hfollows.bind_ok (.pure _))

section Exact

variable (exact : query.IsExact) {found : List SymbolId}
  (answers : (table.opened query trail scope).flatMap (table.answers query) = found)

include exact answers

/-- Declarations at one level that exclude each other end an exact lookup. -/
theorem ends_searchLevel_ambiguous (ambiguous : (table.classify found).isAmbiguous = true) :
    (searchLevel query scope).Ends table trail (.error (.ambiguous query.name)) := by
  have hcollect := ends_collectScopes exact table (table.opening query trail scope)
    (table.opened query trail scope)
  rw [answers, Table.settle, if_pos ambiguous] at hcollect
  refine (ends_levelHits_opened query table trail scope).bind_ok ?_
  exact hcollect.bind_error _

/-- An exact lookup finds what the scopes of a level amount to. -/
theorem ends_searchLevel_answered (acyclic : table.AcyclicBases scope)
    (clear : (table.classify found).isAmbiguous = false) (answered : table.entities found ≠ []) :
    ∃ after, (searchLevel query scope).Ends table trail (.ok ([(query.name, table.entities found)], after)) := by
  have hcollect := ends_collectScopes exact table (table.opening query trail scope)
    (table.opened query trail scope)
  rw [answers, Table.settle, if_neg (by simp [clear])] at hcollect
  have hsatisfied : query.isSatisfied (Found.under query.name (table.entities found)) = true := by
    simp [Found.isSatisfied_under exact, answered]
  obtain ⟨proved, hinherited⟩ := ends_addInherited_satisfied acyclic hsatisfied
    (table.opening query trail scope)
  rw [← Found.under_of_ne_nil answered]
  exact ⟨_, (ends_levelHits_opened query table trail scope).bind_ok (hcollect.bind_ok hinherited)⟩

/-- If they amount to nothing, the bases of the scope are searched. -/
theorem ends_searchLevel_silent (acyclic : table.AcyclicBases scope)
    (clear : (table.classify found).isAmbiguous = false) (silent : table.entities found = []) :
    ∃ hits visited proved,
      Explores table.classBases (table.supply query) {} [] (table.classBases scope)
          (table.opening query trail scope).virtualBases hits visited ∧
        (searchLevel query scope).Ends table trail ((table.reported query hits).map fun found =>
          (found, { table.opening query trail scope with virtualBases := visited, acyclic := proved })) := by
  have hcollect := ends_collectScopes exact table (table.opening query trail scope)
    (table.opened query trail scope)
  rw [answers, Table.settle, if_neg (by simp [clear]), silent] at hcollect
  obtain ⟨hits, visited, proved, hrun, hinherited⟩ := ends_addInherited exact acyclic
    (table.opening query trail scope)
  exact ⟨hits, visited, proved, hrun,
    (ends_levelHits_opened query table trail scope).bind_ok (hcollect.bind_ok hinherited)⟩

end Exact

section Completing

variable (represented : table.Represented) (completion : query.IsCompletion)
  (names : ∀ scope, ∀ hit ∈ table.scopeHits query scope, wanted hit.1)

include represented completion

/-- What completion lists for the scopes that are opened under one of the names. -/
theorem lookup_openedListing (isMatch : table.nameMatches query name = true) (trail : Trail) (scope : SymbolId) :
    (table.openedListing query trail scope).lookup name = (Found.under name (table.offered
      ((table.opened query trail scope).flatMap (table.answers (query.exactly name))))).lookup name := by
  rw [Table.openedListing, Table.lookup_listing, Table.filter_flatMap_scopeHits represented completion isMatch,
    List.map_flatMap]
  rfl

/-- What completion lists at a level under one name, given what it lists for the bases, announces how the exact
lookup of the name ends there. -/
theorem announces_level (isMatch : table.nameMatches query name = true) (acyclic : table.AcyclicBases scope)
    (alongside : trail'.Alongside trail) {inherited : Found} {counted : List (Subobject × SymbolId)}
    {visited : List SymbolId}
    (survey : Surveys table.classBases (table.supply (query.exactly name)) {} [] (table.classBases scope)
      (table.opening query trail scope).virtualBases counted visited)
    (gathered : table.Gathered (query.exactly name) counted (inherited.lookup name)) :
    ∃ outcome, (searchLevel (query.exactly name) scope).Ends table trail' outcome ∧
      Table.Announces name (((table.openedListing query trail scope).fill inherited).lookup name)
        (outcome.map (·.1)) ∧
      ∀ after', outcome = .ok ([], after') →
        after'.Alongside { table.opening query trail scope with virtualBases := visited } := by
  have hexact := completion.exactly name
  have hanswers : _ = (table.opened query trail scope).flatMap (table.answers (query.exactly name)) :=
    Table.answers_opened_exactly alongside
  have hopening : (table.opening (query.exactly name) trail' scope).Alongside
      (table.opening query trail scope) := Table.opening_exactly alongside
  rw [Found.lookup_fill, lookup_openedListing represented completion isMatch]
  generalize hfound : (table.opened query trail scope).flatMap (table.answers (query.exactly name)) = found
    at hanswers
  cases hclear : (table.classify found).isAmbiguous with
  | true =>
      have hoffered : table.offered found ≠ [] :=
        mt Table.offered_eq_nil_iff.mp (Candidates.entities_ne_nil_of_isAmbiguous hclear)
      refine ⟨_, ends_searchLevel_ambiguous hexact hanswers hclear, ?_, fun _ impossible => nomatch impossible⟩
      rw [Found.under_of_ne_nil hoffered, Found.lookup_cons_self, Option.some_or]
      exact .ambiguous
  | false =>
      rw [Table.offered_of_clear hclear]
      by_cases hentities : table.entities found = []
      · -- The scopes amount to nothing, so it is the bases that matter.
        obtain ⟨nominated, hcons⟩ := table.opened_eq_cons query trail scope
        have hsilent : table.supply (query.exactly name) scope = [] := by
          rw [hcons, List.flatMap_cons] at hfound
          exact Table.entities_eq_nil_of_append (hfound ▸ hentities)
        obtain ⟨hits, entered, known, hrun, hends⟩ :=
          ends_searchLevel_silent hexact hanswers acyclic hclear hentities
        rw [hopening.virtualBases] at hrun
        obtain ⟨hannounces, hsame⟩ := Table.announces_reported hrun survey hsilent gathered
        rw [hentities, Found.under_nil, List.lookup_nil, Option.none_or]
        cases hreported : table.reported (query.exactly name) hits with
        | error error =>
            rw [hreported] at hends hannounces
            exact ⟨_, hends, hannounces, fun _ impossible => nomatch impossible⟩
        | ok level =>
            rw [hreported] at hends hannounces
            refine ⟨_, hends, hannounces, fun after' nothing => ?_⟩
            obtain ⟨rfl, rfl⟩ : level = [] ∧ _ = after' := Prod.ext_iff.mp (Except.ok.inj nothing)
            exact ⟨hopening.fresh, hopening.pending, hsame hannounces.eq_none⟩
      · obtain ⟨after, hends⟩ := ends_searchLevel_answered hexact hanswers acyclic hclear hentities
        refine ⟨_, hends, ?_, fun _ impossible => nomatch impossible⟩
        rw [Found.under_of_ne_nil hentities, Found.lookup_cons_self, Option.some_or]
        exact .found hentities

include names

/-- At each level, either there is circular inheritance and completion reports it, or it lists what the scopes
that are opened amount to, and for the other names what the bases of the scope list. -/
theorem ends_searchLevel_completing (trail : Trail) (isProved : table.Proved trail.acyclic) (scope : SymbolId) :
    (table.CircularAbove scope ∧ ∃ on, (searchLevel query scope).Ends table trail
        (.error (table.circular on))) ∨
      (table.AcyclicBases scope ∧ ∃ (inherited : Found) (visited proved : List SymbolId) (ambiguous : List Name),
        (searchLevel query scope).Ends table trail
          (.ok ((table.openedListing query trail scope).fill inherited,
            { table.opening query trail scope with virtualBases := visited, acyclic := proved, ambiguous })) ∧
        table.Proved proved ∧ ((table.openedListing query trail scope).fill inherited).Lists wanted ∧
        ∀ name, table.nameMatches query name = true → ∃ counted,
          Surveys table.classBases (table.supply (query.exactly name)) {} [] (table.classBases scope)
              (table.opening query trail scope).virtualBases counted visited ∧
            table.Gathered (query.exactly name) counted (inherited.lookup name) ∧
            table.Marks (query.exactly name) [(scope, false)]
              (table.Clashes (query.exactly name) (table.opened query trail scope))
              (((table.openedListing query trail scope).fill inherited).lookup name)
              (name ∈ trail.ambiguous) (name ∈ ambiguous) ∧
            (¬ table.Concordant (query.exactly name) counted → name ∈ ambiguous)) := by
  have hopened := ends_levelHits_opened query table trail scope
  obtain ⟨noted, hcollect, hnotes⟩ := ends_collectLevel_completing completion table
    (table.opening query trail scope) ((table.opened query trail scope).flatMap (table.scopeHits query))
  obtain ⟨-, hacyclicKept, hambiguousKept⟩ := table.opening_keeps query trail scope
  rw [hambiguousKept] at hnotes
  have hproved : table.Proved (table.opening query trail scope).acyclic := by
    rwa [hacyclicKept]
  rcases ends_addInherited_completing represented completion names
      { table.opening query trail scope with ambiguous := noted } hproved scope
      (table.openedListing query trail scope) with
    ⟨circular, on, hcircular⟩ |
      ⟨hacyclic, inherited, visited, proved, ambiguous, hinherited, hproved', hlists, hcounts⟩
  · exact .inl ⟨circular, on, hopened.bind_ok (hcollect.bind_ok hcircular)⟩
  · right
    have hlevel : (table.openedListing query trail scope).Lists wanted := by
      refine table.lists_listing fun hit member => ?_
      obtain ⟨other, -, hhit⟩ := List.mem_flatMap.mp member
      exact names other hit hhit
    refine ⟨hacyclic, inherited, visited, proved, ambiguous, hopened.bind_ok (hcollect.bind_ok hinherited),
      hproved', hlevel.fill hlists, fun name isMatch => ?_⟩
    obtain ⟨counted, hsurvey, hgathered, hmarks⟩ := hcounts name isMatch
    have hclashes := Table.clashesAt_flatMap represented completion isMatch (table.opened query trail scope)
    refine ⟨counted, hsurvey, hgathered, ?_, hmarks.noted⟩
    refine .base ((hnotes name).trans (or_congr_right hclashes)) hsurvey hmarks fun none => ?_
    rw [Found.lookup_fill, lookup_openedListing represented completion isMatch, Option.or_eq_none_iff] at none
    refine ⟨fun clashes => ?_, none.2⟩
    have hoffered := mt Table.offered_eq_nil_iff.mp (Candidates.entities_ne_nil_of_isAmbiguous clashes)
    rw [Found.under_of_ne_nil hoffered, Found.lookup_cons_self] at none
    cases none.1

/-- If there is no circular inheritance, what completion lists under a name announces how the exact lookup of the
name ends there.  If that finds nothing, it goes on alongside. -/
theorem announces_searchLevel (trail : Trail) (isProved : table.Proved trail.acyclic) (scope : SymbolId) :
    (table.CircularAbove scope ∧ ∃ on, (searchLevel query scope).Ends table trail
        (.error (table.circular on))) ∨
      ∃ (level : Found) (after : Trail), (searchLevel query scope).Ends table trail (.ok (level, after)) ∧
        table.Proved after.acyclic ∧ level.Lists wanted ∧
        ∀ name, table.nameMatches query name = true → ∀ trail' : Trail, trail'.Alongside trail → ∃ outcome,
          (searchLevel (query.exactly name) scope).Ends table trail' outcome ∧
            Table.Announces name (level.lookup name) (outcome.map (·.1)) ∧
            ∀ after', outcome = .ok ([], after') → after'.Alongside after := by
  rcases ends_searchLevel_completing represented completion names trail isProved scope with
    circular | ⟨hacyclic, inherited, visited, proved, ambiguous, hlevel, hproved, hlists, hcounts⟩
  · exact .inl circular
  · refine .inr ⟨_, _, hlevel, hproved, hlists, fun name isMatch trail' alongside => ?_⟩
    obtain ⟨counted, hsurvey, hgathered, -⟩ := hcounts name isMatch
    obtain ⟨outcome, hends, hannounces, honward⟩ :=
      announces_level represented completion isMatch hacyclic alongside hsurvey hgathered
    exact ⟨outcome, hends, hannounces, fun after' nothing =>
      ⟨(honward after' nothing).fresh, (honward after' nothing).pending, (honward after' nothing).virtualBases⟩⟩

/-! ## The whole walk -/

/-- The walk of completion either reports that there is circular inheritance, or keeps what was found and lists
under each of the other names what announces how the exact walk for the name ends. -/
theorem announces_walk (unstopped : query.options.stopScope = none) (chain : List SymbolId) (found : Found)
    (trail : Trail) (isProved : table.Proved trail.acyclic) (lists : found.Lists wanted) :
    ((∃ scope ∈ chain, table.CircularAbove scope) ∧ ∃ on, (walk query chain found).Ends table trail
        (.error (table.circular on))) ∨
      ∃ (result : Found) (after : Trail), (walk query chain found).Ends table trail (.ok (result, after)) ∧
        result.Lists wanted ∧ (∀ name ids, found.lookup name = some ids → result.lookup name = some ids) ∧
        ∀ name, table.nameMatches query name = true → found.lookup name = none →
          ∀ trail' : Trail, trail'.Alongside trail → ∃ outcome,
            (walk (query.exactly name) chain []).Ends table trail' outcome ∧
              Table.Announces name (result.lookup name) (outcome.map (·.1)) := by
  induction chain generalizing found trail with
  | nil =>
      refine .inr ⟨found, trail, .pure found, lists, fun _ _ listed => listed,
        fun name _ missing trail' _ => ⟨_, .pure [], ?_⟩⟩
      rw [missing]
      exact .absent
  | cons scope outer ih =>
      rcases announces_searchLevel represented completion names trail isProved scope with
        ⟨circular, on, hcircular⟩ | ⟨level, after, hlevel, hproved, hlists, hannounces⟩
      · exact .inl ⟨⟨scope, List.mem_cons_self, circular⟩, on, ends_walk_of_error outer hcircular found⟩
      have hfurther : ∀ outcome, (walk query outer (found.fill level)).Ends table after outcome →
          (walk query (scope :: outer) found).Ends table trail outcome := fun _ further =>
        ends_walk_of_unsatisfied outer unstopped hlevel (completion.unsatisfied _) further
      rcases ih (found.fill level) after hproved (lists.fill hlists) with
        ⟨⟨further, member, circular⟩, on, hcircular⟩ | ⟨result, last, hwalk, hresult, hkeeps, hmatches⟩
      · exact .inl ⟨⟨further, List.mem_cons_of_mem scope member, circular⟩, on, hfurther _ hcircular⟩
      refine .inr ⟨result, last, hfurther _ hwalk, hresult, fun name ids listed => hkeeps name ids ?_,
        fun name isMatch missing trail' alongside => ?_⟩
      · rw [Found.lookup_fill, listed, Option.some_or]
      · obtain ⟨outcome, hends, hthere, honward⟩ := hannounces name isMatch trail' alongside
        have hfill : (found.fill level).lookup name = level.lookup name := by
          rw [Found.lookup_fill, missing, Option.none_or]
        generalize level.lookup name = listed at hfill hthere
        generalize hended : outcome.map (·.1) = ended at hthere
        -- Either the name is settled at this level, which the further ones leave as it is, or both go on.
        cases hthere with
        | absent =>
            obtain ⟨beyond, rfl⟩ : ∃ beyond, outcome = .ok ([], beyond) := by
              rcases outcome with error | ⟨here, beyond⟩ <;> cases hended
              exact ⟨beyond, rfl⟩
            obtain ⟨outcome, hexact, hmatch⟩ := hmatches name isMatch hfill beyond (honward beyond rfl)
            have hunstopped : (query.exactly name).options.stopScope = none := unstopped
            exact ⟨outcome, ends_walk_of_nothing outer hunstopped hends hexact, hmatch⟩
        | @found ids nonempty =>
            obtain ⟨beyond, rfl⟩ : ∃ beyond, outcome = .ok ([(name, ids)], beyond) := by
              rcases outcome with error | ⟨here, beyond⟩ <;> cases hended
              exact ⟨beyond, rfl⟩
            refine ⟨_, ends_walk_of_found outer hends ((completion.exactly name).satisfied ids), ?_⟩
            rw [hkeeps name ids hfill]
            exact .found nonempty
        | @ambiguous ids =>
            obtain rfl : outcome = .error (.ambiguous name) := by
              rcases outcome with error | ⟨here, beyond⟩ <;> cases hended
              rfl
            refine ⟨_, ends_walk_of_error outer hends [], ?_⟩
            rw [hkeeps name ids hfill]
            exact .ambiguous

end Completing

end Search

/-! ## The order of the list -/

namespace Table

variable {table : Table} {query : Query} {name : Name} {a b : Name}

/-- One name comes before another one: by the lowercased spellings, and if these are the same by the spellings
themselves. -/
def ComesBefore (table : Table) (a b : Name) : Prop :=
  Text.lowercase (table.spelling a) < Text.lowercase (table.spelling b) ∨
    Text.lowercase (table.spelling a) = Text.lowercase (table.spelling b) ∧ table.spelling a < table.spelling b

theorem namePrecedes_iff : table.namePrecedes a b = true ↔
    Text.lowercase (table.spelling a) < Text.lowercase (table.spelling b) ∨
      Text.lowercase (table.spelling a) = Text.lowercase (table.spelling b) ∧
        table.spelling a ≤ table.spelling b := by
  simp only [namePrecedes, Bool.or_eq_true, Bool.and_eq_true, decide_eq_true_eq, beq_iff_eq,
    Bool.not_eq_true', decide_eq_false_iff_not, String.not_lt]

theorem namePrecedes_trans {c : Name} (first : table.namePrecedes a b = true)
    (second : table.namePrecedes b c = true) : table.namePrecedes a c = true := by
  rw [namePrecedes_iff] at first second ⊢
  rcases first with lower | ⟨same, le⟩
  · rcases second with lower' | ⟨same', -⟩
    · exact .inl (String.lt_trans lower lower')
    · exact .inl (same' ▸ lower)
  · rcases second with lower' | ⟨same', le'⟩
    · exact .inl (same ▸ lower')
    · exact .inr ⟨same.trans same', String.le_trans le le'⟩

theorem namePrecedes_total (table : Table) (a b : Name) :
    (table.namePrecedes a b || table.namePrecedes b a) = true := by
  rw [Bool.or_eq_true, namePrecedes_iff, namePrecedes_iff]
  by_cases same : Text.lowercase (table.spelling a) = Text.lowercase (table.spelling b)
  · rcases String.le_total (table.spelling a) (table.spelling b) with le | le
    · exact .inl (.inr ⟨same, le⟩)
    · exact .inr (.inr ⟨same.symm, le⟩)
  · rcases String.le_total (Text.lowercase (table.spelling a)) (Text.lowercase (table.spelling b)) with le | le
    · exact .inl (.inl (Std.lt_of_le_of_ne le same))
    · exact .inr (.inl (Std.lt_of_le_of_ne le (Ne.symm same)))

/-- Different names with different spellings are in strict order. -/
theorem comesBefore_of_namePrecedes (precedes : table.namePrecedes a b = true)
    (differ : table.spelling a ≠ table.spelling b) : table.ComesBefore a b :=
  (namePrecedes_iff.mp precedes).imp_right fun ⟨same, le⟩ => ⟨same, Std.lt_of_le_of_ne le differ⟩

/-- The query looks for the name, which is interned where all names are. -/
def Wants (table : Table) (query : Query) (name : Name) : Prop :=
  table.nameMatches query name = true ∧ (table.NamesInterned → name.index < table.interner.size)

theorem wants_of_mem_scopeHits (completion : query.IsCompletion) (scope : SymbolId) :
    ∀ hit ∈ table.scopeHits query scope, table.Wants query hit.1 := by
  intro hit member
  obtain ⟨hmember, -⟩ := List.mem_filter.mp member
  rcases List.mem_append.mp hmember with hmember | renamed
  · rcases List.mem_append.mp hmember with declared | parameter
    · rw [memberHits, if_pos completion.completing] at declared
      obtain ⟨hlisted, isMatch⟩ := List.mem_filter.mp declared
      obtain ⟨id, -, rfl⟩ := List.mem_map.mp hlisted
      exact ⟨isMatch, fun interned => interned.declared id⟩
    · obtain ⟨hlisted, isMatch⟩ := List.mem_filter.mp parameter
      obtain ⟨id, -, rfl⟩ := List.mem_map.mp hlisted
      exact ⟨isMatch, fun interned => interned.declared id⟩
  · obtain ⟨hlisted, isMatch⟩ := List.mem_filter.mp (List.mem_mergeSort.mp renamed)
    refine ⟨isMatch, fun interned => ?_⟩
    cases hdata : (table.symbol scope).templateData? with
    | none => simp [hdata] at hlisted
    | some data => exact interned.renamed scope data hdata hit (by simpa [hdata] using hlisted)

/-- The sorted list of names that are wanted is in strict order. -/
theorem NamesInterned.pairwise_comesBefore (interned : table.NamesInterned) {found : Found}
    (lists : found.Lists (table.Wants query)) :
    (found.mergeSort fun a b => table.namePrecedes a.1 b.1).Pairwise
      fun a b => table.ComesBefore a.1 b.1 := by
  have htrans : ∀ a b c : Name × List SymbolId, table.namePrecedes a.1 b.1 = true →
      table.namePrecedes b.1 c.1 = true → table.namePrecedes a.1 c.1 = true := fun _ _ _ => namePrecedes_trans
  have hsorted := List.pairwise_mergeSort htrans (fun a b => table.namePrecedes_total a.1 b.1) found
  have hlists := lists.of_perm (List.mergeSort_perm found fun a b => table.namePrecedes a.1 b.1)
  refine (hsorted.and (List.pairwise_map.mp hlists.nodup)).imp_of_mem ?_
  rintro a b ha hb ⟨precedes, differ⟩
  refine comesBefore_of_namePrecedes precedes fun same => differ ?_
  exact interned.spelling_inj ((hlists.wanted a.1 (List.mem_map_of_mem ha)).2 interned)
    ((hlists.wanted b.1 (List.mem_map_of_mem hb)).2 interned) same

end Table

/-! ## The whole list -/

namespace Analysis

variable {table after : Table} {scope : SymbolId} {stem : String} {filter : Filter} {result : LookupResult}
  {name : Name}

/-- An unqualified lookup walks outward. -/
theorem answer_unqualified {options : LookupOptions} (unqualified : options.qualified = false)
    (start : SymbolId) :
    Search.answer (table.query name options) start = (Search.table >>= fun table' =>
      Search.walk (table.query name options) (table'.scopeChain start) []) := by
  show (Search.table >>= fun table' => (if options.qualified then _ else _ : Search Found)) = _
  simp only [unqualified, Bool.false_eq_true, if_false]

/-- The query for the exact names of a completion is that of an unqualified lookup with its filter. -/
theorem query_exactly (table : Table) (beginning name : Name) (filter : Filter) :
    (table.query beginning { completing := true, filter }).exactly name = table.query name { filter } :=
  rfl

/-- What a completion list shows for a name announces how the exact lookup of the name ends. -/
theorem announces_lookup {listed : Option (List SymbolId)} {outcome : Except SemanticError (Found × Trail)}
    (ends : (Search.walk (table.query name { filter }) (table.scopeChain (table.resolveNamespace scope)) []).Ends
      table { fresh := table.ids } outcome)
    (announces : Table.Announces name listed (outcome.map (·.1))) :
    (listed = none ↔ ∃ exact, lookup scope name { filter } table = .ok exact table ∧ exact.entries = []) ∧
      ∀ exact last, lookup scope name { filter } table = .ok exact last → exact.entries ≠ [] →
        listed = some exact.symbols := by
  have hexact : LookupOptions.IsExact { filter } := ⟨rfl, rfl⟩
  have hanswer : (Search.answer (table.query name { filter }) (table.resolveNamespace scope)).Ends table
      { fresh := table.ids } outcome := by
    rw [answer_unqualified rfl]
    exact .read ends
  rcases outcome with error | ⟨entries, trail⟩
  · rw [lookup_of_error hexact hanswer]
    refine ⟨⟨fun none => ?_, fun ⟨_, impossible, _⟩ => nomatch impossible⟩,
      fun _ _ impossible => nomatch impossible⟩
    rw [none] at announces
    cases announces
  · rw [lookup_of_ends hexact hanswer]
    generalize hended : Except.map (·.1) (Except.ok (entries, trail)) = ended at announces
    cases announces with
    | absent =>
        cases hended
        refine ⟨⟨fun _ => ⟨_, rfl, rfl⟩, fun _ => rfl⟩, fun exact last same something => ?_⟩
        cases same
        exact absurd rfl something
    | @found ids nonempty =>
        cases hended
        refine ⟨⟨(fun impossible => nomatch impossible), ?_⟩, fun exact last same _ => ?_⟩
        · rintro ⟨exact, same, nothing⟩
          cases same
          cases nothing
        · cases same
          rfl
    | ambiguous => cases hended

/-- Completion succeeds if there is no circular inheritance at the scopes of its walk. -/
theorem lookup_completing_of_acyclic (table : Table) (scope : SymbolId) (represented : table.Represented)
    (completing : table.config.completion = true)
    (acyclic : ∀ outer ∈ table.scopeChain (table.resolveNamespace scope), table.AcyclicBases outer)
    (beginning : Name) (filter : Filter) :
    ∃ result, lookup scope beginning { completing := true, filter } table = .ok result table := by
  have hcompletion : (table.query beginning { completing := true, filter }).IsCompletion := ⟨rfl, rfl⟩
  rcases Search.announces_walk represented hcompletion (fun _ _ _ => trivial) rfl
      (table.scopeChain (table.resolveNamespace scope)) [] { fresh := table.ids } (.nil table)
      (.nil fun _ => True) with
    ⟨⟨outer, member, circular⟩, -⟩ | ⟨level, last, hwalk, -⟩
  · exact absurd circular (Table.not_circularAbove_iff.mpr (acyclic outer member))
  · have hanswer : Search.answer (table.query beginning { completing := true, filter })
        (table.resolveNamespace scope) { fresh := table.ids } table = .ok (level, last) table := by
      rw [answer_unqualified rfl]
      exact hwalk
    refine ⟨table.lookupResult (table.query beginning { completing := true, filter }) level last.ambiguous, ?_⟩
    rw [lookup, get_bind, if_neg (by simp [completing])]
    exact bind_ok hanswer

section List

variable (represented : table.Represented)
  (listed : lookupCompletions scope stem filter table = .ok result after)

include represented listed

/-- A completion list names what begins with the text, whatever the case: each name once, in the order of the
lowercased spellings and then of the spellings, which tell the names apart where all names are interned.  It has
no entry for a name that begins with the text exactly if an unqualified lookup of the name from the same scope,
with the same filter, finds nothing, and whatever such a lookup finds is the entry. -/
theorem completions_agree_with_lookup :
    after = (table.intern stem).2 ∧
    (∀ entry ∈ result.entries, entry.1.isEmpty = false ∧
      Text.startsWith (Text.lowercase (after.spelling entry.1)) (Text.lowercase stem) = true) ∧
    (result.entries.map (·.1)).Nodup ∧
    (table.NamesInterned → result.entries.Pairwise fun a b => after.ComesBefore a.1 b.1) ∧
    ∀ name, name.isEmpty = false →
      Text.startsWith (Text.lowercase (after.spelling name)) (Text.lowercase stem) = true →
      ((∀ entry ∈ result.entries, entry.1 ≠ name) ↔
        ∃ exact, lookup scope name { filter } after = .ok exact after ∧ exact.entries = []) ∧
      ∀ exact last, lookup scope name { filter } after = .ok exact last → exact.entries ≠ [] →
        (name, exact.symbols) ∈ result.entries := by
  have hrepresented : (table.intern stem).2.Represented := represented.of_symbols rfl
  have hinterned : table.NamesInterned → (table.intern stem).2.NamesInterned := fun interned =>
    interned.intern stem
  have hstem : (table.intern stem).2.spelling (table.intern stem).1 = stem := table.interner.lookup_intern stem
  have hlisted : lookup scope (table.intern stem).1 { completing := true, filter } (table.intern stem).2 =
      .ok result after := listed
  generalize (table.intern stem).1 = beginning at hlisted hstem
  generalize (table.intern stem).2 = now at hlisted hstem hrepresented hinterned ⊢
  obtain ⟨⟨found, trail⟩, hanswer, rfl⟩ := answer_of_lookup_ok hlisted
  have hcompletion : (now.query beginning { completing := true, filter }).IsCompletion := ⟨rfl, rfl⟩
  have hmatch : ∀ name, now.nameMatches (now.query beginning { completing := true, filter }) name =
      (!name.isEmpty && Text.startsWith (Text.lowercase (now.spelling name)) (Text.lowercase stem)) := by
    intro name
    rw [← hstem]
    rfl
  rw [answer_unqualified rfl] at hanswer
  rcases Search.announces_walk hrepresented hcompletion (Table.wants_of_mem_scopeHits hcompletion) rfl
      (now.scopeChain (now.resolveNamespace scope)) [] { fresh := now.ids } (.nil now) (.nil _) with
    ⟨-, on, hcircular⟩ | ⟨level, last, hwalk, hlists, -, hannounces⟩
  · cases hanswer.symm.trans hcircular
  obtain ⟨⟨rfl, rfl⟩, rfl⟩ : (level = found ∧ last = trail) ∧ now = after := by
    cases hanswer.symm.trans hwalk
    exact ⟨⟨rfl, rfl⟩, rfl⟩
  have hperm : (now.lookupResult (now.query beginning { completing := true, filter }) level
      last.ambiguous).entries.Perm level := List.mergeSort_perm level _
  have hentries := hlists.of_perm hperm
  refine ⟨rfl, fun entry member => ?_, hentries.nodup, ?_, fun name named begins => ?_⟩
  · have hwanted := (hentries.wanted entry.1 (List.mem_map_of_mem member)).1
    rw [hmatch] at hwanted
    simpa using hwanted
  · exact fun interned => (hinterned interned).pairwise_comesBefore hlists
  · have hlookup := hlists.lookup_eq_of_perm hperm name
    obtain ⟨outcome, hends, hannounced⟩ := hannounces name (by rw [hmatch, named, begins]; rfl) rfl
      { fresh := now.ids } ⟨rfl, rfl, rfl⟩
    rw [query_exactly] at hends
    obtain ⟨hmissing, hfound⟩ := announces_lookup hends hannounced
    rw [← hlookup] at hmissing hfound
    refine ⟨?_, fun exact last same something => hentries.mem_iff.mpr (hfound exact last same something)⟩
    rw [← hmissing, Found.lookup_eq_none_iff, List.mem_map]
    push Not
    rfl

end List

/-- A base class has an object, the class 3 derives from it virtually, and there is a function in the global
scope. -/
def declareListed : List Action :=
  [.perform (.intern "Alpha"), .perform (.intern "Base"), .perform (.intern "Derived"),
    .perform (.intern "alphabet"), .perform (.createClass ⟨18⟩ .cls), .perform (.addSymbol ⟨0⟩ ⟨1⟩),
    .perform (.createBasic ⟨17⟩ (.ofKind .int)), .perform (.addSymbol ⟨1⟩ ⟨2⟩),
    .perform (.createClass ⟨19⟩ .cls), .perform (.addSymbol ⟨0⟩ ⟨3⟩),
    .perform (.addParent ⟨3⟩ ⟨1⟩ .pub true), .perform (.createFunction ⟨20⟩ .function),
    .perform (.addSymbol ⟨0⟩ ⟨4⟩)]

/-- The table with these declarations, in completion mode. -/
@[irreducible]
def listedTable : Table := (Table.new { completion := true }).ran declareListed

/-- The table is sound, and its names are interned. -/
theorem represented_listedTable : listedTable.Represented ∧ listedTable.NamesInterned := by
  refine ⟨?represented, ?distinct, fun id => ?declared, fun id data holds => ?renamed⟩
  case represented =>
    have hgrounded : Grounded ((Table.new { completion := true }).ran declareListed) :=
      Reached.ran (.new _) (by decide +kernel)
    rw [listedTable]
    exact hgrounded.represented_sheltered.holds
  case distinct =>
    unfold Interner.Distinct
    decide +kernel
  case declared =>
    have hdeclared := listedTable.forall_symbol (fun symbol => symbol.name.index < 21) (by decide)
      (by decide +kernel) id
    exact Nat.lt_of_lt_of_le (of_decide_eq_true hdeclared) (by decide +kernel)
  case renamed =>
    have hnone := listedTable.forall_symbol (fun symbol => symbol.templateData?.isNone) rfl
      (by decide +kernel) id
    rw [holds] at hnone
    cases hnone

/-- In the derived class a list is given, with what lookups of the object and of the function find. -/
theorem derived_class_completed :
    listedTable.Represented ∧
      ∃ result after, lookupCompletions ⟨3⟩ "AL" .any listedTable = .ok result after ∧
        (result.entries.Pairwise fun a b => after.ComesBefore a.1 b.1) ∧
        ∀ name ∈ [(⟨17⟩ : Name), ⟨20⟩],
          ((∀ entry ∈ result.entries, entry.1 ≠ name) ↔
            ∃ exact, lookup ⟨3⟩ name {} after = .ok exact after ∧ exact.entries = []) ∧
          ∀ exact last, lookup ⟨3⟩ name {} after = .ok exact last → exact.entries ≠ [] →
            (name, exact.symbols) ∈ result.entries := by
  obtain ⟨hrepresented, hinterned⟩ := represented_listedTable
  obtain ⟨result, hresult⟩ := lookup_completing_of_acyclic (listedTable.intern "AL").2 ⟨3⟩
    (hrepresented.of_symbols rfl) (by decide +kernel) (fun outer _ => .of_older (by decide +kernel) outer)
    (listedTable.intern "AL").1 .any
  have hlisted : lookupCompletions ⟨3⟩ "AL" .any listedTable = .ok result (listedTable.intern "AL").2 := hresult
  have hbegins : ([⟨17⟩, ⟨20⟩] : List Name).all (fun name => !name.isEmpty && Text.startsWith
      (Text.lowercase ((listedTable.intern "AL").2.spelling name)) (Text.lowercase "AL")) = true := by
    decide +kernel
  obtain ⟨-, -, -, hsorted, hagree⟩ := completions_agree_with_lookup hrepresented hlisted
  refine ⟨hrepresented, result, _, hlisted, hsorted hinterned, fun name member => ?_⟩
  have hname := List.all_eq_true.mp hbegins name member
  rw [Bool.and_eq_true, Bool.not_eq_true'] at hname
  exact hagree name hname.1 hname.2

end Analysis

end NameBinding
