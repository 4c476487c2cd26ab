import NameBinding.Proofs.Lookup.Completion

/-!
# What completion notes as ambiguous

Completion notes a name wherever it comes upon an ambiguity, and goes on.  It comes upon more of them than an
exact lookup of the name, which ends at the first level that supplies the name and does not look behind a class
that does.  So a name may be noted although it is found.

* `Table.walked`: the scopes that a walk searches together, level by level.
* `Table.LevelsClash`: at some level of a walk the declarations of the name exclude each other.
* `Table.BasesClash`: a search of the bases of a class finds the name ambiguous.
* `Table.HidesNoVirtualBase`: no class that supplies the name has a virtual base.
* `Search.marks_walk`: a walk notes a name for such a reason only.
* `Search.noted_of_walk_error`: a walk notes a name that the exact walk finds ambiguous.

The main statement is `completions_note_ambiguities`.
-/

namespace NameBinding

open Relation

namespace Table

variable {table : Table} {query : Query} {id scope : SymbolId} {chain : List SymbolId} {trail other : Trail}

/-! ## Ambiguous bases -/

/-- A search of the bases of a class finds the name ambiguous. -/
def BasesClash (table : Table) (query : Query) (id : SymbolId) : Prop :=
  (Search.lookupInParents query id).Ends table {} (.error (.ambiguous query.name))

/-- A search of the bases finds the name ambiguous exactly if the subobjects that it meets do not agree. -/
theorem exists_explores (exact : query.IsExact) (acyclic : table.AcyclicBases id) :
    ∃ hits after, Explores table.classBases (table.supply query) {} [] (table.classBases id) [] hits after ∧
      (table.BasesClash query id ↔ ¬ table.Concordant query hits) := by
  obtain ⟨hits, after, hrun, hends⟩ :=
    Search.collates_searchParents exact acyclic (.nil table.Derives id) rfl {} {}
  have hsearch : (Search.lookupInParents query id).Ends table {}
      ((table.reported query hits).map fun found => (found, { virtualBases := after })) := .read hends
  refine ⟨hits, after, hrun, ?_⟩
  by_cases concordant : table.Concordant query hits
  · rw [reported_of_concordant concordant] at hsearch
    refine iff_of_false (fun clash => ?_) (not_not_intro concordant)
    cases hsearch.unique clash
  · rw [reported_of_not_concordant concordant] at hsearch
    exact iff_of_true hsearch concordant

/-- Whatever a search that looks behind every class counts, a search that begins anew meets it, too. -/
theorem Discordant.basesClash (discordant : table.Discordant query id) (exact : query.IsExact)
    (acyclic : table.AcyclicBases id) : table.BasesClash query id := by
  obtain ⟨visited, hits, after, survey, clash⟩ := discordant
  obtain ⟨met, last, hrun, hclash⟩ := exists_explores exact acyclic
  rw [hclash]
  intro concordant
  have hacyclic : ∀ link ∈ table.classBases id, ¬ ReflTransGen (ListsBase table.classBases) link.1 id := by
    intro link listed further
    exact acyclic id .refl (.head' (HasBase.derives ⟨link.2, listed⟩) (derives_of_hasBase further))
  -- What counts is among what the search meets, and if it disagrees, so does that.
  have hmet := survey.met hrun hacyclic
  have hnodup := List.Nodup.of_map _ (survey.nodup fun root impossible => nomatch impossible)
  refine clash ⟨fun hit member => concordant.1 hit (hmet hit member), ?_⟩
  exact hnodup.pairwise_of_forall_ne fun a ha b hb differ => concordant.2.agree (hmet a ha) (hmet b hb) differ

/-- Where there are no virtual bases, both searches meet the same. -/
theorem Harmonious.not_basesClash (harmonious : table.Harmonious query id) (exact : query.IsExact)
    (acyclic : table.AcyclicBases id) (plain : NoVirtualAbove table.classBases id) :
    ¬ table.BasesClash query id := by
  obtain ⟨visited, hits, after, survey, concordant⟩ := harmonious
  obtain ⟨met, last, hrun, hclash⟩ := exists_explores exact acyclic
  -- Without virtual bases it does not matter which ones had been entered.
  have hanew := survey.rebase plain.links []
  obtain ⟨rfl, -⟩ := hrun.eq_of_survey hanew fun link listed above further _ base =>
    fun again => plain base (.head ⟨link.2, listed⟩ (further.trans again))
  rw [hclash]
  exact not_not_intro concordant

/-- No class above the scope that supplies the name has a virtual base, nor has any class above such a class. -/
def HidesNoVirtualBase (table : Table) (query : Query) (scope : SymbolId) : Prop :=
  ∀ above, TransGen table.HasBase scope above → table.supply query above ≠ [] →
    NoVirtualAbove table.classBases above

/-! ## The levels of a walk -/

/-- The scopes that a walk searches together, level by level. -/
def walked (table : Table) (query : Query) : List SymbolId → Trail → List (List SymbolId)
  | [], _ => []
  | scope :: outer, trail =>
      table.opened query trail scope :: walked table query outer (table.opening query trail scope)

/-- It only matters which namespaces are fresh and which directives wait. -/
theorem walked_congr (fresh : trail.fresh = other.fresh) (pending : trail.pending = other.pending) :
    table.walked query chain trail = table.walked query chain other := by
  induction chain generalizing trail other with
  | nil => rfl
  | cons scope outer ih =>
      have hopened : table.opened query trail scope = table.opened query other scope := by
        rw [opened, opened, fresh, pending]
      have houter : table.walked query outer (table.opening query trail scope) =
          table.walked query outer (table.opening query other scope) := by
        refine ih ?_ ?_ <;> unfold opening <;> split
        · rw [Trail.passing, Trail.passing, fresh, pending]
        · exact fresh
        · rw [Trail.passing, Trail.passing, fresh, pending]
        · exact pending
      rw [walked, walked, hopened, houter]

/-- At some level of the walk through the chain the declarations that are visible there exclude each other. -/
def LevelsClash (table : Table) (query : Query) (chain : List SymbolId) : Prop :=
  ∃ level ∈ table.walked query chain { fresh := table.ids }, table.Clashes query level

/-- A search of the bases of a scope, or of some class above it, finds the name ambiguous. -/
def BasesClashAbove (table : Table) (query : Query) (scope : SymbolId) : Prop :=
  ∃ id, ReflTransGen table.HasBase scope id ∧ table.BasesClash query id

end Table

namespace Search

variable {table : Table} {query : Query} {wanted : Name → Prop} {name : Name} {scope : SymbolId}
  {found level result : Found} {trail trail' after last : Trail}

/-! ## What a walk notes -/

/-- What is left of a walk after a level that does not satisfy it. -/
theorem walk_apply (outer : List SymbolId) (unstopped : query.options.stopScope = none)
    (first : (searchLevel query scope).Ends table trail (.ok (level, after)))
    (unsatisfied : query.isSatisfied (found.fill level) = false) :
    walk query (scope :: outer) found trail table = walk query outer (found.fill level) after table := by
  rw [walk_cons, first.bind_apply, if_neg (by simp [unsatisfied, unstopped])]

/-- If the exact lookup of the name ends at a level with an error, completion notes the name there. -/
theorem noted_of_level_error (completion : query.IsCompletion) (acyclic : table.AcyclicBases scope)
    (alongside : trail'.Alongside trail)
    (hides : table.HidesNoVirtualBase (query.exactly name) scope) {error : SemanticError}
    (ends : (searchLevel (query.exactly name) scope).Ends table trail' (.error error)) {noted : Prop}
    {counted : List (Subobject × SymbolId)} {visited : List SymbolId}
    (survey : Surveys table.classBases (table.supply (query.exactly name)) {} [] (table.classBases scope)
      (table.opening query trail scope).virtualBases counted visited)
    (levelNoted : table.Clashes (query.exactly name) (table.opened query trail scope) → noted)
    (basesNoted : ¬ table.Concordant (query.exactly name) counted → noted) : noted := by
  have hexact := completion.exactly name
  have hanswers : _ = (table.opened query trail scope).flatMap (table.answers (query.exactly name)) :=
    Table.answers_opened_exactly alongside
  by_cases clashes : table.Clashes (query.exactly name) (table.opened query trail scope)
  · exact levelNoted clashes
  have hclear := Bool.eq_false_iff.mpr clashes
  by_cases hentities : table.entities ((table.opened query trail scope).flatMap
      (table.answers (query.exactly name))) = []
  · -- The bases are searched with the same virtual bases entered, and meet what completion counts.
    obtain ⟨hits, entered, proved, hrun, hends⟩ :=
      ends_searchLevel_silent hexact hanswers acyclic hclear hentities
    rw [(Table.opening_exactly alongside).virtualBases] at hrun
    obtain ⟨rfl, -⟩ := hrun.eq_of_survey survey fun link listed above further =>
      hides above (.head' ⟨link.2, listed⟩ further)
    refine basesNoted fun concordant => ?_
    rw [Table.reported_of_concordant concordant] at hends
    cases ends.unique hends
  · obtain ⟨after, hends⟩ := ends_searchLevel_answered hexact hanswers acyclic hclear hentities
    cases ends.unique hends

section Completing

variable (represented : table.Represented) (completion : query.IsCompletion)
  (names : ∀ scope, ∀ hit ∈ table.scopeHits query scope, wanted hit.1)
  (unstopped : query.options.stopScope = none) (isMatch : table.nameMatches query name = true)

include represented completion names unstopped isMatch

/-- The classes of the chain are free of circles, what was found stays, and the walk notes the name if its
declarations at a level exclude each other or if the bases of a scope give cause. -/
theorem marks_walk (chain : List SymbolId) (found : Found) (trail : Trail)
    (isProved : table.Proved trail.acyclic)
    (ends : (walk query chain found).Ends table trail (.ok (result, last))) :
    (∀ scope ∈ chain, table.AcyclicBases scope) ∧ (result.lookup name = none → found.lookup name = none) ∧
      table.Marks (query.exactly name) (chain.map fun scope => (scope, false))
        (∃ level ∈ table.walked (query.exactly name) chain trail, table.Clashes (query.exactly name) level)
        (result.lookup name) (name ∈ trail.ambiguous) (name ∈ last.ambiguous) := by
  induction chain generalizing found trail with
  | nil =>
      cases ends.unique (.pure found)
      refine ⟨fun scope listed => absurd listed List.not_mem_nil, fun none => none, .nil ?_ _ _⟩
      exact fun ⟨level, listed, _⟩ => List.not_mem_nil listed
  | cons scope outer ih =>
      rcases ends_searchLevel_completing represented completion names trail isProved scope with
        ⟨-, on, hcircular⟩ | ⟨hacyclic, inherited, visited, proved, ambiguous, hlevel, hproved, -, hcounts⟩
      · cases ends.unique (ends_walk_of_error outer hcircular found)
      have houter := Ends.congr ends (walk_apply outer unstopped hlevel (completion.unsatisfied _)).symm
      obtain ⟨hacyclicOuter, hkept, hmarks⟩ := ih _ _ hproved houter
      obtain ⟨counted, -, -, hmarksHere, -⟩ := hcounts name isMatch
      have hnone : result.lookup name = none → found.lookup name = none ∧
          ((table.openedListing query trail scope).fill inherited).lookup name = none := by
        intro none
        rw [← Option.or_eq_none_iff, ← Found.lookup_fill]
        exact hkept none
      refine ⟨List.forall_mem_cons.mpr ⟨hacyclic, hacyclicOuter⟩, fun none => (hnone none).1, ?_⟩
      -- The base searches change what is remembered, but not which scopes the further levels open.
      have hwalked : table.walked (query.exactly name) outer
          { table.opening query trail scope with virtualBases := visited, acyclic := proved, ambiguous } =
            table.walked (query.exactly name) outer (table.opening (query.exactly name) trail scope) :=
        Table.walked_congr rfl rfl
      rw [hwalked] at hmarks
      have hall := hmarksHere.cons hmarks fun none => (hnone none).2
      rw [Table.walked, List.exists_mem_cons_iff]
      exact hall

/-- If the exact walk for the name ends with an error, completion notes the name. -/
theorem noted_of_walk_error (chain : List SymbolId) (found : Found) (trail : Trail)
    (isProved : table.Proved trail.acyclic)
    (ends : (walk query chain found).Ends table trail (.ok (result, last)))
    (missing : found.lookup name = none) (alongside : trail'.Alongside trail)
    (hides : ∀ scope ∈ chain, table.HidesNoVirtualBase (query.exactly name) scope) {error : SemanticError}
    (fails : (walk (query.exactly name) chain []).Ends table trail' (.error error)) :
    name ∈ last.ambiguous := by
  induction chain generalizing found trail trail' with
  | nil => cases fails.unique (.pure [])
  | cons scope outer ih =>
      obtain ⟨hidesHere, hidesOuter⟩ := List.forall_mem_cons.mp hides
      rcases ends_searchLevel_completing represented completion names trail isProved scope with
        ⟨-, on, hcircular⟩ |
          ⟨hacyclic, inherited, visited, proved, ambiguous, hlevel, hproved, -, hcounts⟩
      · cases ends.unique (ends_walk_of_error outer hcircular found)
      have houter := Ends.congr ends (walk_apply outer unstopped hlevel (completion.unsatisfied _)).symm
      obtain ⟨counted, hsurvey, hgathered, hmarks, hdiscordant⟩ := hcounts name isMatch
      obtain ⟨outcome, hends, hthere, honward⟩ :=
        announces_level represented completion isMatch hacyclic alongside hsurvey hgathered
      rcases outcome with error' | ⟨here, beyond⟩
      · -- The exact walk ends at this level, and what is noted here stays noted.
        have hnoted := noted_of_level_error completion hacyclic alongside hidesHere hends hsurvey hmarks.noted
          hdiscordant
        obtain ⟨-, -, hmarksOuter⟩ :=
          marks_walk represented completion names unstopped isMatch outer _ _ hproved houter
        exact hmarksOuter.keeps hnoted
      · generalize hlisted : ((table.openedListing query trail scope).fill inherited).lookup name = listed
          at hthere
        generalize hended : Except.map (·.1) (Except.ok (here, beyond)) = ended at hthere
        cases hthere with
        | absent =>
            -- Nothing is found here by either walk, so both go on alongside.
            cases hended
            have halongside := honward beyond rfl
            have hunstopped : (query.exactly name).options.stopScope = none := unstopped
            have hunsatisfied' : (query.exactly name).isSatisfied (Found.fill [] []) = false := by
              rw [Found.nil_fill, Found.isSatisfied_nil]
            have hmissing : (found.fill ((table.openedListing query trail scope).fill inherited)).lookup name =
                none := by
              rw [Found.lookup_fill, missing, hlisted, Option.none_or]
            have hfails := Ends.congr fails (walk_apply outer hunstopped hends hunsatisfied').symm
            exact ih _ _ hproved houter hmissing
              ⟨halongside.fresh, halongside.pending, halongside.virtualBases⟩ hidesOuter hfails
        | @found ids nonempty =>
            -- The exact walk would be satisfied, and not fail further out.
            cases hended
            cases fails.unique (ends_walk_of_found outer hends ((completion.exactly name).satisfied ids))
        | ambiguous => cases hended

end Completing

end Search

/-! ## The names that a list notes -/

namespace Analysis

variable {table after : Table} {scope : SymbolId} {stem : String} {filter : Filter} {result : LookupResult}
  {name : Name}

/-- The walk behind a completion list. -/
theorem exists_walk_of_listed (represented : table.Represented)
    (listed : lookupCompletions scope stem filter table = .ok result after) :
    after.Represented ∧ ∃ beginning found last,
      (∀ name, after.nameMatches (after.query beginning { completing := true, filter }) name =
        (!name.isEmpty && Text.startsWith (Text.lowercase (after.spelling name)) (Text.lowercase stem))) ∧
      (Search.walk (after.query beginning { completing := true, filter })
        (after.scopeChain (after.resolveNamespace scope)) []).Ends after { fresh := after.ids }
          (.ok (found, last)) ∧
      ∀ name, name ∈ result.ambiguous ↔ name ∈ last.ambiguous := by
  have hrepresented : (table.intern stem).2.Represented := represented.of_symbols rfl
  have hstem : (table.intern stem).2.spelling (table.intern stem).1 = stem := table.interner.lookup_intern stem
  have hlisted : lookup scope (table.intern stem).1 { completing := true, filter } (table.intern stem).2 =
      .ok result after := listed
  generalize (table.intern stem).1 = beginning at hlisted hstem
  generalize (table.intern stem).2 = now at hlisted hstem hrepresented
  obtain ⟨⟨found, last⟩, hanswer, rfl⟩ := answer_of_lookup_ok hlisted
  have hcompletion : (now.query beginning { completing := true, filter }).IsCompletion := ⟨rfl, rfl⟩
  rw [answer_unqualified rfl] at hanswer
  obtain rfl : now = after := by
    rcases Search.announces_walk hrepresented hcompletion (Table.wants_of_mem_scopeHits hcompletion) rfl
        (now.scopeChain (now.resolveNamespace scope)) [] { fresh := now.ids } (.nil now) (.nil _) with
      ⟨-, on, hcircular⟩ | ⟨_, _, hwalk, -⟩
    · cases hanswer.symm.trans hcircular
    · cases hanswer.symm.trans hwalk
      rfl
  refine ⟨hrepresented, beginning, found, last, fun name => ?_, hanswer, fun name => List.mem_mergeSort⟩
  rw [← hstem]
  rfl

section List

variable (represented : table.Represented)
  (listed : lookupCompletions scope stem filter table = .ok result after) (named : name.isEmpty = false)
  (begins : Text.startsWith (Text.lowercase (after.spelling name)) (Text.lowercase stem) = true)

include represented listed named begins

/-- A name is noted only for a reason, and where there are no virtual bases for each one. -/
theorem noted_cases :
    (name ∈ result.ambiguous →
      after.LevelsClash (after.query name { filter }) (after.scopeChain (after.resolveNamespace scope)) ∨
        ∃ outer ∈ after.scopeChain (after.resolveNamespace scope),
          after.BasesClashAbove (after.query name { filter }) outer) ∧
    (after.LevelsClash (after.query name { filter }) (after.scopeChain (after.resolveNamespace scope)) →
      name ∈ result.ambiguous) ∧
    (∀ outer ∈ after.scopeChain (after.resolveNamespace scope), NoVirtualAbove after.classBases outer →
      after.BasesClashAbove (after.query name { filter }) outer → name ∈ result.ambiguous) := by
  obtain ⟨hrepresented, beginning, found, last, hmatch, hwalk, hnoted⟩ :=
    exists_walk_of_listed represented listed
  have hcompletion : (after.query beginning { completing := true, filter }).IsCompletion := ⟨rfl, rfl⟩
  have hexact := hcompletion.exactly name
  obtain ⟨hacyclic, -, hmarks⟩ := Search.marks_walk hrepresented hcompletion
    (Table.wants_of_mem_scopeHits hcompletion) rfl (by rw [hmatch, named, begins]; rfl) _ _ _ (.nil after) hwalk
  rw [query_exactly] at hmarks hexact
  rw [hnoted]
  refine ⟨fun noted => ?_, hmarks.noted, ?_⟩
  · rcases hmarks.cause noted with impossible | clash | ⟨above, ⟨link, hlink, further⟩, discordant⟩
    · cases impossible
    · exact .inl clash
    · obtain ⟨outer, member, rfl⟩ := List.mem_map.mp hlink
      exact .inr ⟨outer, member, above, further,
        discordant.basesClash hexact ((hacyclic outer member).of_hasBase further)⟩
  · rintro outer member plain ⟨above, further, clash⟩
    by_contra unnoted
    have hharmonious :=
      hmarks.thorough (outer, false) (List.mem_map_of_mem member) rfl plain unnoted above further
    exact hharmonious.not_basesClash hexact ((hacyclic outer member).of_hasBase further)
      (fun other again => plain other (further.trans again)) clash

/-- A completion list notes a name that begins with the text as ambiguous only if the declarations at some level
of the walk exclude each other, or a search of the bases of a scope of the chain, or of a class above one, finds
the name ambiguous.  It notes the name for each such level, and for each such search at or above a scope that
has no virtual bases above it.  So a name that an unqualified lookup from the same scope, with the same filter,
finds ambiguous is noted, if no virtual base is hidden behind a class that supplies the name.  What is noted is
either ambiguous in such a lookup or found by it. -/
theorem completions_note_ambiguities :
    (name ∈ result.ambiguous →
      after.LevelsClash (after.query name { filter }) (after.scopeChain (after.resolveNamespace scope)) ∨
        ∃ outer ∈ after.scopeChain (after.resolveNamespace scope),
          after.BasesClashAbove (after.query name { filter }) outer) ∧
    (after.LevelsClash (after.query name { filter }) (after.scopeChain (after.resolveNamespace scope)) →
      name ∈ result.ambiguous) ∧
    (∀ outer ∈ after.scopeChain (after.resolveNamespace scope), NoVirtualAbove after.classBases outer →
      after.BasesClashAbove (after.query name { filter }) outer → name ∈ result.ambiguous) ∧
    ((∀ outer ∈ after.scopeChain (after.resolveNamespace scope),
        after.HidesNoVirtualBase (after.query name { filter }) outer) →
      lookup scope name { filter } after = .error (.error (.ambiguous name)) after → name ∈ result.ambiguous) ∧
    (name ∈ result.ambiguous → lookup scope name { filter } after = .error (.error (.ambiguous name)) after ∨
      ∃ exact, lookup scope name { filter } after = .ok exact after ∧ exact.entries ≠ []) := by
  obtain ⟨hcause, hlevels, hbases⟩ := noted_cases represented listed named begins
  refine ⟨hcause, hlevels, hbases, ?_⟩
  obtain ⟨hrepresented, beginning, found, last, hmatch, hwalk, hnoted⟩ :=
    exists_walk_of_listed represented listed
  have hcompletion : (after.query beginning { completing := true, filter }).IsCompletion := ⟨rfl, rfl⟩
  have hexact : LookupOptions.IsExact { filter } := ⟨rfl, rfl⟩
  have hisMatch : after.nameMatches (after.query beginning { completing := true, filter }) name = true := by
    rw [hmatch, named, begins]
    rfl
  rw [hnoted]
  rcases Search.announces_walk hrepresented hcompletion (Table.wants_of_mem_scopeHits hcompletion) rfl
      (after.scopeChain (after.resolveNamespace scope)) [] { fresh := after.ids } (.nil after) (.nil _) with
    ⟨-, on, hcircular⟩ | ⟨_, _, hwalk', -, -, hannounces⟩
  · cases hwalk.unique hcircular
  cases hwalk.unique hwalk'
  obtain ⟨outcome, hends, hannounced⟩ := hannounces name hisMatch rfl { fresh := after.ids } ⟨rfl, rfl, rfl⟩
  have hanswer : (Search.answer (after.query name { filter }) (after.resolveNamespace scope)).Ends after
      { fresh := after.ids } outcome := by
    rw [answer_unqualified rfl]
    exact .read hends
  constructor
  · intro hides fails
    rcases outcome with error | ends
    · exact Search.noted_of_walk_error hrepresented hcompletion (Table.wants_of_mem_scopeHits hcompletion) rfl
        hisMatch _ _ _ (.nil after) hwalk rfl ⟨rfl, rfl, rfl⟩ hides hends
    · cases fails.symm.trans (lookup_of_ends hexact hanswer)
  · intro noted
    obtain ⟨-, -, hmarks⟩ := Search.marks_walk hrepresented hcompletion
      (Table.wants_of_mem_scopeHits hcompletion) rfl hisMatch _ _ _ (.nil after) hwalk
    have hlisted := (hmarks.lists noted).resolve_left List.not_mem_nil
    generalize found.lookup name = shown at hannounced hlisted
    generalize hended : outcome.map (·.1) = ended at hannounced
    cases hannounced with
    | absent => exact absurd rfl hlisted
    | @found ids nonempty =>
        rcases outcome with error | ⟨entries, trail⟩ <;> cases hended
        exact .inr ⟨_, lookup_of_ends hexact hanswer, List.cons_ne_nil _ _⟩
    | ambiguous =>
        rcases outcome with error | ⟨entries, trail⟩ <;> cases hended
        exact .inl (lookup_of_error hexact hanswer)

end List

end Analysis

/-! ## A name that is found and noted -/

/-- Without a virtual link there are no virtual bases. -/
theorem Table.noVirtualAbove_of_plain {table : Table}
    (plain : ∀ id, ∀ link ∈ (table.symbol id).parents, link.isVirtual = false) (id : SymbolId) :
    NoVirtualAbove table.classBases id := by
  intro above _ base listed
  obtain ⟨link, hlink, isBase⟩ := List.mem_filterMap.mp listed
  have hvirtual := congrArg Prod.snd (Search.classBase?_eq_some isBase).2
  rw [plain above link hlink] at hvirtual
  cases hvirtual

namespace Analysis

/-- The classes 1 and 3 have an object of one name, and so has the class 5, which derives from both. -/
def declareShadowing : List Action :=
  [.perform (.intern "Left"), .perform (.intern "Right"), .perform (.intern "Derived"),
    .perform (.intern "name"), .perform (.createClass ⟨17⟩ .cls), .perform (.addSymbol ⟨0⟩ ⟨1⟩),
    .perform (.createBasic ⟨20⟩ (.ofKind .int)), .perform (.addSymbol ⟨1⟩ ⟨2⟩),
    .perform (.createClass ⟨18⟩ .cls), .perform (.addSymbol ⟨0⟩ ⟨3⟩),
    .perform (.createBasic ⟨20⟩ (.ofKind .int)), .perform (.addSymbol ⟨3⟩ ⟨4⟩),
    .perform (.createClass ⟨19⟩ .cls), .perform (.addSymbol ⟨0⟩ ⟨5⟩),
    .perform (.addParent ⟨5⟩ ⟨1⟩ .pub false), .perform (.addParent ⟨5⟩ ⟨3⟩ .pub false),
    .perform (.createBasic ⟨20⟩ (.ofKind .int)), .perform (.addSymbol ⟨5⟩ ⟨6⟩)]

/-- The table with these declarations, in completion mode. -/
@[irreducible]
def shadowingTable : Table := (Table.new { completion := true }).ran declareShadowing

/-- The table once the text of a completion list is interned. -/
def promptedTable : Table := (shadowingTable.intern "NA").2

theorem represented_shadowingTable : shadowingTable.Represented := by
  have hgrounded : Grounded ((Table.new { completion := true }).ran declareShadowing) :=
    Reached.ran (.new _) (by decide +kernel)
  rw [shadowingTable]
  exact hgrounded.represented_sheltered.holds

/-- Bases are older than the classes that list them, and there are no virtual bases and no directives.  The
chain of the class 5 leads to the global scope.  The name begins with the text, each of the classes has its own object,
and the class 5 is settled. -/
theorem promptedTable_evaluated :
    (promptedTable.config.completion = true ∧
      (∀ index < promptedTable.size, ∀ base ∈ promptedTable.bases ⟨index⟩, base.index < index) ∧
      promptedTable.symbols.toList.all (fun symbol =>
        symbol.parents.all (fun link => !link.isVirtual) && symbol.directives.isEmpty) = true ∧
      promptedTable.scopeChain (promptedTable.resolveNamespace ⟨5⟩) = [⟨5⟩, ⟨0⟩] ∧
      promptedTable.classBases ⟨5⟩ = [(⟨1⟩, false), (⟨3⟩, false)] ∧
      promptedTable.classBases ⟨1⟩ = [] ∧ promptedTable.classBases ⟨3⟩ = []) ∧
    Text.startsWith (Text.lowercase (promptedTable.spelling ⟨20⟩)) (Text.lowercase "NA") = true ∧
      promptedTable.supply (promptedTable.query ⟨20⟩ {}) ⟨1⟩ = [⟨2⟩] ∧
      promptedTable.supply (promptedTable.query ⟨20⟩ {}) ⟨3⟩ = [⟨4⟩] ∧
      promptedTable.supply (promptedTable.query ⟨20⟩ {}) ⟨5⟩ ≠ [] ∧
      (promptedTable.classify (promptedTable.answers (promptedTable.query ⟨20⟩ {}) ⟨5⟩)).isAmbiguous =
        false := by
  decide +kernel

theorem acyclicBases_promptedTable (id : SymbolId) : promptedTable.AcyclicBases id :=
  .of_older promptedTable_evaluated.1.2.1 id

theorem unlinked_promptedTable (id : SymbolId) :
    (∀ link ∈ (promptedTable.symbol id).parents, link.isVirtual = false) ∧ promptedTable.nominated id = [] := by
  have hplain := promptedTable.forall_symbol (fun symbol =>
    symbol.parents.all (fun link => !link.isVirtual) && symbol.directives.isEmpty) rfl
    promptedTable_evaluated.1.2.2.1 id
  obtain ⟨hparents, hdirectives⟩ := Bool.and_eq_true_iff.mp hplain
  refine ⟨fun link listed => by simpa using List.all_eq_true.mp hparents link listed, ?_⟩
  rw [Table.nominated, List.isEmpty_iff.mp hdirectives, List.map_nil]

theorem noVirtualAbove_promptedTable (id : SymbolId) : NoVirtualAbove promptedTable.classBases id :=
  Table.noVirtualAbove_of_plain (fun id => (unlinked_promptedTable id).1) id

theorem mem_scopeChain_promptedTable : ⟨5⟩ ∈ promptedTable.scopeChain (promptedTable.resolveNamespace ⟨5⟩) := by
  rw [promptedTable_evaluated.1.2.2.2.1]
  exact List.mem_cons_self

theorem exists_list_shadowingTable :
    ∃ result, lookupCompletions ⟨5⟩ "NA" .any shadowingTable = .ok result promptedTable :=
  lookup_completing_of_acyclic promptedTable ⟨5⟩ (represented_shadowingTable.of_symbols rfl)
    promptedTable_evaluated.1.1 (fun outer _ => acyclicBases_promptedTable outer) (shadowingTable.intern "NA").1 .any

/-- The bases of the class 5 do not agree on the name. -/
theorem basesClash_promptedTable : promptedTable.BasesClash (promptedTable.query ⟨20⟩ {}) ⟨5⟩ := by
  obtain ⟨-, -, -, -, hbases, hnone, hnone'⟩ := promptedTable_evaluated.1
  obtain ⟨-, hsupply, hsupply', -⟩ := promptedTable_evaluated.2
  have hnothing : ∀ (here : Subobject) (id : SymbolId), promptedTable.classBases id = [] →
      Surveys promptedTable.classBases (promptedTable.supply (promptedTable.query ⟨20⟩ {})) here []
        (promptedTable.classBases id) [] [] [] := by
    intro here id none
    rw [none]
    exact .done
  have hsurvey : Surveys promptedTable.classBases (promptedTable.supply (promptedTable.query ⟨20⟩ {})) {} []
      (promptedTable.classBases ⟨5⟩) []
      [({ links := [(⟨1⟩, 0)] }, ⟨1⟩), ({ links := [(⟨3⟩, 0)] }, ⟨3⟩)] [] := by
    rw [hbases]
    exact .supplies (by simp) (by simp [hsupply]) (hnothing _ _ hnone)
      (.supplies (by simp) (by simp [hsupply']) (hnothing _ _ hnone') .done)
  refine Table.Discordant.basesClash ⟨[], _, [], hsurvey, fun concordant => ?_⟩ ⟨rfl, rfl⟩
    (acyclicBases_promptedTable ⟨5⟩)
  have hagree := (List.pairwise_cons.mp concordant.2).1 _ (List.mem_singleton_self _)
  rw [hsupply, hsupply'] at hagree
  exact absurd (hagree.1.1 (List.mem_singleton_self _)) (by decide)

/-- In the class 5 the name is noted as ambiguous, although an unqualified lookup finds it. -/
theorem found_name_noted :
    ∃ result after, shadowingTable.Represented ∧
      lookupCompletions ⟨5⟩ "NA" .any shadowingTable = .ok result after ∧ (⟨20⟩ : Name).isEmpty = false ∧
      Text.startsWith (Text.lowercase (after.spelling ⟨20⟩)) (Text.lowercase "NA") = true ∧
      ¬ (⟨20⟩ ∈ result.ambiguous ↔ lookup ⟨5⟩ ⟨20⟩ {} after = .error (.error (.ambiguous ⟨20⟩)) after) := by
  obtain ⟨result, hlisted⟩ := exists_list_shadowingTable
  have hnamed : (⟨20⟩ : Name).isEmpty = false := by decide
  obtain ⟨hbegins, -, -, hanswered, hclear⟩ := promptedTable_evaluated.2
  refine ⟨result, promptedTable, represented_shadowingTable, hlisted, hnamed, hbegins, fun noted => ?_⟩
  have hnoted := (noted_cases represented_shadowingTable hlisted hnamed hbegins).2.2 ⟨5⟩
    mem_scopeChain_promptedTable (noVirtualAbove_promptedTable ⟨5⟩) ⟨⟨5⟩, .refl, basesClash_promptedTable⟩
  -- The exact lookup ends at the class itself.
  have hexact : (promptedTable.query ⟨20⟩ {}).IsExact := ⟨rfl, rfl⟩
  have hopened : promptedTable.opened (promptedTable.query ⟨20⟩ {}) { fresh := promptedTable.ids } ⟨5⟩ =
      [⟨5⟩] := by
    rw [Table.opened, Table.level_of_undirected fun id => (unlinked_promptedTable id).2, ite_self]
  obtain ⟨last, hlevel⟩ := Search.ends_searchLevel_answered hexact
    (by rw [hopened, List.flatMap_singleton]) (acyclicBases_promptedTable ⟨5⟩) hclear hanswered
  have hwalk := Search.ends_walk_of_found [⟨0⟩] hlevel (hexact.satisfied _)
  obtain ⟨found, hends⟩ : ∃ found, (Search.answer (promptedTable.query ⟨20⟩ {})
      (promptedTable.resolveNamespace ⟨5⟩)).Ends promptedTable { fresh := promptedTable.ids } (.ok found) := by
    rw [← promptedTable_evaluated.1.2.2.2.1] at hwalk
    rw [answer_unqualified rfl]
    exact ⟨_, .read hwalk⟩
  cases (noted.mp hnoted).symm.trans (lookup_of_ends ⟨rfl, rfl⟩ hends)

/-- The class has no virtual base, and its bases do not agree on the name, so the name is noted.  It is either
ambiguous or found. -/
theorem shadowed_name_noted :
    shadowingTable.Represented ∧ ∃ result after,
      lookupCompletions ⟨5⟩ "NA" .any shadowingTable = .ok result after ∧ (⟨20⟩ : Name).isEmpty = false ∧
      Text.startsWith (Text.lowercase (after.spelling ⟨20⟩)) (Text.lowercase "NA") = true ∧
      after.BasesClash (after.query ⟨20⟩ {}) ⟨5⟩ ∧ ⟨20⟩ ∈ result.ambiguous ∧
      (lookup ⟨5⟩ ⟨20⟩ {} after = .error (.error (.ambiguous ⟨20⟩)) after ∨
        ∃ exact, lookup ⟨5⟩ ⟨20⟩ {} after = .ok exact after ∧ exact.entries ≠ []) := by
  obtain ⟨result, hlisted⟩ := exists_list_shadowingTable
  have hnamed : (⟨20⟩ : Name).isEmpty = false := by decide
  obtain ⟨-, -, hbases, -, hends⟩ :=
    completions_note_ambiguities represented_shadowingTable hlisted hnamed promptedTable_evaluated.2.1
  have hnoted := hbases ⟨5⟩ mem_scopeChain_promptedTable (noVirtualAbove_promptedTable ⟨5⟩)
    ⟨⟨5⟩, .refl, basesClash_promptedTable⟩
  exact ⟨represented_shadowingTable, result, promptedTable, hlisted, hnamed, promptedTable_evaluated.2.1,
    basesClash_promptedTable, hnoted, hends hnoted⟩

end Analysis

end NameBinding
