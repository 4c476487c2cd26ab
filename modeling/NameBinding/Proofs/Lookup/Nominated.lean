import NameBinding.Proofs.Lookup.Outcome
import NameBinding.Proofs.Traversal

/-!
# Qualified lookup through using-directives

A qualified lookup in a namespace that does not answer follows the using-directives of the namespace, and
those of the namespaces they nominate as long as these do not answer either.

* `Table.LedTo`: a path of using-directives along which nothing answers leads to a namespace.
* `Table.Contributes`: the namespace itself if it answers, and otherwise all that it is led to and that
  answer.

The main statement is `qualified_lookup_follows_directives`: the lookup settles the declarations of the
namespaces that contribute, each of which counts once, however the directives run in circles.
-/

namespace NameBinding

namespace Table

variable {table : Table} {query : Query} {origin id : SymbolId}

/-! ## What contributes -/

/-- A path of using-directives leads from a namespace to another one, and neither the first namespace nor
any on the way answers the query. -/
inductive LedTo (table : Table) (query : Query) (origin : SymbolId) : SymbolId → Prop where
  | directly {id : SymbolId} (silent : table.scopeHits query origin = [])
      (nominates : id ∈ table.nominated origin) : LedTo table query origin id
  | further {between id : SymbolId} (before : LedTo table query origin between)
      (silent : table.scopeHits query between = []) (nominates : id ∈ table.nominated between) :
      LedTo table query origin id

/-- The declarations of a namespace count for a qualified lookup: it answers, and is the namespace that is
searched, or one that this is led to. -/
def Contributes (table : Table) (query : Query) (origin id : SymbolId) : Prop :=
  table.scopeHits query id ≠ [] ∧ (id = origin ∨ table.LedTo query origin id)

theorem LedTo.silent (led : table.LedTo query origin id) : table.scopeHits query origin = [] := by
  induction led with
  | directly silent => exact silent
  | further _ _ _ ih => exact ih

/-- Whatever a namespace answers for itself is all that counts. -/
theorem contributes_iff_of_answers (answer : table.scopeHits query origin ≠ []) :
    table.Contributes query origin id ↔ id = origin := by
  constructor
  · rintro ⟨-, same | led⟩
    · exact same
    · exact absurd led.silent answer
  · rintro rfl
    exact ⟨answer, .inl rfl⟩

/-- The namespaces that a lookup for one name goes on to from a namespace: none if it answers. -/
def onward (table : Table) (query : Query) (id : SymbolId) : List SymbolId :=
  if !query.isCompleting && !(table.scopeHits query id).isEmpty then [] else table.nominated id

theorem mem_onward (whole : query.isCompleting = false) {scope : SymbolId} :
    id ∈ table.onward query scope ↔
      table.scopeHits query scope = [] ∧ id ∈ table.nominated scope := by
  unfold onward
  cases hhits : table.scopeHits query scope <;> simp [whole]

/-- The traversal of the directives finds what the namespace is led to. -/
theorem mem_reachedNamespaces (whole : query.isCompleting = false)
    (silent : table.scopeHits query origin = []) :
    id ∈ table.reachedNamespaces query table.ids origin ↔
      id ≠ origin ∧ id.index < table.size ∧ table.LedTo query origin id := by
  have hfresh : ∀ {y : SymbolId}, y ∈ table.ids.erase origin ↔ y ≠ origin ∧ y.index < table.size := by
    intro y
    rw [(nodup_ids table).mem_erase_iff, mem_ids]
  rw [reachedNamespaces, mem_breadthFirst]
  change ReachedWithin (table.onward query) (table.ids.erase origin) (table.nominated origin) id ↔ _
  constructor
  · intro reached
    refine ⟨(hfresh.mp reached.isFresh).1, (hfresh.mp reached.isFresh).2, ?_⟩
    induction reached with
    | start given => exact .directly silent given
    | step _ edge _ ih =>
        obtain ⟨hsilent, hnominates⟩ := (mem_onward whole).mp edge
        exact .further ih hsilent hnominates
  · rintro ⟨differs, lt, led⟩
    induction led with
    | directly _ nominates => exact .start nominates (hfresh.mpr ⟨differs, lt⟩)
    | @further between id _ silentBetween nominates ih =>
        -- A path that comes back to the origin might as well start there.
        by_cases hback : between = origin
        · exact .start (hback ▸ nominates) (hfresh.mpr ⟨differs, lt⟩)
        · have hbefore := ih hback (lt_size_of_nominated nominates)
          exact .step hbefore ((mem_onward whole).mpr ⟨silentBetween, nominates⟩)
            (hfresh.mpr ⟨differs, lt⟩)

/-- The namespaces that contribute to a qualified lookup, in the order in which they are searched. -/
def contributing (table : Table) (query : Query) (origin : SymbolId) : List SymbolId :=
  if table.scopeHits query origin = [] then
    (table.reachedNamespaces query table.ids origin).filter fun id =>
      !(table.scopeHits query id).isEmpty
  else [origin]

theorem nodup_contributing (table : Table) (query : Query) (origin : SymbolId) :
    (table.contributing query origin).Nodup := by
  unfold contributing
  split
  · exact (nodup_breadthFirst ((nodup_ids table).erase origin)).filter _
  · exact List.nodup_singleton origin

theorem mem_contributing (whole : query.isCompleting = false) :
    id ∈ table.contributing query origin ↔ table.Contributes query origin id := by
  unfold contributing
  split
  · rename_i silent
    simp only [List.mem_filter, mem_reachedNamespaces whole silent, Bool.not_eq_true',
      List.isEmpty_eq_false_iff]
    constructor
    · rintro ⟨⟨-, -, led⟩, answer⟩
      exact ⟨answer, .inr led⟩
    · rintro ⟨answer, same | led⟩
      · exact absurd (same ▸ silent) answer
      · refine ⟨⟨?_, lt_size_of_answers answer, led⟩, answer⟩
        rintro rfl
        exact answer silent
  · rename_i answer
    rw [List.mem_singleton, contributes_iff_of_answers answer]

/-- What a qualified lookup in a namespace searches: the namespaces that contribute. -/
theorem hits_contributing (table : Table) (query : Query) (origin : SymbolId) :
    (table.contributing query origin).flatMap (table.scopeHits query) =
      if (table.scopeHits query origin).isEmpty then
        (table.reachedNamespaces query table.ids origin).flatMap (table.scopeHits query)
      else table.scopeHits query origin := by
  unfold contributing
  by_cases hsilent : table.scopeHits query origin = []
  · rw [if_pos hsilent, if_pos (by simp [hsilent])]
    induction table.reachedNamespaces query table.ids origin with
    | nil => rfl
    | cons id rest ih =>
        cases hhits : table.scopeHits query id with
        | nil => simpa [List.filter_cons, hhits] using ih
        | cons hit hits => simpa [List.filter_cons, hhits] using ih
  · rw [if_neg hsilent, if_neg (by simpa using hsilent), List.flatMap_singleton]

end Table

/-! ## The lookup -/

namespace Search

variable {table : Table} {query : Query} {origin : SymbolId}

/-- A search in one scope goes on to other namespaces if it follows directives, starts in a namespace and
finds nothing there. -/
theorem lookupIn_apply (query : Query) (table : Table) (origin : SymbolId) (trail : Trail) :
    lookupIn query origin trail table = (do
      let hits ←
        if (table.symbol origin).type.kind == .nspace
            && (table.config.isCxx && !query.options.ignoreDirectives)
            && ((table.scopeHits query origin).isEmpty || query.isCompleting) then do
          let trail ← get
          let reached := table.reachedNamespaces query trail.fresh origin
          pure (table.scopeHits query origin ++ reached.flatMap (table.scopeHits query))
        else pure (table.scopeHits query origin)
      let found ← collectLevel query hits
      addInherited query origin found : Search Found) trail table :=
  Ends.bind_apply
    (fun directives => do
      let hits ←
        if (table.symbol origin).type.kind == .nspace && directives
            && ((table.scopeHits query origin).isEmpty || query.isCompleting) then do
          let trail ← get
          let reached := table.reachedNamespaces query trail.fresh origin
          pure (table.scopeHits query origin ++ reached.flatMap (table.scopeHits query))
        else pure (table.scopeHits query origin)
      let found ← collectLevel query hits
      addInherited query origin found : Bool → Search Found)
    (ends_followsDirectives query table trail)

/-- A search that does not go through directives merges what the scope itself answers. -/
theorem lookupIn_alone (alone : ((table.symbol origin).type.kind == .nspace &&
      (table.config.isCxx && !query.options.ignoreDirectives)) = false) (trail : Trail) :
    lookupIn query origin trail table =
      (collectLevel query (table.scopeHits query origin) >>= addInherited query origin) trail table := by
  rw [lookupIn_apply, alone]
  rfl

/-- Whatever it goes through, a search in one scope merges what it hits, and completes that by the bases. -/
theorem lookupIn_hits (query : Query) (table : Table) (origin : SymbolId) (trail : Trail) :
    ∃ hits, lookupIn query origin trail table =
      (collectLevel query hits >>= addInherited query origin) trail table := by
  rw [lookupIn_apply]
  split
  · exact ⟨_, rfl⟩
  · exact ⟨_, rfl⟩

/-- A search in a namespace classifies the declarations of the namespaces that contribute. -/
theorem lookupIn_namespace (whole : query.isCompleting = false) (cxx : table.config.isCxx = true)
    (directives : query.options.ignoreDirectives = false)
    (isNamespace : (table.symbol origin).type.kind = .nspace) (trail : Trail)
    (unvisited : trail.fresh = table.ids) :
    lookupIn query origin trail table = (do
      let found ← collectLevel query
        ((table.contributing query origin).flatMap (table.scopeHits query))
      addInherited query origin found : Search Found) trail table := by
  have hnamespace : ((table.symbol origin).type.kind == .nspace) = true := by simp [isNamespace]
  rw [lookupIn_apply, Table.hits_contributing, ← unvisited, hnamespace, cxx, directives]
  cases hown : table.scopeHits query origin with
  | nil => rfl
  | cons hit hits =>
      simp only [List.isEmpty_cons, whole, Bool.or_false, Bool.and_false, if_false, Bool.false_eq_true]
      rfl

/-- A qualified search in a namespace classifies the declarations of the namespaces that contribute. -/
theorem answer_namespace (whole : query.isCompleting = false) (qualified : query.options.qualified = true)
    (directives : query.options.ignoreDirectives = false) (cxx : table.config.isCxx = true)
    (isNamespace : (table.symbol origin).type.kind = .nspace) (trail : Trail)
    (unvisited : trail.fresh = table.ids) :
    answer query origin trail table = (do
      let found ← collectLevel query
        ((table.contributing query origin).flatMap (table.scopeHits query))
      addInherited query origin found : Search Found) trail table := by
  have hbegin : answer query origin trail table = lookupIn query origin trail table := by
    show (if query.options.qualified then _ else _ : Search Found) trail table = _
    rw [if_pos qualified]
  rw [hbegin]
  exact lookupIn_namespace whole cxx directives isNamespace trail unvisited

/-- Without bases, what these declarations amount to is found. -/
theorem ends_answer_namespace (exact : query.IsExact) (qualified : query.options.qualified = true)
    (directives : query.options.ignoreDirectives = false) (cxx : table.config.isCxx = true)
    (isNamespace : (table.symbol origin).type.kind = .nspace)
    (parentless : (table.symbol origin).parents = []) (trail : Trail)
    (unvisited : trail.fresh = table.ids) :
    (answer query origin).Ends table trail
      ((table.settle query.name ((table.contributing query origin).flatMap (table.answers query))).map
        fun ids => (Found.under query.name ids, trail)) := by
  have hlevel := ends_collectScopes exact table trail (table.contributing query origin)
  have hsame := answer_namespace exact.not_completing qualified directives cxx isNamespace trail unvisited
  cases hsettle : table.settle query.name
      ((table.contributing query origin).flatMap (table.answers query)) with
  | error error =>
      rw [hsettle] at hlevel
      exact hsame.trans (Analysis.bind_error hlevel)
  | ok ids =>
      rw [hsettle] at hlevel
      have hinherited := ends_addInherited_of_parentless parentless query trail
        (Found.under query.name ids)
      exact hsame.trans ((hlevel.bind_apply (addInherited query origin)).trans hinherited)

end Search

namespace Analysis

/-- A qualified lookup of one name in a namespace ends on every graph of using-directives, and classifies
the declarations of the namespaces that contribute, each of which counts once: those of the namespace
itself if it answers, and otherwise those of the namespaces that answer and to which a path of directives
leads along which nothing answers.  Since a namespace has no bases, what these declarations amount to is
the answer. -/
theorem qualified_lookup_follows_directives (table : Table) (start : SymbolId) (name : Name)
    (options : LookupOptions) (exact : options.IsExact) (qualified : options.qualified = true)
    (directives : options.ignoreDirectives = false) (cxx : table.config.isCxx = true)
    (isNamespace : (table.symbol (table.resolveNamespace start)).type.kind = .nspace) :
    ∃ namespaces : List SymbolId, namespaces.Nodup ∧
      (∀ id, id ∈ namespaces ↔
        table.Contributes (table.query name options) (table.resolveNamespace start) id) ∧
      (∀ trail : Trail, trail.fresh = table.ids →
        Search.answer (table.query name options) (table.resolveNamespace start) trail table =
          (do
            let found ← Search.collectLevel (table.query name options)
              (namespaces.flatMap (table.scopeHits (table.query name options)))
            Search.addInherited (table.query name options) (table.resolveNamespace start) found :
              Search Found) trail table) ∧
      ((table.symbol (table.resolveNamespace start)).parents = [] →
        lookup start name options table =
          match table.settle name (namespaces.flatMap (table.answers (table.query name options))) with
          | .ok ids => .ok { entries := Found.under name ids } table
          | .error error => .error (.error error) table) := by
  have hexact := exact.query table name
  have hmember : ∀ id, id ∈ table.contributing (table.query name options) (table.resolveNamespace start) ↔
      table.Contributes (table.query name options) (table.resolveNamespace start) id :=
    fun id => Table.mem_contributing hexact.not_completing
  have hnodup := table.nodup_contributing (table.query name options) (table.resolveNamespace start)
  have hanswer := Search.answer_namespace hexact.not_completing qualified directives cxx isNamespace
  refine ⟨_, hnodup, hmember, hanswer, fun parentless => ?_⟩
  have hends := Search.ends_answer_namespace hexact qualified directives cxx isNamespace parentless
    { fresh := table.ids } rfl
  cases hsettle : table.settle name ((table.contributing (table.query name options)
      (table.resolveNamespace start)).flatMap (table.answers (table.query name options))) with
  | error error =>
      rw [show (table.query name options).name = name from rfl, hsettle] at hends
      exact lookup_of_error exact hends
  | ok ids =>
      rw [show (table.query name options).name = name from rfl, hsettle] at hends
      exact lookup_of_found exact hends rfl

/-- The namespaces 1 to 5 with directives from 1 to 2 and 3, from 2 to 4 and back to 1, and from 3 to 5.  The
last three declare functions of one name. -/
def nominatedTable : Table :=
  finalTable (Table.new {}) do
    for name in [18, 19, 20, 21, 22] do
      let made ← createContainer ⟨name⟩ (.ofKind .nspace)
      addSymbol Table.globalScope made
    for (scope, nominated) in [(1, 2), (1, 3), (2, 4), (2, 1), (3, 5)] do
      addUsingDirective ⟨scope⟩ ⟨nominated⟩
    for scope in [3, 4, 5] do
      let made ← createFunction ⟨17⟩ .function
      addSymbol ⟨scope⟩ made

/-- A lookup in the first namespace finds the functions of the third and the fourth; the fifth is nominated
by one that answers. -/
theorem nominated_functions_found :
    LookupOptions.IsExact { qualified := true } ∧ nominatedTable.config.isCxx = true ∧
      (nominatedTable.symbol (nominatedTable.resolveNamespace ⟨1⟩)).type.kind = .nspace ∧
      ∃ ids : List SymbolId, ids.Perm [⟨6⟩, ⟨7⟩] ∧
        lookup ⟨1⟩ ⟨17⟩ { qualified := true } nominatedTable =
          .ok { entries := [(⟨17⟩, ids)] } nominatedTable := by
  have hexact : LookupOptions.IsExact { qualified := true } := ⟨rfl, rfl⟩
  have hcxx : nominatedTable.config.isCxx = true := by decide +kernel
  have hresolved : nominatedTable.resolveNamespace ⟨1⟩ = ⟨1⟩ := by decide +kernel
  have hkind : (nominatedTable.symbol (nominatedTable.resolveNamespace ⟨1⟩)).type.kind = .nspace := by
    decide +kernel
  obtain ⟨namespaces, hnodup, hmember, -, hlookup⟩ := qualified_lookup_follows_directives nominatedTable
    ⟨1⟩ ⟨17⟩ { qualified := true } hexact rfl rfl hcxx hkind
  have hcontributing : nominatedTable.contributing (nominatedTable.query ⟨17⟩ { qualified := true })
      ⟨1⟩ = [⟨3⟩, ⟨4⟩] := by cbv
  have hnamespaces : namespaces.Perm [⟨3⟩, ⟨4⟩] := by
    rw [List.perm_ext_iff_of_nodup hnodup (by decide), ← hcontributing]
    intro id
    rw [hmember, hresolved, Table.mem_contributing rfl]
  have hfound := hlookup (by decide +kernel)
  refine ⟨hexact, hcxx, hkind, ?_⟩
  rcases List.perm_pair.mp hnamespaces with rfl | rfl
  · have hsettle : nominatedTable.settle ⟨17⟩ ([⟨3⟩, ⟨4⟩].flatMap
        (nominatedTable.answers (nominatedTable.query ⟨17⟩ { qualified := true }))) =
        .ok [⟨6⟩, ⟨7⟩] := by decide +kernel
    rw [hsettle] at hfound
    exact ⟨[⟨6⟩, ⟨7⟩], .refl _, hfound⟩
  · have hsettle : nominatedTable.settle ⟨17⟩ ([⟨4⟩, ⟨3⟩].flatMap
        (nominatedTable.answers (nominatedTable.query ⟨17⟩ { qualified := true }))) =
        .ok [⟨7⟩, ⟨6⟩] := by decide +kernel
    rw [hsettle] at hfound
    exact ⟨[⟨7⟩, ⟨6⟩], by decide, hfound⟩

end Analysis

end NameBinding
