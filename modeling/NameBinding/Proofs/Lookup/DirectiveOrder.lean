import NameBinding.Proofs.Lookup.Alike
import NameBinding.Proofs.Lookup.Nominated
import NameBinding.Proofs.Lookup.Outward

/-!
# The order of using-directives

In whatever order scopes list their using-directives, a lookup searches the same namespaces at each step.
It merges their declarations in another order though, and merging takes the scope in which an entity counts
as declared from the first declaration that it meets.

* `Table.searchedTogether`: the scopes whose declarations a lookup merges, step by step.
* `Search.HitsAlike`: what is found at one level on both sides amounts to the same.

The main statement is `directive_order_irrelevant`: where the declarations that are merged are steady, the
order of the directives does not change what the lookup finds.
-/

namespace NameBinding

/-! ## What is searched together -/

namespace Table

variable {table other : Table} {query : Query} {fresh : List SymbolId} {scope id anchor : SymbolId}
  {pending pending' : List (SymbolId × SymbolId)}

/-- The scopes whose declarations a lookup merges, step by step, when it follows using-directives. -/
def searchedTogether (table : Table) (query : Query) (origin : SymbolId) : List (List SymbolId) :=
  if table.config.isCxx && !query.options.ignoreDirectives then
    if query.options.qualified then [table.contributing query origin]
    else table.levels (table.scopeChain origin) table.ids []
  else []

namespace ReordersDirectives

/-- Tables that agree symbol by symbol. -/
theorem of_symbols (config : other.config = table.config)
    (skeletons : other.symbols.map Symbol.skeleton = table.symbols.map Symbol.skeleton)
    (parents : other.symbols.map Symbol.parents = table.symbols.map Symbol.parents)
    (directives : ∀ index < table.size,
      (table.symbol ⟨index⟩).directives.Perm (other.symbol ⟨index⟩).directives) :
    table.ReordersDirectives other := by
  have hread : ∀ {α : Type} (reader : Symbol → α), other.symbols.map reader = table.symbols.map reader →
      ∀ id, reader (other.symbol id) = reader (table.symbol id) := by
    intro α reader same id
    have hat := congrArg (fun values : Array α => values[id.index]?.getD (reader default)) same
    simpa only [symbol, Array.getD_eq_getD_getElem?, Array.getElem?_map, Option.getD_map] using hat
  have hsize : other.size = table.size := by
    have hlength := congrArg Array.size skeletons
    rw [Array.size_map, Array.size_map] at hlength
    exact hlength
  refine ⟨⟨config, hsize, hread _ skeletons⟩, hread _ parents, fun id => ?_⟩
  by_cases hknown : id.index < table.size
  · exact directives id.index hknown
  · have hmissing := Nat.le_of_not_lt hknown
    rw [symbol_of_getElem?_none (Array.getElem?_eq_none hmissing),
      symbol_of_getElem?_none (Array.getElem?_eq_none (hsize.trans_le hmissing))]

variable (reorders : table.ReordersDirectives other)

include reorders

theorem mem_nominated : id ∈ other.nominated scope ↔ id ∈ table.nominated scope :=
  ((reorders.directives scope).map _).symm.mem_iff

theorem mem_anchored_iff {current : SymbolId} :
    (anchor, id) ∈ other.anchored current scope ↔ (anchor, id) ∈ table.anchored current scope := by
  rw [mem_anchored, mem_anchored, reorders.mem_nominated, reorders.skeleton.nearestCommonEnclosing_eq]

/-- The same namespaces become visible. -/
theorem perm_activated (distinct : fresh.Nodup) (waiting : ∀ entry, entry ∈ pending ↔ entry ∈ pending')
    (scope : SymbolId) : (table.activateDirectives fresh pending scope).namespaces.Perm
      (other.activateDirectives fresh pending' scope).namespaces := by
  refine perm_breadthFirst distinct (fun source id => ?_) fun id => ?_
  · rw [mem_ready, mem_ready, reorders.mem_anchored_iff]
  · rw [mem_ready, mem_ready, List.mem_append, List.mem_append, reorders.mem_anchored_iff, waiting]

/-- The same directives go on waiting. -/
theorem mem_pending (distinct : fresh.Nodup) (waiting : ∀ entry, entry ∈ pending ↔ entry ∈ pending')
    (scope : SymbolId) (entry : SymbolId × SymbolId) :
    entry ∈ (table.activateDirectives fresh pending scope).pending ↔
      entry ∈ (other.activateDirectives fresh pending' scope).pending := by
  rw [mem_pending_iff, mem_pending_iff]
  unfold Offered
  simp only [waiting, (reorders.perm_activated distinct waiting scope).mem_iff, reorders.mem_nominated,
    reorders.skeleton.nearestCommonEnclosing_eq]

variable (exact : query.IsExact) (agrees : query.options.filter.Agrees table other)

include exact agrees

/-- The same namespaces contribute to a qualified lookup. -/
theorem perm_contributing (origin : SymbolId) :
    (table.contributing query origin).Perm (other.contributing query origin) := by
  have hhits : other.scopeHits query = table.scopeHits query :=
    funext (reorders.skeleton.scopeHits_eq exact agrees)
  unfold contributing
  rw [hhits]
  split
  · refine List.Perm.filter _ ?_
    unfold reachedNamespaces
    rw [hhits, reorders.skeleton.ids_eq]
    refine perm_breadthFirst ((nodup_ids table).erase origin) (fun source id => ?_) fun id => ?_
    · split
      · rfl
      · exact reorders.mem_nominated.symm
    · exact reorders.mem_nominated.symm
  · exact .refl _

/-- Scopes that are searched together answer alike, if their declarations are steady. -/
theorem settle_answers_perm {scopes scopes' : List SymbolId} (perm : scopes.Perm scopes')
    (steady : 1 < scopes.length → table.Steady (scopes.flatMap (table.answers query))) (name : Name) :
    EndAlike List.Perm (table.settle name (scopes.flatMap (table.answers query)))
      (other.settle name (scopes'.flatMap (other.answers query))) := by
  have hanswers : other.answers query = table.answers query :=
    funext (reorders.skeleton.answers_eq exact agrees)
  rw [hanswers, reorders.skeleton.settle_eq]
  -- The answers of one scope have no other order.
  by_cases several : 1 < scopes.length
  · exact settle_perm (perm.flatMap_right _) (steady several) name
  · have hsame : scopes' = scopes := by
      match scopes with
      | [] => exact perm.symm.eq_nil
      | [_] => exact List.perm_singleton.mp perm.symm
      | _ :: _ :: _ => simp at several
    rw [hsame]
    exact .refl (fun ids => .refl ids) _

end ReordersDirectives

end Table

/-! ## The search -/

namespace Search

variable {table other : Table} {query : Query} {origin : SymbolId} {fresh : List SymbolId}
  {pending pending' : List (SymbolId × SymbolId)} {trail trail' : Trail}

/-- The hits have the name of the query, and amount to the same. -/
structure HitsAlike (table other : Table) (query : Query) (hits hits' : List Hit) : Prop where
  named : ∀ hit ∈ hits, hit.1 = query.name
  named' : ∀ hit ∈ hits', hit.1 = query.name
  settled : EndAlike List.Perm (table.settle query.name (hits.map (·.2)))
    (other.settle query.name (hits'.map (·.2)))

/-- Without directives a level of a walk is the scope alone. -/
theorem ends_levelHits_alone (alone : (table.config.isCxx && !query.options.ignoreDirectives) = false)
    (scope : SymbolId) (trail : Trail) :
    (levelHits query scope).Ends table trail (.ok (table.scopeHits query scope, trail)) := by
  have hfollows := ends_followsDirectives query table trail
  rw [alone] at hfollows
  exact .read (hfollows.bind_ok (.pure _))

theorem alike_collectHits (exact : query.IsExact) {hits hits' : List Hit}
    (alike : HitsAlike table other query hits hits')
    (beside : Trail.Beside fresh pending pending' trail trail') :
    Alike table other (Trail.Along fresh pending pending' Found.Alike) (collectLevel query hits)
      (collectLevel query hits') trail trail' :=
  alike_collectLevel exact alike.named alike.named' alike.settled fun _ _ perm =>
    ⟨Found.alike_under query.name perm, beside⟩

variable (reorders : table.ReordersDirectives other) (exact : query.IsExact)
  (agrees : query.options.filter.Agrees table other)

include reorders exact agrees

/-- Scopes that are searched together have alike hits, if their declarations are steady. -/
theorem hitsAlike_scopes {scopes scopes' : List SymbolId} (perm : scopes.Perm scopes')
    (steady : 1 < scopes.length → table.Steady (scopes.flatMap (table.answers query))) :
    HitsAlike table other query (scopes.flatMap (table.scopeHits query))
      (scopes'.flatMap (other.scopeHits query)) := by
  refine ⟨table.scopesHits_named exact scopes, other.scopesHits_named exact scopes', ?_⟩
  rw [List.map_flatMap, List.map_flatMap]
  exact reorders.settle_answers_perm exact agrees perm steady query.name

/-- One scope has alike hits. -/
theorem hitsAlike_scope (scope : SymbolId) :
    HitsAlike table other query (table.scopeHits query scope) (other.scopeHits query scope) := by
  have halike := hitsAlike_scopes reorders exact agrees (.refl [scope]) fun several =>
    absurd several (Nat.lt_irrefl 1)
  rwa [List.flatMap_singleton, List.flatMap_singleton] at halike

/-- A search in one scope. -/
theorem alike_lookupIn
    (steady : (table.config.isCxx && !query.options.ignoreDirectives) = true →
      1 < (table.contributing query origin).length →
        table.Steady ((table.contributing query origin).flatMap (table.answers query)))
    (unvisited : trail.fresh = table.ids) :
    Alike table other (fun found found' => found.1.Alike found'.1) (lookupIn query origin)
      (lookupIn query origin) trail trail := by
  have hlevel : ∀ {hits hits' : List Hit}, HitsAlike table other query hits hits' →
      Alike table other (fun found found' => found.1.Alike found'.1)
        (collectLevel query hits >>= addInherited query origin)
        (collectLevel query hits' >>= addInherited query origin) trail trail := by
    intro hits hits' halike
    refine (alike_collectHits exact halike ⟨rfl, rfl, rfl⟩).bind ?_
    rintro ⟨collected, trail⟩ ⟨collected', trail'⟩ ⟨hcollected, beside⟩
    exact (alike_addInherited reorders exact agrees origin hcollected beside).mono fun _ _ along => along.1
  have hkind : (other.symbol origin).type.kind = (table.symbol origin).type.kind := by
    rw [reorders.skeleton.type_eq]
  cases hthrough : ((table.symbol origin).type.kind == .nspace &&
      (table.config.isCxx && !query.options.ignoreDirectives)) with
  | false =>
      refine (hlevel (hitsAlike_scope reorders exact agrees origin)).congr (lookupIn_alone hthrough trail)
        (lookupIn_alone ?_ trail)
      rw [hkind, reorders.skeleton.config]
      exact hthrough
  | true =>
      obtain ⟨hnamespace, hfollows⟩ := Bool.and_eq_true_iff.mp hthrough
      obtain ⟨hcxx, hdirectives⟩ := Bool.and_eq_true_iff.mp hfollows
      have hwhole := exact.not_completing
      refine (hlevel (hitsAlike_scopes reorders exact agrees
        (reorders.perm_contributing exact agrees origin) (steady hfollows))).congr
        (lookupIn_namespace hwhole hcxx (by simpa using hdirectives) (eq_of_beq hnamespace) trail unvisited)
        (lookupIn_namespace hwhole (reorders.skeleton.config ▸ hcxx) (by simpa using hdirectives)
          (hkind.trans (eq_of_beq hnamespace)) trail (unvisited.trans reorders.skeleton.ids_eq.symm))

/-- What is searched at a scope of a walk, and the directives that go on waiting. -/
theorem alike_levelHits (cxx : table.config.isCxx = true)
    (directives : query.options.ignoreDirectives = false) (distinct : fresh.Nodup)
    (waiting : ∀ entry, entry ∈ pending ↔ entry ∈ pending') (scope : SymbolId)
    (steady : 1 < (table.level fresh pending scope).length →
      table.Steady ((table.level fresh pending scope).flatMap (table.answers query)))
    (beside : Trail.Beside fresh pending pending' trail trail') :
    Alike table other
      (Trail.Along (table.freshAfter fresh pending scope)
        (table.activateDirectives fresh pending scope).pending
        (other.activateDirectives fresh pending' scope).pending (HitsAlike table other query))
      (levelHits query scope) (levelHits query scope) trail trail' := by
  obtain ⟨rfl, rfl, rfl⟩ := beside
  have hperm := reorders.perm_activated distinct waiting scope
  refine ⟨_, _, ends_levelHits cxx directives scope trail,
    ends_levelHits (reorders.skeleton.config ▸ cxx) directives scope _,
    .ok ⟨hitsAlike_scopes reorders exact agrees (hperm.cons scope) steady, rfl, rfl, ?_⟩⟩
  simp only [Trail.passing, Table.freshAfter, hperm.mem_iff]

/-- A scope of the walk whose hits are alike, and what comes after it. -/
theorem alike_walk_cons {scope : SymbolId} {outer : List SymbolId} {found found' : Found}
    (first : Alike table other (Trail.Along fresh pending pending' (HitsAlike table other query))
      (levelHits query scope) (levelHits query scope) trail trail')
    (onward : ∀ found found' trail trail', found.Alike found' →
      Trail.Beside fresh pending pending' trail trail' →
      Alike table other (fun found found' => found.1.Alike found'.1) (walk query outer found)
        (walk query outer found') trail trail')
    (alike : found.Alike found') :
    Alike table other (fun found found' => found.1.Alike found'.1) (walk query (scope :: outer) found)
      (walk query (scope :: outer) found') trail trail' := by
  refine first.bind ?_
  rintro ⟨hits, trail⟩ ⟨hits', trail'⟩ ⟨halike, beside⟩
  refine (alike_collectHits exact halike beside).bind ?_
  rintro ⟨collected, trail⟩ ⟨collected', trail'⟩ ⟨hcollected, beside⟩
  refine (alike_addInherited reorders exact agrees scope hcollected beside).bind ?_
  rintro ⟨level, trail⟩ ⟨level', trail'⟩ ⟨hlevel, beside⟩
  have hfilled := alike.fill hlevel
  dsimp only
  rw [hfilled.isSatisfied_eq]
  split
  · exact .pure hfilled
  · exact onward _ _ trail trail' hfilled beside

/-- A walk outward along a chain of scopes. -/
theorem alike_walk {chain : List SymbolId} {found found' : Found} (distinct : fresh.Nodup)
    (waiting : ∀ entry, entry ∈ pending ↔ entry ∈ pending')
    (steady : (table.config.isCxx && !query.options.ignoreDirectives) = true →
      ∀ scopes ∈ table.levels chain fresh pending, 1 < scopes.length →
        table.Steady (scopes.flatMap (table.answers query)))
    (alike : found.Alike found') (beside : Trail.Beside fresh pending pending' trail trail') :
    Alike table other (fun found found' => found.1.Alike found'.1) (walk query chain found)
      (walk query chain found') trail trail' := by
  induction chain generalizing fresh pending pending' trail trail' found found' with
  | nil => exact .pure alike
  | cons scope outer ih =>
      cases hfollows : (table.config.isCxx && !query.options.ignoreDirectives) with
      | false =>
          -- No directive is looked at, so the trails go on as they are.
          have hlevel : Alike table other (Trail.Along fresh pending pending' (HitsAlike table other query))
              (levelHits query scope) (levelHits query scope) trail trail' :=
            ⟨_, _, ends_levelHits_alone hfollows scope trail,
              ends_levelHits_alone (reorders.skeleton.config ▸ hfollows) scope trail',
              .ok ⟨hitsAlike_scope reorders exact agrees scope, beside⟩⟩
          refine alike_walk_cons reorders exact agrees hlevel ?_ alike
          exact fun found found' trail trail' halike hbeside =>
            ih distinct waiting (fun follows => absurd (hfollows.symm.trans follows) (by decide)) halike
              hbeside
      | true =>
          -- The same namespaces become visible, and the same directives wait for the outer scopes.
          obtain ⟨hcxx, hdirectives⟩ := Bool.and_eq_true_iff.mp hfollows
          have hlevel := alike_levelHits reorders exact agrees hcxx (by simpa using hdirectives) distinct
            waiting scope (steady hfollows _ List.mem_cons_self) beside
          refine alike_walk_cons reorders exact agrees hlevel ?_ alike
          exact fun found found' trail trail' halike hbeside =>
            ih (distinct.filter _) (reorders.mem_pending distinct waiting scope)
              (fun _ scopes later => steady hfollows scopes (List.mem_cons_of_mem _ later)) halike hbeside

/-- A lookup from a scope. -/
theorem alike_answer
    (steady : ∀ scopes ∈ table.searchedTogether query origin, 1 < scopes.length →
      table.Steady (scopes.flatMap (table.answers query))) :
    Alike table other (fun found found' => found.1.Alike found'.1) (answer query origin)
      (answer query origin) { fresh := table.ids } { fresh := table.ids } := by
  refine .read ?_
  unfold Table.searchedTogether at steady
  cases hqualified : query.options.qualified with
  | true =>
      simp only [hqualified, if_true] at steady ⊢
      refine alike_lookupIn reorders exact agrees (fun follows => ?_) rfl
      rw [if_pos follows] at steady
      exact steady _ List.mem_cons_self
  | false =>
      simp only [hqualified, Bool.false_eq_true, if_false] at steady ⊢
      rw [reorders.skeleton.scopeChain_eq]
      refine alike_walk reorders exact agrees table.nodup_ids (fun _ => Iff.rfl) (fun follows => ?_) .nil
        ⟨rfl, rfl, rfl⟩
      rw [if_pos follows] at steady
      exact steady

end Search

namespace Analysis

/-- In whatever order scopes list their using-directives, a lookup for one name without argument types finds
the same symbols or fails with the same error, qualified or not, from any scope.  Wherever the lookup merges
the declarations of several scopes, these have to be steady: tags meet nothing but tags, or each entity
counts as declared in one scope. -/
theorem directive_order_irrelevant (table other : Table) (start : SymbolId) (name : Name)
    (options : LookupOptions) (exact : options.IsExact) (agrees : options.filter.Agrees table other)
    (reorders : table.ReordersDirectives other)
    (steady : ∀ scopes ∈
        table.searchedTogether (table.query name options) (table.resolveNamespace start),
      1 < scopes.length →
        table.Steady (scopes.flatMap (table.answers (table.query name options)))) :
    FindAlike (lookup start name options table) (lookup start name options other) := by
  have hquery := exact.query_eq table other name
  have hstart := reorders.skeleton.resolveNamespace_eq start
  obtain ⟨outcome, outcome', hends, hends', halike⟩ :=
    Search.alike_answer reorders (exact.query table name) agrees steady
  rw [← hquery, ← hstart, ← reorders.skeleton.ids_eq] at hends'
  cases halike with
  | error error =>
      rw [lookup_of_error exact hends, lookup_of_error exact hends']
      exact .failed _
  | @ok found found' same =>
      rw [lookup_of_ends exact hends, lookup_of_ends exact hends']
      exact .found (same.mem_symbols _ _)

/-- The namespaces 1, 2 and 3 declare functions of one name.  The first nominates the third, and the global
scope nominates other namespaces in the given order. -/
def nominatingTable (order : List SymbolId) : Table :=
  finalTable (Table.new {}) do
    for name in [18, 19, 20] do
      let made ← createContainer ⟨name⟩ (.ofKind .nspace)
      addSymbol Table.globalScope made
    addUsingDirective ⟨1⟩ ⟨3⟩
    for scope in [1, 2, 3] do
      let made ← createFunction ⟨17⟩ .function
      addSymbol ⟨scope⟩ made
    for nominated in order do
      addUsingDirective Table.globalScope nominated

theorem nominating_reorders :
    (nominatingTable [⟨1⟩, ⟨2⟩]).ReordersDirectives (nominatingTable [⟨2⟩, ⟨1⟩]) :=
  .of_symbols (by cbv) (by cbv) (by cbv) (by decide +kernel)

/-- None of the declarations is a tag. -/
theorem nominating_steady : ∀ scopes ∈ (nominatingTable [⟨1⟩, ⟨2⟩]).searchedTogether
    ((nominatingTable [⟨1⟩, ⟨2⟩]).query ⟨17⟩ {})
    ((nominatingTable [⟨1⟩, ⟨2⟩]).resolveNamespace Table.globalScope), 1 < scopes.length →
      (nominatingTable [⟨1⟩, ⟨2⟩]).Steady (scopes.flatMap
        ((nominatingTable [⟨1⟩, ⟨2⟩]).answers ((nominatingTable [⟨1⟩, ⟨2⟩]).query ⟨17⟩ {}))) := by
  have hsearched : (nominatingTable [⟨1⟩, ⟨2⟩]).searchedTogether
      ((nominatingTable [⟨1⟩, ⟨2⟩]).query ⟨17⟩ {})
      ((nominatingTable [⟨1⟩, ⟨2⟩]).resolveNamespace Table.globalScope) =
        [[⟨0⟩, ⟨1⟩, ⟨2⟩, ⟨3⟩]] := by cbv
  rw [hsearched]
  intro scopes member _
  rw [List.mem_singleton.mp member]
  unfold Table.Steady
  left
  decide +kernel

/-- All three functions are found from the global scope, whichever namespace is nominated first. -/
theorem nominating_order_irrelevant :
    lookup Table.globalScope ⟨17⟩ {} (nominatingTable [⟨1⟩, ⟨2⟩]) =
        .ok { entries := [(⟨17⟩, [⟨4⟩, ⟨5⟩, ⟨6⟩])] } (nominatingTable [⟨1⟩, ⟨2⟩]) ∧
      FindAlike (lookup Table.globalScope ⟨17⟩ {} (nominatingTable [⟨1⟩, ⟨2⟩]))
        (lookup Table.globalScope ⟨17⟩ {} (nominatingTable [⟨2⟩, ⟨1⟩])) := by
  have halike := directive_order_irrelevant (nominatingTable [⟨1⟩, ⟨2⟩]) (nominatingTable [⟨2⟩, ⟨1⟩])
    Table.globalScope ⟨17⟩ {} ⟨rfl, rfl⟩ trivial nominating_reorders nominating_steady
  exact ⟨by cbv, halike⟩

/-- The namespace 1 declares a class, and 2 a function of the same name.  Using-declarations bring the class
into 2 and into 3, and the global scope nominates 2 and 3 in the given order. -/
def hidingTable (order : List SymbolId) : Table :=
  finalTable (Table.new {}) do
    for name in [18, 19, 20] do
      let made ← createContainer ⟨name⟩ (.ofKind .nspace)
      addSymbol Table.globalScope made
    let tag ← createClass ⟨17⟩ .struct
    addSymbol ⟨1⟩ tag
    let _ ← addUsingDeclaration ⟨2⟩ ⟨17⟩ ⟨1⟩
    let function ← createFunction ⟨17⟩ .function
    addSymbol ⟨2⟩ function
    let _ ← addUsingDeclaration ⟨3⟩ ⟨17⟩ ⟨1⟩
    for nominated in order do
      addUsingDirective Table.globalScope nominated

-- Found first beside the function, the class is hidden; found first elsewhere, it is ambiguous.
example :
    lookup Table.globalScope ⟨17⟩ {} (hidingTable [⟨2⟩, ⟨3⟩]) =
        .ok { entries := [(⟨17⟩, [⟨6⟩])] } (hidingTable [⟨2⟩, ⟨3⟩]) ∧
      lookup Table.globalScope ⟨17⟩ {} (hidingTable [⟨3⟩, ⟨2⟩]) =
        .error (.error (.ambiguous ⟨17⟩)) (hidingTable [⟨3⟩, ⟨2⟩]) :=
  ⟨by cbv, by cbv⟩

end Analysis

end NameBinding
