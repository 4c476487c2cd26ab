import NameBinding.Proofs.Lookup.Inherited
import NameBinding.Proofs.Lookup.Levels

/-!
# Unqualified lookup through using-directives

An unqualified lookup walks outward, and at each scope it also searches the namespaces that become visible
there.  A name with a single declaration in a namespace is found exactly if the namespace is visible,
however the directives are nested and whether they run in circles.

* `Table.NotParameter`: no parameter of a scope has the name.
* `Table.SoleDeclaration`: the name has one declaration at most, a member of namespaces.
* `Search.ends_walk_answered` and `Search.ends_walk_unanswered`: one step of the walk, which ends it or
  leaves it to the outer scopes.
* `Search.ends_walk`: the walk finds the declaration if it searches a scope that has it.

The main statement is `unqualified_lookup_follows_directives`.
-/

namespace NameBinding

open Relation

namespace Table

variable {table : Table} {query : Query} {scope home declared : SymbolId} {name : Name}
  {found : List SymbolId}

/-- No parameter of the scope has the name, under which an out-of-line definition knows no template
parameter either. -/
structure NotParameter (table : Table) (name : Name) (scope : SymbolId) : Prop where
  parameters : ∀ parameter ∈ (table.symbol scope).parameters, (table.symbol parameter).name ≠ name
  renamed : ∀ data, (table.symbol scope).templateData? = some data →
    ∀ entry ∈ data.definitionParameters, entry.1 ≠ name

/-- Only symbols of the table have members. -/
theorem lt_size_of_members (declares : table.members scope name ≠ []) : scope.index < table.size := by
  refine lt_size_of_symbol (fun symbol => !(symbol.membersNamed name).isEmpty) rfl ?_
  simpa [members] using declares

/-- A scope in which no parameter has the name answers with its members. -/
theorem answers_of_notParameter (exact : query.IsExact) (any : query.options.filter = .any)
    (notParameter : table.NotParameter query.name scope) :
    table.answers query scope = table.members scope query.name := by
  have hnamed : ∀ other, table.nameMatches query other = true → other = query.name := by
    simp [nameMatches, exact.whole]
  have hparameters : table.parameterHits query (table.symbol scope) = [] := by
    refine List.filter_eq_nil_iff.mpr fun hit member matchesName => ?_
    obtain ⟨parameter, hparameter, rfl⟩ := List.mem_map.mp member
    exact notParameter.parameters parameter hparameter (hnamed _ matchesName)
  have hrenamed : table.definitionHits query (table.symbol scope) = [] := by
    have hnone : (((table.symbol scope).templateData?.map (·.definitionParameters)).getD []).filter
        (fun hit => table.nameMatches query hit.1) = [] := by
      refine List.filter_eq_nil_iff.mpr fun hit member matchesName => ?_
      cases hdata : (table.symbol scope).templateData? with
      | none => simp [hdata] at member
      | some data =>
          rw [hdata] at member
          exact notParameter.renamed data hdata hit member (hnamed _ matchesName)
    rw [definitionHits, hnone, List.mergeSort_nil]
  rw [table.answers_of_any exact any, hparameters, hrenamed]
  exact List.append_nil _

/-- A walk meets a declaration of the name at its first scope, or further out. -/
theorem exists_searched_cons (exact : query.IsExact) (any : query.options.filter = .any)
    (outer : List SymbolId) {fresh : List SymbolId} {pending : List (SymbolId × SymbolId)}
    (notParameter : ∀ other ∈ table.level fresh pending scope, table.NotParameter query.name other) :
    (∃ other, table.Searched (scope :: outer) fresh pending other ∧
        table.members other query.name ≠ []) ↔
      (table.level fresh pending scope).flatMap (table.answers query) ≠ [] ∨
        ∃ other, table.Searched outer (table.freshAfter fresh pending scope)
            (table.activateDirectives fresh pending scope).pending other ∧
          table.members other query.name ≠ [] := by
  have hanswers : ∀ other ∈ table.level fresh pending scope,
      table.answers query other = table.members other query.name := fun other member =>
    answers_of_notParameter exact any (notParameter other member)
  have hhere : (table.level fresh pending scope).flatMap (table.answers query) ≠ [] ↔
      ∃ other, other ∈ table.level fresh pending scope ∧ table.members other query.name ≠ [] := by
    rw [Ne, List.flatMap_eq_nil_iff]
    push Not
    exact exists_congr fun other => and_congr_right fun member => by rw [hanswers other member]
  rw [hhere]
  simp only [searched_cons, or_and_right, exists_or]

/-! ## One declaration -/

/-- Copies of one declaration count once. -/
theorem classify_of_forall_eq (nonempty : found ≠ []) (same : ∀ id ∈ found, id = declared) :
    table.classify found = table.classify [declared] := by
  have hdeduplicated : (found.map fun id => (id, table.canonical id)).eraseDupsBy (fun a b => a.2 == b.2) =
      [(declared, table.canonical declared)] := by
    cases found with
    | nil => exact absurd rfl nonempty
    | cons first rest =>
        obtain rfl := same first List.mem_cons_self
        have hrest : (rest.map fun id => (id, table.canonical id)).filter
            (fun other => decide ((other.2 == table.canonical first) = false)) = [] := by
          refine List.filter_eq_nil_iff.mpr fun pair member => ?_
          obtain ⟨id, hid, rfl⟩ := List.mem_map.mp member
          simp [same id (List.mem_cons_of_mem first hid)]
        rw [List.map_cons, List.eraseDupsBy_cons]
        exact congrArg _ (congrArg _ hrest)
  unfold classify
  rw [hdeduplicated]
  rfl

/-- Copies of one declaration amount to the entity it stands for. -/
theorem settle_of_forall_eq (name : Name) (nonempty : found ≠ []) (same : ∀ id ∈ found, id = declared)
    (notFriend : (table.symbol (table.canonical declared)).type.isFriend = false) :
    table.settle name found = .ok [table.canonical declared] := by
  have hclassify := table.classify_of_forall_eq nonempty same
  have hsingle : [(declared, table.canonical declared)].eraseDupsBy
      (fun a b : SymbolId × SymbolId => a.2 == b.2) = [(declared, table.canonical declared)] := rfl
  unfold settle entities Candidates.entities
  rw [hclassify]
  unfold classify
  simp only [List.map_cons, List.map_nil, hsingle, List.filter_cons, notFriend, Bool.not_false, if_true,
    List.filter_nil]
  cases hclass : table.declClass (table.canonical declared) <;>
    cases htemplate : (table.symbol (table.canonical declared)).isTemplate <;>
    simp [htemplate, Candidates.isAmbiguous, Candidates.clashesWithTag, Candidates.hidingScopes,
      Candidates.select, Candidates.hidesTag]

/-- The name has one declaration at most, a member of namespaces that is no friend. -/
def SoleDeclaration (table : Table) (name : Name) (declared : SymbolId) : Prop :=
  ∀ scope, ∀ id ∈ table.members scope name, id = declared ∧ (table.symbol scope).type.kind = .nspace ∧
    (table.symbol (table.canonical id)).type.isFriend = false

namespace SoleDeclaration

variable (sole : table.SoleDeclaration query.name declared) (exact : query.IsExact)
  (any : query.options.filter = .any)

include sole exact any

/-- A scope answers with the declaration or not at all. -/
theorem settle_answers {scopes : List SymbolId}
    (notParameter : ∀ scope ∈ scopes, table.NotParameter query.name scope) :
    table.settle query.name (scopes.flatMap (table.answers query)) =
      .ok (if scopes.flatMap (table.answers query) = [] then [] else [table.canonical declared]) := by
  have hanswers : ∀ id ∈ scopes.flatMap (table.answers query), id = declared ∧
      (table.symbol (table.canonical declared)).type.isFriend = false := by
    intro id member
    obtain ⟨scope, hscope, hid⟩ := List.mem_flatMap.mp member
    rw [answers_of_notParameter exact any (notParameter scope hscope)] at hid
    obtain ⟨rfl, -, hfriend⟩ := sole scope id hid
    exact ⟨rfl, hfriend⟩
  by_cases hempty : scopes.flatMap (table.answers query) = []
  · rw [hempty, if_pos rfl, settle_nil]
  · rw [if_neg hempty]
    obtain ⟨id, member⟩ := List.exists_mem_of_ne_nil _ hempty
    exact settle_of_forall_eq query.name hempty (fun id member => (hanswers id member).1)
      (hanswers id member).2

/-- No class declares the name. -/
theorem answers_of_isClass (notParameter : table.NotParameter query.name scope)
    (isClass : (table.symbol scope).type.kind.isClass = true) : table.answers query scope = [] := by
  rw [answers_of_notParameter exact any notParameter]
  refine List.eq_nil_iff_forall_not_mem.mpr fun id member => ?_
  rw [(sole scope id member).2.1] at isClass
  cases isClass

variable (classes : ∀ id, (table.symbol id).type.kind.isClass = true → table.NotParameter query.name id)

include classes

/-- A scope that has no answer inherits none. -/
theorem answers_of_hasBase {id : SymbolId} (silent : table.answers query scope = [])
    (above : ReflTransGen table.HasBase scope id) : table.answers query id = [] := by
  rcases above.cases_tail with rfl | ⟨derived, -, isVirtual, listed⟩
  · exact silent
  · obtain ⟨link, -, isBase⟩ := List.mem_filterMap.mp listed
    have hclass := (Search.classBase?_eq_some isBase).1
    exact sole.answers_of_isClass exact any (classes id hclass) hclass

end SoleDeclaration

end Table

/-! ## One step of the walk -/

/-- What the search remembers when the directives that are anchored at a scope have been applied. -/
def Trail.passing (table : Table) (trail : Trail) (scope : SymbolId) : Trail :=
  { trail with
    fresh := table.freshAfter trail.fresh trail.pending scope
    pending := (table.activateDirectives trail.fresh trail.pending scope).pending }

namespace Search

variable {table : Table} {query : Query} {scope declared : SymbolId} {outer : List SymbolId}

/-- At a scope the walk searches the scope and the namespaces that become visible. -/
theorem ends_levelHits (cxx : table.config.isCxx = true)
    (directives : query.options.ignoreDirectives = false) (scope : SymbolId) (trail : Trail) :
    (levelHits query scope).Ends table trail
      (.ok ((table.level trail.fresh trail.pending scope).flatMap (table.scopeHits query),
        trail.passing table scope)) := by
  have hfollows := ends_followsDirectives query table trail
  rw [cxx, directives] at hfollows
  exact .read (hfollows.bind_ok (.get (.set (.pure _))))

/-- A scope that supplied something inherits nothing more. -/
theorem ends_addInherited_satisfied (acyclic : table.AcyclicBases scope) {collected : Found}
    (satisfied : query.isSatisfied collected = true) (trail : Trail) :
    ∃ proved, (addInherited query scope collected).Ends table trail
      (.ok (collected, { trail with acyclic := proved })) := by
  by_cases hparents : (table.symbol scope).parents = []
  · exact ⟨trail.acyclic, ends_addInherited_of_parentless hparents query trail collected⟩
  · obtain ⟨proved, hcheck⟩ := ends_checkInheritance acyclic trail
    refine ⟨proved, .read ?_⟩
    rw [if_neg (by simpa using hparents)]
    refine hcheck.bind_ok ?_
    rw [if_pos satisfied]
    exact .pure collected

section Sole

variable (sole : table.SoleDeclaration query.name declared) (exact : query.IsExact)
  (any : query.options.filter = .any)

include sole exact any

/-- What the walk collects at a scope. -/
theorem ends_collectAnswers {scopes : List SymbolId}
    (notParameter : ∀ other ∈ scopes, table.NotParameter query.name other) (trail : Trail) :
    (collectLevel query (scopes.flatMap (table.scopeHits query))).Ends table trail
      (.ok (Found.under query.name
        (if scopes.flatMap (table.answers query) = [] then [] else [table.canonical declared]), trail)) := by
  have hcollect := ends_collectScopes exact table trail scopes
  rwa [sole.settle_answers exact any notParameter] at hcollect

/-- The walk stops at a scope where the declaration is found. -/
theorem ends_walk_answered (cxx : table.config.isCxx = true)
    (directives : query.options.ignoreDirectives = false) (outer : List SymbolId)
    (acyclic : table.AcyclicBases scope) (trail : Trail)
    (notParameter : ∀ other ∈ table.level trail.fresh trail.pending scope,
      table.NotParameter query.name other)
    (answer : (table.level trail.fresh trail.pending scope).flatMap (table.answers query) ≠ []) :
    ∃ proved, (walk query (scope :: outer) []).Ends table trail
      (.ok (Found.under query.name [table.canonical declared],
        { trail.passing table scope with acyclic := proved })) := by
  have hcollect := ends_collectAnswers sole exact any notParameter (trail.passing table scope)
  rw [if_neg answer] at hcollect
  have hsatisfied : query.isSatisfied (Found.under query.name [table.canonical declared]) = true :=
    Found.isSatisfied_under exact _
  obtain ⟨proved, hinherited⟩ := ends_addInherited_satisfied acyclic hsatisfied (trail.passing table scope)
  refine ⟨proved, (ends_levelHits cxx directives scope trail).bind_ok
    (hcollect.bind_ok (hinherited.bind_ok ?_))⟩
  simp only [Found.nil_fill, hsatisfied, Bool.true_or, if_true]
  exact .pure _

variable (classes : ∀ id, (table.symbol id).type.kind.isClass = true → table.NotParameter query.name id)

include classes

/-- A scope that has no answer itself finds nothing in its bases either. -/
theorem ends_addInherited_unanswered (acyclic : table.AcyclicBases scope)
    (silent : table.answers query scope = []) (trail : Trail) :
    ∃ visited proved, (addInherited query scope []).Ends table trail
      (.ok ([], { trail with virtualBases := visited, acyclic := proved })) := by
  have hanswers : ∀ {id}, ReflTransGen table.HasBase scope id → table.answers query id = [] :=
    fun above => sole.answers_of_hasBase exact any classes silent above
  have hsupply : ∀ {id}, ReflTransGen table.HasBase scope id → table.supply query id = [] := by
    intro id above
    rw [Table.supply, hanswers above]
    rfl
  obtain ⟨hits, visited, proved, hrun, hends⟩ := ends_addInherited exact acyclic trail
  have hnone : hits = [] := by
    refine List.eq_nil_iff_forall_not_mem.mpr fun hit member => ?_
    obtain ⟨hexposed, hfound⟩ := hrun.sound .whole (hsupply .refl) rfl hit member
    exact hfound (hsupply (Table.hasBase_of_exposed hexposed))
  rw [hnone, Table.reported_of_concordant (.nil table query)] at hends
  exact ⟨visited, proved, hends⟩

variable (cxx : table.config.isCxx = true) (directives : query.options.ignoreDirectives = false)
  (unstopped : query.options.stopScope = none)

include cxx directives unstopped

/-- The walk goes on outward from a scope where nothing is found. -/
theorem ends_walk_unanswered (acyclic : table.AcyclicBases scope) (trail : Trail)
    (notParameter : ∀ other ∈ table.level trail.fresh trail.pending scope,
      table.NotParameter query.name other)
    (silent : (table.level trail.fresh trail.pending scope).flatMap (table.answers query) = []) :
    ∃ visited proved, ∀ outcome,
      (walk query outer []).Ends table
          { trail.passing table scope with virtualBases := visited, acyclic := proved } outcome →
        (walk query (scope :: outer) []).Ends table trail outcome := by
  have hcollect := ends_collectAnswers sole exact any notParameter (trail.passing table scope)
  rw [if_pos silent] at hcollect
  obtain ⟨visited, proved, hinherited⟩ := ends_addInherited_unanswered sole exact any classes acyclic
    (List.flatMap_eq_nil_iff.mp silent scope List.mem_cons_self) (trail.passing table scope)
  refine ⟨visited, proved, fun outcome further => (ends_levelHits cxx directives scope trail).bind_ok
    (hcollect.bind_ok (hinherited.bind_ok ?_))⟩
  simp only [Found.fill, List.filter_nil, List.append_nil, Found.isSatisfied_nil, unstopped]
  exact further

/-- The walk finds the entity if it searches a scope that declares the name, and otherwise nothing. -/
theorem ends_walk {chain : List SymbolId} (acyclic : ∀ scope ∈ chain, table.AcyclicBases scope)
    (trail : Trail)
    (notParameter : ∀ scope, table.Searched chain trail.fresh trail.pending scope →
      table.NotParameter query.name scope) :
    ∃ ids after, after.ambiguous = trail.ambiguous ∧
      ((∃ scope, table.Searched chain trail.fresh trail.pending scope ∧
          table.members scope query.name ≠ []) ∧ ids = [table.canonical declared] ∨
        (¬ ∃ scope, table.Searched chain trail.fresh trail.pending scope ∧
          table.members scope query.name ≠ []) ∧ ids = []) ∧
      (walk query chain []).Ends table trail (.ok (Found.under query.name ids, after)) := by
  induction chain generalizing trail with
  | nil =>
      refine ⟨[], trail, rfl, .inr ⟨?_, rfl⟩, .pure []⟩
      rintro ⟨scope, ⟨level, member, -⟩, -⟩
      exact absurd member List.not_mem_nil
  | cons scope outer ih =>
      have hscope := acyclic scope List.mem_cons_self
      have hhere : ∀ other ∈ table.level trail.fresh trail.pending scope,
          table.NotParameter query.name other := fun other member =>
        notParameter other (Table.searched_cons.mpr (.inl member))
      rw [Table.exists_searched_cons exact any outer hhere]
      by_cases hsilent :
          (table.level trail.fresh trail.pending scope).flatMap (table.answers query) = []
      · obtain ⟨visited, proved, hfurther⟩ := ends_walk_unanswered sole exact any classes cxx directives
          unstopped hscope trail hhere hsilent
        obtain ⟨ids, after, hambiguous, hids, hwalk⟩ := ih
          (fun other member => acyclic other (List.mem_cons_of_mem scope member))
          { trail.passing table scope with virtualBases := visited, acyclic := proved }
          fun other searched => notParameter other (Table.searched_cons.mpr (.inr searched))
        rw [or_iff_right (not_not_intro hsilent)]
        exact ⟨ids, after, hambiguous, hids, hfurther _ hwalk⟩
      · obtain ⟨proved, hfound⟩ := ends_walk_answered sole exact any cxx directives outer hscope trail hhere
          hsilent
        exact ⟨_, { trail.passing table scope with acyclic := proved }, rfl, .inl ⟨.inl hsilent, rfl⟩, hfound⟩

end Sole

end Search

/-! ## The lookup -/

namespace Table

variable {table : Table} {start origin : SymbolId} {name : Name}

/-- What an unqualified lookup of a name relies on: no scope contains itself, the chain of `origin` ends at
the global scope, its classes have acyclic bases, and no parameter on it has the name.  Parameters belong to
functions and templates, so classes and nominated namespaces have none of that name either. -/
structure LooksOutward (table : Table) (origin : SymbolId) (name : Name) : Prop where
  scopes : ∀ id, ¬ TransGen table.InsideOf id id
  ends : (table.scopeChain origin).getLast? = some globalScope
  acyclic : ∀ scope ∈ table.scopeChain origin, table.AcyclicBases scope
  notParameter : ∀ scope ∈ table.scopeChain origin, table.NotParameter name scope
  nominated : ∀ scope, ∀ id ∈ table.nominated scope, table.NotParameter name id
  classes : ∀ id, (table.symbol id).type.kind.isClass = true → table.NotParameter name id

end Table

namespace Analysis

open Table

variable {table : Table} {start origin declared : SymbolId} {name : Name}

/-- An unqualified lookup of a name with one declaration at most finds it if a visible scope has it. -/
theorem lookupName_of_sole (cxx : table.config.isCxx = true)
    (resolved : table.resolveNamespace start = origin) (outward : table.LooksOutward origin name)
    (sole : table.SoleDeclaration name declared) :
    ((∃ scope, table.VisibleFrom origin scope ∧ table.members scope name ≠ []) →
      lookupName start name table = .ok (some (table.canonical declared)) table) ∧
    ((¬ ∃ scope, table.VisibleFrom origin scope ∧ table.members scope name ≠ []) →
      lookupName start name table = .ok none table) := by
  subst resolved
  have hexact : LookupOptions.IsExact {} := ⟨rfl, rfl⟩
  have hsearched : ∀ scope, table.members scope name ≠ [] →
      (table.Searched (table.scopeChain (table.resolveNamespace start)) table.ids [] scope ↔
        table.VisibleFrom (table.resolveNamespace start) scope) := fun scope declares =>
    searched_iff outward.scopes outward.ends (lt_size_of_members declares)
  have hvisible : (∃ scope,
        table.Searched (table.scopeChain (table.resolveNamespace start)) table.ids [] scope ∧
          table.members scope name ≠ []) ↔
      ∃ scope, table.VisibleFrom (table.resolveNamespace start) scope ∧ table.members scope name ≠ [] :=
    exists_congr fun scope => and_congr_left fun declares => hsearched scope declares
  have hnotParameter : ∀ scope,
      table.Searched (table.scopeChain (table.resolveNamespace start)) table.ids [] scope →
        table.NotParameter name scope := by
    rintro scope ⟨level, hlevel, member⟩
    cases visible_of_mem_levels (fun id member => .enclosing member)
        (fun entry member => absurd member List.not_mem_nil) level hlevel scope member with
    | enclosing member => exact outward.notParameter scope member
    | nominated _ nominates => exact outward.nominated _ scope nominates
  obtain ⟨ids, after, hclear, hids, hwalk⟩ := Search.ends_walk sole (hexact.query table name) rfl
    outward.classes cxx rfl rfl outward.acyclic { fresh := table.ids } hnotParameter
  have hanswer : (Search.answer (table.query name {}) (table.resolveNamespace start)).Ends table
      { fresh := table.ids } (.ok (Found.under name ids, after)) := .read hwalk
  have hlookup := lookup_of_found hexact hanswer hclear
  have hname : lookupName start name table = resolveSingle name
      { entries := Found.under name ids : LookupResult }.symbols table := bind_ok hlookup
  rw [← hvisible, hname]
  constructor
  · intro declares
    rcases hids with ⟨-, rfl⟩ | ⟨none, -⟩
    · rfl
    · exact absurd declares none
  · intro none
    rcases hids with ⟨declares, -⟩ | ⟨-, rfl⟩
    · exact absurd declares none
    · rfl

/-- An unqualified lookup in C++ sees what using-directives reach.  It ends on every graph of directives.
A name that is declared nowhere is not found.  A name that is declared once, by a member of a namespace that
is no friend, is found if that namespace belongs to the least set that holds the chain of the starting scope
and all that its members nominate, and not found otherwise. -/
theorem unqualified_lookup_follows_directives (cxx : table.config.isCxx = true)
    (resolved : table.resolveNamespace start = origin) (outward : table.LooksOutward origin name) :
    ((∀ scope, table.members scope name = []) → lookupName start name table = .ok none table) ∧
    ∀ home declared, (table.symbol home).type.kind = .nspace → table.members home name = [declared] →
      (∀ scope, scope ≠ home → table.members scope name = []) →
      (table.symbol (table.canonical declared)).type.isFriend = false →
      (table.VisibleFrom origin home →
          lookupName start name table = .ok (some (table.canonical declared)) table) ∧
        (¬ table.VisibleFrom origin home → lookupName start name table = .ok none table) := by
  constructor
  · intro undeclared
    have hsole : table.SoleDeclaration name globalScope := by
      intro scope id member
      rw [undeclared scope] at member
      cases member
    refine (lookupName_of_sole cxx resolved outward hsole).2 ?_
    rintro ⟨scope, -, declares⟩
    exact declares (undeclared scope)
  · intro home declared isNamespace members others notFriend
    have honly : ∀ scope, table.members scope name ≠ [] → scope = home := fun scope declares => by
      by_contra differs
      exact declares (others scope differs)
    have hsole : table.SoleDeclaration name declared := by
      intro scope id member
      obtain rfl := honly scope (List.ne_nil_of_mem member)
      rw [members, List.mem_singleton] at member
      subst member
      exact ⟨rfl, isNamespace, notFriend⟩
    have hdeclares : table.members home name ≠ [] := by
      rw [members]
      exact List.cons_ne_nil declared []
    obtain ⟨hfound, hnone⟩ := lookupName_of_sole cxx resolved outward hsole
    refine ⟨fun visible => hfound ⟨home, visible, hdeclares⟩, fun hidden => hnone ?_⟩
    rintro ⟨scope, visible, declares⟩
    exact hidden (honly scope declares ▸ visible)

/-- The namespaces 2 and 3 in the namespace 1, a block 4 in the namespace 2, and the namespace 5 with a
function.  The namespace 2 nominates the namespace 3, and this nominates 5 and 2. -/
def nestedTable : Table :=
  finalTable (Table.new {}) do
    for (name, scope) in [(18, 0), (19, 1), (20, 1)] do
      let made ← createContainer ⟨name⟩ (.ofKind .nspace)
      addSymbol ⟨scope⟩ made
    let block ← createContainer ⟨21⟩ (.ofKind .block)
    addSymbol ⟨2⟩ block
    let home ← createContainer ⟨22⟩ (.ofKind .nspace)
    addSymbol globalScope home
    let function ← createFunction ⟨17⟩ .function
    addSymbol home function
    for (scope, nominated) in [(2, 3), (3, 5), (3, 2)] do
      addUsingDirective ⟨scope⟩ ⟨nominated⟩

theorem nested_looksOutward : nestedTable.LooksOutward ⟨4⟩ ⟨17⟩ := by
  have hnotParameter : ∀ id, nestedTable.NotParameter ⟨17⟩ id := by
    intro id
    have hbare := nestedTable.forall_symbol
      (fun symbol => symbol.parameters.isEmpty && symbol.templateData?.isNone) rfl (by decide +kernel) id
    simp only [Bool.and_eq_true, List.isEmpty_iff, Option.isNone_iff_eq_none] at hbare
    refine ⟨fun parameter member => ?_, fun data holds => ?_⟩
    · rw [hbare.1] at member
      cases member
    · rw [hbare.2] at holds
      cases holds
  have hbaseless : ∀ derived base, ¬ nestedTable.Derives derived base := by
    intro derived base derives
    have hnone := nestedTable.forall_symbol (fun symbol => symbol.parents.isEmpty) rfl
      (by decide +kernel) derived
    rw [Derives, bases, List.isEmpty_iff.mp hnone] at derives
    cases derives
  have hinside : ∀ id scope, nestedTable.InsideOf id scope → scope.index < id.index := by
    intro id scope inside
    have hfalls : ∀ index < nestedTable.size, ∀ scope : SymbolId,
        (nestedTable.symbol ⟨index⟩).scope = some scope → scope.index < index := by decide +kernel
    exact hfalls id.index inside.lt_size scope inside
  exact
    { scopes := not_transGen_of_rank SymbolId.index hinside
      ends := by decide +kernel
      acyclic := fun scope _ => .of_rank SymbolId.index
        (fun derived base derives => absurd derives (hbaseless derived base)) scope
      notParameter := fun scope _ => hnotParameter scope
      nominated := fun _ id _ => hnotParameter id
      classes := fun id _ => hnotParameter id }

/-- The function is found from the block, although the directives run in circles. -/
theorem nested_function_found :
    nestedTable.config.isCxx = true ∧ nestedTable.resolveNamespace ⟨4⟩ = ⟨4⟩ ∧
      nestedTable.LooksOutward ⟨4⟩ ⟨17⟩ ∧
      lookupName ⟨4⟩ ⟨17⟩ nestedTable = .ok (some ⟨6⟩) nestedTable := by
  have hcxx : nestedTable.config.isCxx = true := by decide +kernel
  have hresolved : nestedTable.resolveNamespace ⟨4⟩ = ⟨4⟩ := by decide +kernel
  have hothers : ∀ scope, scope ≠ ⟨5⟩ → nestedTable.members scope ⟨17⟩ = [] := by
    intro scope differs
    by_contra declares
    have hhome : ∀ index < nestedTable.size, nestedTable.members ⟨index⟩ ⟨17⟩ ≠ [] → index = 5 := by
      decide +kernel
    exact differs (congrArg SymbolId.mk (hhome scope.index (lt_size_of_members declares) declares))
  have hvisible : nestedTable.VisibleFrom ⟨4⟩ ⟨5⟩ := by
    have hinner : nestedTable.VisibleFrom ⟨4⟩ ⟨2⟩ := .enclosing (by decide +kernel)
    have hsibling : nestedTable.VisibleFrom ⟨4⟩ ⟨3⟩ := .nominated hinner (by decide +kernel)
    exact .nominated hsibling (by decide +kernel)
  have hcanonical : nestedTable.canonical ⟨6⟩ = ⟨6⟩ := by decide +kernel
  have hfound := ((unqualified_lookup_follows_directives hcxx hresolved nested_looksOutward).2 ⟨5⟩ ⟨6⟩
    (by decide +kernel) (by decide +kernel) hothers (by decide +kernel)).1 hvisible
  rw [hcanonical] at hfound
  exact ⟨hcxx, hresolved, nested_looksOutward, hfound⟩

end Analysis

end NameBinding
