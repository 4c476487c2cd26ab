import NameBinding.Lookup.Directive
import NameBinding.Lookup.Inherited
import NameBinding.Conversion.UserDefined

/-!
# Name lookup

An unqualified lookup walks outward from its starting scope.  At each scope it searches the scope
itself, the namespaces whose using-directives are anchored there, and the bases of a class, and it
stops at the first scope that supplies the name.  A qualified lookup searches one scope, its bases,
or the namespaces it nominates.

In completion mode the walk never stops early, finds every name with the given beginning, and notes
ambiguous names instead of failing.
-/

namespace NameBinding

/-- What a lookup found. -/
structure LookupResult where
  /-- The declarations by name: at most one name, except in completion mode. -/
  entries : Found := []
  /-- The ambiguous names of completion mode. -/
  ambiguous : List Name := []

namespace LookupResult

/-- The declarations of the first, and normally only, name. -/
def symbols (result : LookupResult) : List SymbolId :=
  match result.entries with
  | [] => []
  | entry :: _ => entry.2

end LookupResult

namespace Search

/-- Are using-directives to be followed? -/
def followsDirectives (query : Query) : Search Bool := do
  let table ← Search.table
  pure (table.config.isCxx && !query.options.ignoreDirectives)

/-- The hits of a scope together with those of the namespaces that become visible there. -/
def levelHits (query : Query) (scope : SymbolId) : Search (List Hit) := do
  let table ← Search.table
  let own := table.scopeHits query scope
  if ← followsDirectives query then do
    let trail ← get
    let active := table.activateDirectives trail.fresh trail.pending scope
    set { trail with
      fresh := trail.fresh.filter (· ∉ active.namespaces)
      pending := active.pending }
    pure (own ++ active.namespaces.flatMap (table.scopeHits query))
  else pure own

/-- Walk outward along a chain of scopes. -/
def walk (query : Query) : List SymbolId → Found → Search Found
  | [], found => pure found
  | scope :: outer, found => do
      let hits ← levelHits query scope
      let collected ← collectLevel query hits
      let level ← addInherited query scope collected
      let found := found.fill level
      if query.isSatisfied found || query.options.stopScope == some scope then pure found
      else walk query outer found

/-- Search one scope only. -/
def lookupIn (query : Query) (scope : SymbolId) : Search Found := do
  let table ← Search.table
  let own := table.scopeHits query scope
  let isNamespace := (table.symbol scope).type.kind == .nspace
  let directives ← followsDirectives query
  let hits ←
    if isNamespace && directives && (own.isEmpty || query.isCompleting) then do
      let trail ← get
      let reached := table.reachedNamespaces query trail.fresh scope
      pure (own ++ reached.flatMap (table.scopeHits query))
    else pure own
  let collected ← collectLevel query hits
  addInherited query scope collected

/-- Carry out a query from a starting scope. -/
def answer (query : Query) (scope : SymbolId) : Search Found := do
  let table ← Search.table
  if query.options.qualified then lookupIn query scope
  else walk query (table.scopeChain scope) []

end Search

namespace Table

/-- The order of names in a completion list: by lowercased spelling, then by spelling. -/
def namePrecedes (table : Table) (a b : Name) : Bool :=
  let lowA := Text.lowercase (table.spelling a)
  let lowB := Text.lowercase (table.spelling b)
  lowA < lowB || (lowA == lowB && !(table.spelling b < table.spelling a))

/-- The query of a lookup. -/
def query (table : Table) (name : Name) (options : LookupOptions) : Query where
  name
  stem := if options.completing then some (Text.lowercase (table.spelling name)) else none
  options

/-- The result of a lookup; completion lists are sorted. -/
def lookupResult (table : Table) (query : Query) (found : Found) (ambiguous : List Name) :
    LookupResult where
  entries :=
    if query.isCompleting then found.mergeSort fun a b => table.namePrecedes a.1 b.1 else found
  ambiguous :=
    ambiguous.mergeSort fun a b =>
      !(Text.lowercase (table.spelling b) < Text.lowercase (table.spelling a))

end Table

namespace Analysis

/-- Look a name up from a scope; an alias of a namespace stands for the namespace.  A name that is
declared nowhere gives an empty result. -/
def lookup (scope : SymbolId) (name : Name) (options : LookupOptions) :
    Analysis LookupResult := do
  let table ← get
  if options.completing && !table.config.completion then violated .completionOff
  else do
    let query := table.query name options
    let (found, trail) ←
      (Search.answer query (table.resolveNamespace scope)).run { fresh := table.ids }
    let table ← get
    pure (table.lookupResult query found trail.ambiguous)

end Analysis

end NameBinding
