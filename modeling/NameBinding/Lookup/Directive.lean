import NameBinding.Lookup.Query
import NameBinding.Table.Scope
import NameBinding.Traversal

/-!
# Using-directives

For unqualified lookup the members of a nominated namespace behave as if declared in the innermost
scope that encloses both the directive and the namespace: the directive is anchored there and waits
until the outward walk reaches that scope.  Qualified lookup into a namespace follows its directives
only as long as nothing is found.

Either way each namespace is searched at most once.
-/

namespace NameBinding

namespace Table

/-- The namespaces that a scope nominates. -/
def nominated (table : Table) (scope : SymbolId) : List SymbolId :=
  (table.symbol scope).directives.map (·.nominated)

/-- The namespaces that `scope` nominates, each with the scope it is anchored at during a walk that
has reached `current`. -/
def anchored (table : Table) (current scope : SymbolId) : List (SymbolId × SymbolId) :=
  (table.nominated scope).map fun id => (table.nearestCommonEnclosing current id, id)

/-- The namespaces that become visible at `current` itself, starting from those that are ready. -/
def activated (table : Table) (current : SymbolId) (fresh ready : List SymbolId) : List SymbolId :=
  breadthFirst
    (fun scope => ((table.anchored current scope).filter (·.1 = current)).map (·.2)) fresh ready

/-- What using-directives contribute when the walk reaches a scope. -/
structure Activation where
  /-- The namespaces to search now, in order. -/
  namespaces : List SymbolId
  /-- The directives that wait for an outer scope. -/
  pending : List (SymbolId × SymbolId)

/-- Apply the directives that are anchored at `current`: its own, those that waited for it, and
those of the namespaces they lead to. -/
def activateDirectives (table : Table) (fresh : List SymbolId)
    (pending : List (SymbolId × SymbolId)) (current : SymbolId) : Activation :=
  let waiting := pending ++ table.anchored current current
  let ready := (waiting.filter (·.1 = current)).map (·.2)
  let namespaces := table.activated current fresh ready
  { namespaces
    pending := waiting.filter (·.1 ≠ current)
      ++ namespaces.flatMap fun scope => (table.anchored current scope).filter (·.1 ≠ current) }

/-- The namespaces that a qualified lookup in `scope` reaches through directives, in order.  A
namespace that answers the query is not looked through, unless all names are asked for. -/
def reachedNamespaces (table : Table) (query : Query) (fresh : List SymbolId) (scope : SymbolId) :
    List SymbolId :=
  breadthFirst
    (fun id =>
      if !query.isCompleting && !(table.scopeHits query id).isEmpty then [] else table.nominated id)
    (fresh.erase scope) (table.nominated scope)

end Table

end NameBinding
