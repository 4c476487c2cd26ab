import NameBinding.Table.Identity

/-!
# Inheritance

Base classes form a graph that need not be a tree, and may even be cyclic while a program is being
written.  Searches along it carry the path they came by; a class that comes up again on its own path
is circular inheritance.

* `derivedDistance` counts the links of the shortest way up to a base.
* `checkAcyclic` says whether a cycle can be reached, remembering what it has proved.

A path never holds a class twice, so no search goes deeper than the number of symbols.
-/

namespace NameBinding.Table

/-- The classes that a class directly derives from. -/
def bases (table : Table) (id : SymbolId) : List SymbolId :=
  (table.symbol id).parents.map fun link => table.classOf link.parent

/-- The class is on its own inheritance path. -/
def circular (table : Table) (id : SymbolId) : SemanticError :=
  .circularInheritance (table.symbol id).name

/-- The number of links on the shortest way from a class to `base`, having come along `path`.  Bases
are mostly older than the classes that list them, and a class that is older than the oldest one of the
path is not looked for on it. -/
def distanceFrom (table : Table) (base : SymbolId) :
    Nat → (oldest : Nat) → List SymbolId → SymbolId → Except SemanticError (Option Nat)
  | 0, _, _, id => .error (table.circular id)
  | depth + 1, oldest, path, id =>
      if id = base then .ok (some 0)
      else if oldest ≤ id.index && id ∈ path then .error (table.circular id)
      else do
        let distances ←
          (table.bases id).mapM (distanceFrom table base depth (min oldest id.index) (id :: path))
        pure (distances.filterMap (·.map (· + 1))).min?

/-- The number of inheritance steps from `derived` up to `base`: zero for the same class, nothing
for unrelated ones. -/
def derivedDistance (table : Table) (derived base : SymbolId) :
    Except SemanticError (Option Nat) :=
  table.distanceFrom (table.classOf base) (table.size + 1) table.size [] (table.classOf derived)

/-- Extend the classes proved acyclic by `id` and all its bases, having come along `path`. -/
def checkAcyclicFrom (table : Table) :
    Nat → List SymbolId → List SymbolId → SymbolId → Except SemanticError (List SymbolId)
  | 0, _, _, id => .error (table.circular id)
  | depth + 1, path, acyclic, id =>
      if id ∈ acyclic then .ok acyclic
      else if id ∈ path then .error (table.circular id)
      else do
        let proved ← (table.bases id).foldlM (checkAcyclicFrom table depth (id :: path)) acyclic
        pure (id :: proved)

/-- Extend the classes proved acyclic by `id` and all its bases, or fail if a cycle can be reached
from it. -/
def checkAcyclic (table : Table) (acyclic : List SymbolId) (id : SymbolId) :
    Except SemanticError (List SymbolId) :=
  table.checkAcyclicFrom (table.size + 1) [] acyclic id

end NameBinding.Table
