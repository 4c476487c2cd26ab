import NameBinding.Lookup.Collect
import NameBinding.Inheritance.Basic

/-!
# Lookup in base classes

The bases of a class are searched depth first when the class itself does not supply the name.  A
base that supplies it ends the search along its branch, and each virtual base is searched once.
What sibling bases supply is merged: the same entity reached along two ways is not ambiguous if it
is the same in every base subobject.
-/

namespace NameBinding

namespace Table

/-- Does a member denote the same entity in every base subobject?  Static members, enumerators and
types do. -/
def isPathIndependent (table : Table) (id : SymbolId) : Bool :=
  let symbol := table.symbol id
  symbol.isSharedMember || symbol.type.isTypedef || table.declClass id == .tag

end Table

namespace Found

/-- Replace what is found under a name. -/
def replace (found : Found) (name : Name) (ids : List SymbolId) : Found :=
  found.map fun entry => if entry.1 = name then (name, ids) else entry

end Found

namespace Search

/-- `known` followed by the new ones among `ids`, each once. -/
def addNew (known ids : List SymbolId) : List SymbolId :=
  ids.foldl (fun all id => if id ∈ all then all else all ++ [id]) known

/-- Merge what one base supplies for a name into what its siblings supply. -/
def mergeEntry (query : Query) (merged : Found) (entry : Name × List SymbolId) : Search Found := do
  let table ← Search.table
  match merged.lookup entry.1 with
  | none => pure (merged ++ [entry])
  | some known =>
      if known.length == entry.2.length && entry.2.all (· ∈ known)
          && entry.2.all table.isPathIndependent then
        pure merged
      else do
        ambiguity query entry.1
        pure (merged.replace entry.1 (addNew known entry.2))

/-- Merge what one base supplies into what its siblings supply. -/
def mergeSibling (query : Query) (merged found : Found) : Search Found :=
  found.foldlM (mergeEntry query) merged

/-- Search a base: what it supplies itself and, unless that is enough, what `deeper` finds. -/
def searchBase (query : Query) (deeper : SymbolId → Search Found) (parent : SymbolId) :
    Search Found := do
  let table ← Search.table
  let found ← collectLevel query (table.scopeHits query parent)
  let table ← Search.table
  if query.isSatisfied found || (table.symbol parent).parents.isEmpty then pure found
  else do
    let inherited ← deeper parent
    pure (found.fill inherited)

/-- Search the bases of a class that was reached along `path`. -/
def searchParents (query : Query) : Nat → List SymbolId → SymbolId → Search Found
  | 0, _, id => do
      let table ← Search.table
      Analysis.fail (table.circular id)
  | depth + 1, path, id => do
      let table ← Search.table
      (table.symbol id).parents.foldlM
        (fun merged link => do
          let table ← Search.table
          let trail ← get
          let parent := table.classOf link.parent
          if !(table.symbol parent).type.kind.isClass then pure merged
          else if parent ∈ path then Analysis.fail (table.circular parent)
          else if link.isVirtual && trail.virtualBases.contains parent then pure merged
          else do
            if link.isVirtual then
              set { trail with virtualBases := parent :: trail.virtualBases }
            let found ← searchBase query
              (fun base => searchParents query depth (base :: path) base) parent
            mergeSibling query merged found)
        []

/-- Search all bases of a class. -/
def lookupInParents (query : Query) (id : SymbolId) : Search Found := do
  let table ← Search.table
  searchParents query (table.size + 1) [id] id

/-- Fail if circular inheritance can be reached from a class. -/
def checkInheritance (id : SymbolId) : Search Unit := do
  let table ← Search.table
  let trail ← get
  let acyclic ← Analysis.ofExcept (table.checkAcyclic trail.acyclic id)
  set { trail with acyclic }

/-- Complete what a scope supplied by what its bases supply.  The inheritance of a class is checked
even if nothing more is needed. -/
def addInherited (query : Query) (scope : SymbolId) (collected : Found) : Search Found := do
  let table ← Search.table
  if (table.symbol scope).parents.isEmpty then pure collected
  else do
    checkInheritance scope
    if query.isSatisfied collected then pure collected
    else do
      let inherited ← lookupInParents query scope
      pure (collected.fill inherited)

end Search

end NameBinding
