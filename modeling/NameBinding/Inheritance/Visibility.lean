import NameBinding.Inheritance.Basic

/-!
# Access of an inherited member

Along one inheritance path the most restrictive access counts.  Among several paths the most
permissive counts for a static member or an enumerator, and for a member of a virtual base; any
other member reached along several paths is ambiguous.
-/

namespace NameBinding

/-- One way from the naming class to the class of a member. -/
structure InheritancePath where
  /-- The most restrictive access on the way. -/
  access : Access := .pub
  /-- Is there a virtual link on the way? -/
  isVirtual : Bool := false
  deriving DecidableEq, Repr

namespace InheritancePath

/-- The way continued by one more link. -/
def step (path : InheritancePath) (link : BaseLink) : InheritancePath where
  access := path.access.through link.access
  isVirtual := path.isVirtual || link.isVirtual

end InheritancePath

namespace Table

/-- All ways from a class to `owner` that continue `path`, ending at the first arrival.  `visited`
holds the classes on the way so far. -/
def inheritancePathsFrom (table : Table) (owner : SymbolId) :
    Nat → List SymbolId → InheritancePath → SymbolId →
      Except SemanticError (List InheritancePath)
  | 0, _, _, id => .error (table.circular id)
  | depth + 1, visited, path, id => do
      let found ← (table.symbol id).parents.mapM fun link =>
        let parent := table.classOf link.parent
        if parent = owner then .ok [path.step link]
        else if parent ∈ visited then .error (table.circular parent)
        else inheritancePathsFrom table owner depth (parent :: visited) (path.step link) parent
      pure found.flatten

/-- The access of a member when it is named through a class. -/
def visibility (table : Table) (member through : SymbolId) : Except SemanticError Access :=
  let symbol := table.symbol member
  match symbol.scope with
  | none => .error (.badVisibility symbol.name)
  | some scope =>
      let owner := table.classOf scope
      let start := table.classOf through
      if owner = start then .ok symbol.access
      else do
        let paths ← table.inheritancePathsFrom owner (table.size + 1) [start] {} start
        match paths with
        | [] => .error (.badVisibility symbol.name)
        | [only] => pure (symbol.access.through only.access)
        | several =>
            if symbol.isSharedMember || several.all (·.isVirtual) then
              let accesses := several.map fun path => symbol.access.through path.access
              pure (accesses.foldl Access.best .priv)
            else .error (.ambiguous symbol.name)

end Table

end NameBinding
