import NameBinding.Name
import NameBinding.SymbolId

/-!
# The declarations of a scope

A scope keeps its members twice: by name, because lookup asks for one name, and in the order in
which they were added, because copies and listings follow that order.  `insert` and `remove` keep
both in step, and `remove` undoes `insert` exactly.
-/

namespace NameBinding

/-- Access of a member, from the least to the most restrictive. -/
inductive Access where
  | pub
  | prot
  | priv
  deriving DecidableEq, Repr, Inhabited

namespace Access

/-- How restrictive an access is. -/
def rank : Access → Nat
  | .pub => 0
  | .prot => 1
  | .priv => 2

/-- The access of a member seen through a base-class link: the more restrictive of the two. -/
def through (member link : Access) : Access := if member.rank ≤ link.rank then link else member

/-- The more permissive of two accesses. -/
def best (a b : Access) : Access := if a.rank ≤ b.rank then a else b

end Access

/-- A using-directive in `scope` that nominates `nominated`. -/
structure UsingDirective where
  scope : SymbolId
  nominated : SymbolId
  deriving DecidableEq, Repr

/-- A base-class link. -/
structure BaseLink where
  parent : SymbolId
  access : Access
  isVirtual : Bool
  deriving DecidableEq, Repr

/-- `ids` without the last occurrence of `id`. -/
def eraseLast (ids : List SymbolId) (id : SymbolId) : List SymbolId :=
  (ids.reverse.erase id).reverse

/-- Members by name.  Names stand in the order of their first member, and no name has an empty
list. -/
abbrev MemberMap := List (Name × List SymbolId)

namespace MemberMap

/-- The members of one name, oldest first. -/
def get (map : MemberMap) (name : Name) : List SymbolId := (map.lookup name).getD []

/-- Add a member under a name. -/
def insert : MemberMap → Name → SymbolId → MemberMap
  | [], name, id => [(name, [id])]
  | (key, ids) :: rest, name, id =>
      if key = name then (key, ids ++ [id]) :: rest else (key, ids) :: insert rest name id

/-- Remove the newest occurrence of a member; a name without members is dropped. -/
def remove : MemberMap → Name → SymbolId → MemberMap
  | [], _, _ => []
  | (key, ids) :: rest, name, id =>
      if key = name then
        match eraseLast ids id with
        | [] => rest
        | left => (key, left) :: rest
      else (key, ids) :: remove rest name id

end MemberMap

/-- The declared members of a scope and its using-directives. -/
structure Declarations where
  byName : MemberMap := []
  /-- All members, oldest first. -/
  contents : List SymbolId := []
  directives : List UsingDirective := []
  deriving Repr, Inhabited

namespace Declarations

/-- The members of one name, oldest first. -/
def get (decls : Declarations) (name : Name) : List SymbolId := decls.byName.get name

/-- Add a member. -/
def insert (decls : Declarations) (name : Name) (id : SymbolId) : Declarations :=
  { decls with byName := decls.byName.insert name id, contents := decls.contents ++ [id] }

/-- Take back the newest `insert` of a member. -/
def remove (decls : Declarations) (name : Name) (id : SymbolId) : Declarations :=
  { decls with byName := decls.byName.remove name id, contents := eraseLast decls.contents id }

end Declarations

end NameBinding
