import NameBinding.Lookup.Basic

/-!
# Argument-dependent lookup

A call also finds the functions of the namespaces that belong to its argument types, and the friends
declared in the classes that do.  The associated classes are those that the argument types name, in
template arguments too, with their bases and the classes among the arguments of an instance;
enumerations count so that their namespace is searched.
-/

namespace NameBinding

namespace Descriptor

mutual

/-- The number of descriptors nested in each other. -/
def weight : Descriptor → Nat
  | ⟨_, _, _, _, args, _, _, _⟩ => 1 + weightAll args

/-- The number of descriptors in a list. -/
def weightAll : List Descriptor → Nat
  | [] => 0
  | type :: rest => weight type + weightAll rest

end

end Descriptor

namespace Table

/-- The number of descriptors in the types of all declarations. -/
def weight (table : Table) : Nat :=
  table.symbols.foldl (fun total symbol => total + symbol.type.weight) 0

/-- The entities that a descriptor names, those of its template arguments first, down to the given
depth. -/
def namedWithin (table : Table) : Nat → Descriptor → List SymbolId
  | 0, _ => []
  | depth + 1, type =>
      let flat := table.flattenType type
      flat.templateArgs.flatMap (namedWithin table depth)
        ++ (flat.link.map table.classOf).toList

/-- The entities that a descriptor names.  No typedef mentions itself, so a descriptor is met at
most once on the way down, and the number of descriptors bounds the depth. -/
def named (table : Table) (type : Descriptor) : List SymbolId :=
  table.namedWithin (table.weight + type.weight + 1) type

/-- The entities that a class leads to: those its template arguments name, then its bases. -/
def associates (table : Table) (id : SymbolId) : List SymbolId :=
  let symbol := table.symbol id
  if symbol.type.kind.isClass then
    ((symbol.origin.map (·.args)).getD []).flatMap table.named
      ++ symbol.parents.flatMap fun link => table.named (.ofSymbol link.parent)
  else []

/-- The classes and enumerations associated with argument types, each once. -/
def associatedClasses (table : Table) (args : List Descriptor) : List SymbolId :=
  (depthFirst table.associates table.ids (args.flatMap table.named)).filter fun id =>
    (table.symbol id).type.kind.isClassOrEnum

/-- The friend functions called `name` that a class declares. -/
def friendFunctions (table : Table) (name : Name) (id : SymbolId) : List SymbolId :=
  (table.members id name).filter fun member =>
    (table.symbol member).type.isFriend && table.declClass member == .function

end Table

namespace Analysis

/-- The functions that the argument types of a call contribute. -/
def argumentDependentCandidates (name : Name) (args : List Descriptor) :
    Analysis (List SymbolId) := do
  let table ← get
  let classes := table.associatedClasses args
  let namespaces := (classes.filterMap table.enclosingNamespace?).eraseDups
  let options : LookupOptions :=
    { qualified := true, ignoreDirectives := true, filter := .functions, arguments := some args }
  let found ← namespaces.mapM fun scope => do
    let result ← lookup scope name options
    pure result.symbols
  let table ← get
  pure (found.flatten ++ classes.flatMap (table.friendFunctions name))

end Analysis

end NameBinding
