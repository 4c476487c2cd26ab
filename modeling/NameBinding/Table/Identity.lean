import NameBinding.Table.Basic

/-!
# What a declaration stands for

Aliases, completed forward declarations and typedefs all stand for something else.

* `canonical` follows aliases and forward links to the entity they declare.
* `flattenType` sees through typedefs, `classOf` gives the class a name refers to in the end.
* `declClass` sorts declarations by the redeclaration and hiding rules they follow.
-/

namespace NameBinding

/-- How a declaration takes part in redeclaration and hiding. -/
inductive DeclClass where
  /-- Class, struct, union, enumeration or class template. -/
  | tag
  /-- Function or function template. -/
  | function
  /-- Everything else: variables, typedefs, enumerators, namespaces. -/
  | object
  deriving DecidableEq, Repr

namespace Table

/-- The declaration that `id` directly stands for, if it is another one.  An alias counts before a
forward link. -/
def nextLink (table : Table) (id : SymbolId) : Option SymbolId :=
  ((table.symbol id).aliasOf.or (table.symbol id).forwardTarget).filter (· ≠ id)

/-- Follow at most `steps` links. -/
def followLinks (table : Table) : Nat → SymbolId → SymbolId
  | 0, id => id
  | steps + 1, id =>
      match table.nextLink id with
      | some next => followLinks table steps next
      | none => id

/-- The entity a declaration stands for.  No chain of distinct declarations is longer than the
table, so as many steps are enough. -/
def canonical (table : Table) (id : SymbolId) : SymbolId := table.followLinks table.size id

/-- Replace the typedefs that a descriptor is built on, at most `steps` of them. -/
def flattenSteps (table : Table) : Nat → Descriptor → Descriptor
  | 0, type => type
  | steps + 1, type =>
      match type.link with
      | none => type
      | some link =>
          let target := table.canonical link
          let aliased := (table.symbol target).type
          if !aliased.isTypedef then { type with link := some target }
          else if aliased.link = some target then type
          else flattenSteps table steps (type.substituteBase aliased)

/-- A descriptor with typedefs and completed forward declarations seen through: after
`typedef int *P`, the type `const P &` is `int *const &`. -/
def flattenType (table : Table) (type : Descriptor) : Descriptor :=
  table.flattenSteps (table.size + 1) type

/-- The declaration a named type refers to once typedefs without operators and forward declarations
are seen through. -/
def classOf (table : Table) (id : SymbolId) : SymbolId :=
  let entity := table.canonical id
  let type := (table.symbol entity).type
  if type.isTypedef && !type.hasOps then
    match (table.flattenType type).link with
    | some link => table.canonical link
    | none => entity
  else entity

/-- Is this a template whose templated declaration is a function? -/
def isFunctionTemplate (table : Table) (id : SymbolId) : Bool :=
  (table.templated? id).any fun templated => (table.symbol templated).isFunction

/-- Is this a template whose templated declaration is a class or an enumeration? -/
def isClassTemplate (table : Table) (id : SymbolId) : Bool :=
  (table.templated? id).any fun templated => (table.symbol templated).type.kind.isClassOrEnum

/-- How the entity that `id` stands for takes part in redeclaration and hiding. -/
def declClass (table : Table) (id : SymbolId) : DeclClass :=
  let entity := table.canonical id
  let symbol := table.symbol entity
  if symbol.isFunction || table.isFunctionTemplate entity then .function
  else if (symbol.type.kind.isClassOrEnum && !symbol.type.isTypedef)
      || table.isClassTemplate entity then .tag
  else .object

/-- Declared but not defined.  A template is forward when its templated declaration is. -/
def isForwardDeclaration (table : Table) (id : SymbolId) : Bool :=
  if (table.symbol id).isTemplate then
    (table.templated? id).any fun templated => (table.symbol templated).type.isForward
  else (table.symbol id).type.isForward

/-- Does the declaration itself depend on template parameters? -/
def isDependentSymbol (table : Table) (id : SymbolId) : Bool :=
  (table.symbol id).isTemplateParameter || (table.symbol id).isPlaceholder

mutual

/-- Does a descriptor depend on a template parameter? -/
def isDependent (table : Table) : Descriptor → Bool
  | ⟨kind, _, _, link, args, _, _, _⟩ =>
      kind == .templateParameter || link.any (isDependentSymbol table) || anyDependent table args

/-- Does one of the descriptors depend on a template parameter? -/
def anyDependent (table : Table) : List Descriptor → Bool
  | [] => false
  | type :: rest => isDependent table type || anyDependent table rest

end

end Table

end NameBinding
