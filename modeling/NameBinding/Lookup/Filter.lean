import NameBinding.Table.Identity

/-!
# What a lookup accepts

A lookup may ask for one sort of declarations only: the name after `class` is looked up among tags,
the name before `::` among scopes.
-/

namespace NameBinding

/-- Which declarations a lookup accepts. -/
inductive Filter where
  | any
  /-- Class, struct, union and enumeration names. -/
  | tags
  /-- Anything that names a type. -/
  | types
  | functions
  | namespaces
  /-- Objects and enumerators. -/
  | variables
  /-- Names that may stand before `::`. -/
  | scopes
  | predicate (accepts : Symbol → Bool)

namespace Symbol

/-- Is the symbol a template parameter that stands for a type or a template? -/
def isTypeParameter (symbol : Symbol) : Bool :=
  symbol.isTemplateParameter
    && (symbol.type.parameterKind == some .typeName || symbol.type.parameterKind == some .template)

end Symbol

namespace Table

/-- Is this a typedef that names a class or an enumeration itself? -/
def isTagTypedef (table : Table) (id : SymbolId) : Bool :=
  let type := (table.symbol id).type
  type.isTypedef && !type.hasOps && (table.symbol (table.classOf id)).type.kind.isClassOrEnum

/-- Does the filter accept a declaration? -/
def accepts (table : Table) (filter : Filter) (id : SymbolId) : Bool :=
  let symbol := table.symbol id
  match filter with
  | .any => true
  | .tags => table.declClass id == .tag
  | .types => table.declClass id == .tag || symbol.type.isTypedef || symbol.isTypeParameter
  | .functions => table.declClass id == .function
  | .namespaces => symbol.type.kind == .nspace
  | .variables =>
      table.declClass id == .object && !symbol.type.isTypedef && !symbol.isTypeParameter
        && symbol.type.kind != .nspace && symbol.type.kind != .block
  | .scopes =>
      symbol.type.kind == .nspace || table.declClass id == .tag || symbol.isTypeParameter
        || table.isTagTypedef id
  | .predicate accepts => accepts symbol

end Table

end NameBinding
