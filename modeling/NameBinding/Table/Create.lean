import NameBinding.Table.Basic

/-!
# New declarations

Creation only allocates: a new symbol belongs to no scope until it is added to one.  It never fails
and needs no journal record, because a rollback truncates the table.
-/

namespace NameBinding.Analysis

/-- A variable, typedef or enumerator with a full descriptor. -/
def createBasic (name : Name) (type : Descriptor) : Analysis SymbolId := create { name, type }

/-- A scope without bases: namespace, enumeration, block or linkage block. -/
def createContainer (name : Name) (type : Descriptor) : Analysis SymbolId :=
  create { name, type, payload := .container {} }

/-- A class, struct or union. -/
def createClass (name : Name) (kind : BaseKind) : Analysis SymbolId :=
  create { name, type := .ofKind kind, payload := .cls {} }

/-- A function. -/
def createFunction (name : Name) (kind : BaseKind) : Analysis SymbolId :=
  create { name, type := .ofKind kind, payload := .function {} }

/-- A template.  Its templated declaration is added to it as a member of the same name. -/
def createTemplate (name : Name) : Analysis SymbolId :=
  create { name, type := .ofKind .template, payload := .template {} }

/-- A type or non-type template parameter; `sort` says which. -/
def createTemplateParameter (name : Name) (sort : BaseKind) : Analysis SymbolId :=
  createBasic name (.ofParameter sort)

/-- A template template parameter. -/
def createTemplateTemplateParameter (name : Name) : Analysis SymbolId :=
  create { name, type := .ofParameter .template, payload := .template {} }

/-- A partial specialization that matches the given argument patterns. -/
def createSpecialization (name : Name) (patterns : List Descriptor) : Analysis SymbolId :=
  create { name, type := .ofKind .template, payload := .template { patterns := some patterns } }

/-- A copy of a symbol that belongs to no scope.  The lists are copied; the symbols they refer to
are the same. -/
def cloneSymbol (id : SymbolId) : Analysis SymbolId := do
  let table ← get
  create { table.symbol id with scope := none }

/-- Set the declared access of a member. -/
def setAccess (id : SymbolId) (access : Access) : Analysis Unit := assign id (.access access)

/-- Replace the descriptor of a symbol. -/
def setType (id : SymbolId) (type : Descriptor) : Analysis Unit := assign id (.type type)

/-- Link a symbol to its syntax node.  This is no part of what a rollback restores. -/
def setAstLink (id : SymbolId) (link : UInt64) : Analysis Unit :=
  modify fun table =>
    { table with
      symbols := table.symbols.modify id.index fun symbol => { symbol with astLink := some link } }

/-- Add flags to the descriptor of a symbol.  This is no part of what a rollback restores. -/
def addFlags (id : SymbolId) (flags : Flags) : Analysis Unit :=
  modify fun table =>
    { table with
      symbols := table.symbols.modify id.index fun symbol =>
        { symbol with type := symbol.type.withFlags flags } }

end NameBinding.Analysis
