import NameBinding.Table.Redeclaration
import NameBinding.Table.Scope

/-!
# Parts of functions, classes, templates and namespaces

These operations attach parameters, return types, bases, constructors, conversions, template
parameters, partial specializations, using-directives and namespace aliases.  A part that the
program may get wrong is a recoverable error, and a part that the kind of the symbol cannot have is
misuse.
-/

namespace NameBinding.Analysis

/-! ## Functions -/

/-- Append a parameter to a function. -/
def addParameter (function parameter : SymbolId) : Analysis Unit := do
  let table ← get
  let owner := table.symbol function
  match owner.payload with
  | .function _ => do
      append function (.parameter parameter)
      assign parameter (.scope (some function) owner.inTemplate)
  | .template _ => unsupported .parameterOfTemplate
  | _ => unsupported .addParameter

/-- Append an unnamed parameter of the given type. -/
def addParameterType (function : SymbolId) (type : Descriptor) : Analysis SymbolId := do
  let parameter ← createBasic Name.empty type
  addParameter function parameter
  pure parameter

/-- Say whether a function takes further arguments through an ellipsis. -/
def setVarargs (function : SymbolId) (varargs : Bool) : Analysis Unit := do
  let table ← get
  if (table.symbol function).functionData?.isSome then assign function (.varargs varargs)
  else unsupported .setVarargs

/-- Set the return type of a function, which must be a valid descriptor. -/
def setReturnType (function : SymbolId) (type : Descriptor) : Analysis Unit := do
  let table ← get
  if !type.isValid then fail (.badTypeInfo (table.symbol function).name)
  else if (table.symbol function).functionData?.isSome then
    assign function (.returnType (some type))
  else unsupported .setReturnType

/-! ## Classes -/

/-- Add a base class.  The parent may be a class, a typedef of one, a template parameter or a
placeholder; the link refers to what it stands for. -/
def addParent (derived parent : SymbolId) (access : Access) (isVirtual : Bool) :
    Analysis Unit := do
  let table ← get
  let target := table.classOf parent
  let base := table.symbol target
  if !(base.type.kind.isClass || base.isTemplateParameter || base.isPlaceholder) then
    fail (.badTypeInfo (table.symbol parent).name)
  else if (table.symbol derived).classData?.isSome then
    append derived (.parent { parent := target, access, isVirtual })
  else unsupported .addParent

/-- Replace the parent of an existing base link. -/
def setParent (derived : SymbolId) (position : Nat) (parent : SymbolId) : Analysis Unit := do
  let table ← get
  if position < (table.symbol derived).parents.length then
    assign derived (.parent position parent)
  else violated .missingBaseLink

/-- Register a constructor. -/
def addConstructor (owner function : SymbolId) : Analysis Unit := do
  let table ← get
  if (table.symbol function).functionData?.isNone then unsupported .constructorNotFunction
  else if (table.symbol owner).classData?.isNone then unsupported .addConstructor
  else do
    append owner (.constructor function)
    assign function (.scope (some owner) (table.symbol function).inTemplate)

/-- Register a conversion function; its return type is what it converts to. -/
def addConversion (owner function : SymbolId) : Analysis Unit := do
  let table ← get
  if (table.symbol function).functionData?.isNone then unsupported .conversionNotFunction
  else if (table.symbol owner).classData?.isNone then unsupported .addConversion
  else do
    append owner (.conversion function)
    assign function (.scope (some owner) (table.symbol function).inTemplate)

/-! ## Templates -/

/-- Append a template parameter. -/
def addTemplateParameter (template parameter : SymbolId) : Analysis Unit := do
  let table ← get
  if !(table.symbol parameter).isTemplateParameter then
    fail (.badTypeInfo (table.symbol parameter).name)
  else if (table.symbol template).isTemplate then do
    append template (.templateParameter parameter)
    assign parameter (.scope (some template) true)
  else unsupported .addTemplateParameter

/-- Register a partial specialization.  It must have one pattern for each parameter of its primary
template. -/
def addTemplateSpecialization (primary specialization : SymbolId) : Analysis Unit := do
  let table ← get
  let owner := table.symbol primary
  let special := table.symbol specialization
  match owner.templateData? with
  | none => unsupported .addTemplateSpecialization
  | some data =>
      match special.templateData?.bind (·.patterns) with
      | none => fail (.badTypeInfo special.name)
      | some patterns =>
          if patterns.length ≠ data.parameters.length then
            fail (.badTemplateArgument owner.name (min patterns.length data.parameters.length))
          else do
            assign specialization (.scope owner.scope special.inTemplate)
            assign specialization (.primary (some primary))
            append primary (.specialization specialization)

/-- Let an out-of-line member definition refer to a template parameter by another name. -/
def mapDefinitionParameter (template : SymbolId) (name : Name) (parameter : SymbolId) :
    Analysis Unit := do
  let table ← get
  if (table.symbol template).isTemplate then
    assign template (.definitionParameter name (some parameter))
  else unsupported .mapDefinitionParameter

/-! ## Namespaces -/

/-- Add a using-directive to a scope.  Aliases of the nominated namespace are followed now. -/
def addUsingDirective (scope nominated : SymbolId) : Analysis Unit := do
  let table ← get
  let target := table.resolveNamespace nominated
  if (table.symbol target).type.kind ≠ .nspace then
    fail (.badTypeInfo (table.symbol nominated).name)
  else if (table.symbol scope).holdsMembers then
    append scope (.directive { scope, nominated := target })
  else unsupported .addUsingDirective

/-- Declare another name for a namespace. -/
def addNamespaceAlias (scope : SymbolId) (name : Name) (target : SymbolId) :
    Analysis SymbolId := do
  let table ← get
  let resolved := table.resolveNamespace target
  if (table.symbol resolved).type.kind ≠ .nspace then
    fail (.badTypeInfo (table.symbol target).name)
  else do
    let synonym ← createContainer name { kind := .nspace, link := some resolved }
    addSymbol scope synonym
    pure synonym

end NameBinding.Analysis
