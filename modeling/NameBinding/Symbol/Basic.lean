import NameBinding.Descriptor.Basic
import NameBinding.Symbol.Declarations

/-!
# Declarations known to the engine

A `Symbol` is one declaration.  Its `payload` says what it can hold:

| payload | holds | stands for |
|---------|-------|------------|
| `basic` | nothing | variables, typedefs, enumerators, type parameters |
| `container` | members | namespaces, enumerations, blocks |
| `cls` | members, bases, constructors, conversions | classes |
| `function` | members, parameters, return type | functions |
| `template` | members, template parameters, specializations, instances | templates |
| `placeholder` | template and arguments | a template-id with dependent arguments |

A template holds its templated declaration as the member of its own name.
-/

namespace NameBinding

/-- A template applied to arguments. -/
structure TemplateUse where
  template : SymbolId
  args : List Descriptor
  deriving Repr, Inhabited

/-- The symbol that stands for a template applied to `args`. -/
structure Instance where
  args : List Descriptor
  symbol : SymbolId
  deriving Repr, Inhabited

/-- What a class holds. -/
structure ClassData where
  decls : Declarations := {}
  parents : List BaseLink := []
  constructors : List SymbolId := []
  conversions : List SymbolId := []
  deriving Repr, Inhabited

/-- What a function holds. -/
structure FunctionData where
  decls : Declarations := {}
  parameters : List SymbolId := []
  returnType : Option Descriptor := none
  varargs : Bool := false
  deriving Repr, Inhabited

/-- What a template holds. -/
structure TemplateData where
  decls : Declarations := {}
  parameters : List SymbolId := []
  /-- The argument patterns of a partial specialization. -/
  patterns : Option (List Descriptor) := none
  /-- The primary template of a partial specialization. -/
  primary : Option SymbolId := none
  /-- The registered partial specializations. -/
  specializations : List SymbolId := []
  /-- The registered explicit specializations. -/
  explicits : List Instance := []
  /-- The instances made so far. -/
  instances : List Instance := []
  /-- The placeholders made so far for uses with dependent arguments. -/
  placeholders : List Instance := []
  /-- Names that an out-of-line member definition gives to the template's parameters. -/
  definitionParameters : List (Name × SymbolId) := []
  deriving Repr, Inhabited

/-- What a symbol can hold. -/
inductive Payload where
  | basic
  | container (decls : Declarations)
  | cls (data : ClassData)
  | function (data : FunctionData)
  | template (data : TemplateData)
  | placeholder (use : TemplateUse)
  deriving Repr, Inhabited

/-- One declaration. -/
structure Symbol where
  name : Name
  /-- The containing scope; the global scope and unattached symbols have none. -/
  scope : Option SymbolId := none
  type : Descriptor
  /-- Declared inside a template, and so possibly dependent. -/
  inTemplate : Bool := false
  access : Access := .pub
  /-- The declaration that this one was completed by or collapsed onto. -/
  forwardTarget : Option SymbolId := none
  /-- The target of a using-declaration alias. -/
  aliasOf : Option SymbolId := none
  /-- The template and arguments the symbol is an instance of. -/
  origin : Option TemplateUse := none
  /-- The syntax node of the declaration. -/
  astLink : Option UInt64 := none
  payload : Payload := .basic
  deriving Repr, Inhabited

namespace Symbol

/-- Is the symbol a function by its type? -/
def isFunction (symbol : Symbol) : Bool := symbol.type.kind == .function

/-- Is the symbol a template parameter of any sort? -/
def isTemplateParameter (symbol : Symbol) : Bool := symbol.type.kind == .templateParameter

/-- A static member or an enumerator: the same entity along every inheritance path. -/
def isSharedMember (symbol : Symbol) : Bool :=
  symbol.type.isStatic || symbol.type.kind == .enumerator

/-- What the symbol holds as a class. -/
def classData? (symbol : Symbol) : Option ClassData :=
  match symbol.payload with
  | .cls data => some data
  | _ => none

/-- What the symbol holds as a function. -/
def functionData? (symbol : Symbol) : Option FunctionData :=
  match symbol.payload with
  | .function data => some data
  | _ => none

/-- What the symbol holds as a template. -/
def templateData? (symbol : Symbol) : Option TemplateData :=
  match symbol.payload with
  | .template data => some data
  | _ => none

/-- What the symbol stands for as a placeholder. -/
def placeholder? (symbol : Symbol) : Option TemplateUse :=
  match symbol.payload with
  | .placeholder use => some use
  | _ => none

/-- Does the symbol hold template data? -/
def isTemplate (symbol : Symbol) : Bool := symbol.templateData?.isSome

/-- Is the symbol a placeholder for a use with dependent arguments? -/
def isPlaceholder (symbol : Symbol) : Bool := symbol.placeholder?.isSome

/-- The members of the symbol, if it can have any. -/
def decls? (symbol : Symbol) : Option Declarations :=
  match symbol.payload with
  | .container decls => some decls
  | .cls data => some data.decls
  | .function data => some data.decls
  | .template data => some data.decls
  | .basic | .placeholder _ => none

/-- Can the symbol have members? -/
def holdsMembers (symbol : Symbol) : Bool := symbol.decls?.isSome

/-- The members of one name, oldest first. -/
def membersNamed (symbol : Symbol) (name : Name) : List SymbolId :=
  (symbol.decls?.map (·.get name)).getD []

/-- All members, oldest first. -/
def contents (symbol : Symbol) : List SymbolId := (symbol.decls?.map (·.contents)).getD []

/-- The using-directives of the scope. -/
def directives (symbol : Symbol) : List UsingDirective :=
  (symbol.decls?.map (·.directives)).getD []

/-- The parameters of a function or of a template. -/
def parameters (symbol : Symbol) : List SymbolId :=
  match symbol.payload with
  | .function data => data.parameters
  | .template data => data.parameters
  | _ => []

/-- The base-class links of a class. -/
def parents (symbol : Symbol) : List BaseLink := (symbol.classData?.map (·.parents)).getD []

/-- The constructors of a class. -/
def constructors (symbol : Symbol) : List SymbolId :=
  (symbol.classData?.map (·.constructors)).getD []

/-- The conversion functions of a class. -/
def conversions (symbol : Symbol) : List SymbolId :=
  (symbol.classData?.map (·.conversions)).getD []

/-- The declared return type of a function. -/
def returnType (symbol : Symbol) : Option Descriptor := symbol.functionData?.bind (·.returnType)

/-- Does the function take further arguments through an ellipsis? -/
def varargs (symbol : Symbol) : Bool := (symbol.functionData?.map (·.varargs)).getD false

/-- The instances made of a template. -/
def instances (symbol : Symbol) : List Instance :=
  (symbol.templateData?.map (·.instances)).getD []

end Symbol

end NameBinding
