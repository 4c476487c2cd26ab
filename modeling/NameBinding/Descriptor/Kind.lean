/-!
# Base kinds

The base kind of a type, which is also the kind of the declaration that carries it: a class symbol
has the kind of its class key, and a variable of that class is a named type that links to it.
-/

namespace NameBinding

/-- The base kind of a type. -/
inductive BaseKind where
  /-- No type information yet. -/
  | undef
  /-- A named type; the link says which declaration names it. -/
  | named
  | cls
  | struct
  | union
  | enumeration
  | function
  | bool
  | char
  | wchar
  | int
  | float
  | double
  | void
  | enumerator
  /-- The scope of a compound statement. -/
  | block
  | template
  | templateParameter
  /-- The sort of a type template parameter. -/
  | typeName
  | nspace
  /-- A block of declarations with a language linkage. -/
  | linkage
  deriving DecidableEq, Repr, Inhabited

namespace BaseKind

/-- Class, struct or union. -/
def isClass : BaseKind → Bool
  | .cls | .struct | .union => true
  | _ => false

/-- A tag name: class, struct, union or enumeration. -/
def isClassOrEnum (kind : BaseKind) : Bool := kind.isClass || kind == .enumeration

/-- An integral builtin type. -/
def isIntegral : BaseKind → Bool
  | .bool | .char | .wchar | .int => true
  | _ => false

/-- A floating-point builtin type. -/
def isFloating : BaseKind → Bool
  | .float | .double => true
  | _ => false

/-- A builtin arithmetic type. -/
def isArithmetic (kind : BaseKind) : Bool := kind.isIntegral || kind.isFloating

/-- A builtin fundamental type, the void type included. -/
def isBuiltin (kind : BaseKind) : Bool := kind.isArithmetic || kind == .void

/-- A kind whose declarations open a scope that can be named before `::`. -/
def isScope (kind : BaseKind) : Bool :=
  kind.isClassOrEnum || kind == .nspace || kind == .template

/-- How a kind is spelled in a rendered type. -/
def keyword : BaseKind → String
  | .undef => "<undef>"
  | .named => "<type>"
  | .cls => "class"
  | .struct => "struct"
  | .union => "union"
  | .enumeration => "enum"
  | .function => "<function>"
  | .bool => "bool"
  | .char => "char"
  | .wchar => "wchar_t"
  | .int => "int"
  | .float => "float"
  | .double => "double"
  | .void => "void"
  | .enumerator => "<enumerator>"
  | .block => "<block>"
  | .template => "template"
  | .templateParameter => "<template parameter>"
  | .typeName => "typename"
  | .nspace => "namespace"
  | .linkage => "extern"

end BaseKind

end NameBinding
