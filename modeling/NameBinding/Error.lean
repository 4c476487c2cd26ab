import NameBinding.Name
import NameBinding.Diagnostic

/-!
# What can go wrong

Three kinds of failure are kept apart.

* A `SemanticError` is a recoverable error of the analysed program.  The caller decides what it
  means; some steps of the engine catch one and go on.
* A `TransactionError` reports a mark that was released out of turn.
* A `Fault` is misuse of the engine.  No step catches it.

`Interrupt` joins the first and the last: it is what ends a step early.
-/

namespace NameBinding

/-- A recoverable error.  Every case names the declaration involved. -/
inductive SemanticError where
  /-- A name or call resolves to more than one declaration. -/
  | ambiguous (name : Name)
  /-- A descriptor or symbol cannot be used the way it was asked to be. -/
  | badTypeInfo (name : Name)
  /-- The argument at `position` does not fit the template's parameter. -/
  | badTemplateArgument (template : Name) (position : Nat)
  /-- The symbol is not a member reachable from the qualifying class. -/
  | badVisibility (name : Name)
  /-- A class appears on its own inheritance path. -/
  | circularInheritance (className : Name)
  /-- Deferred instantiation did not settle within the pass limit. -/
  | recursiveTemplate (template : Name)
  /-- An overload set was named without argument types to pick from. -/
  | unresolvedFunction (name : Name)
  /-- A declaration conflicts with an earlier one in the same scope. -/
  | invalidOverload (name : Name)
  /-- A using-declaration names nothing in its qualifying scope. -/
  | invalidUsing (name : Name)
  deriving DecidableEq, Repr

namespace SemanticError

/-- The stable code of an error. -/
def code : SemanticError → ErrorCode
  | .ambiguous _ => .ambiguousReference
  | .badTypeInfo _ => .badTypeInformation
  | .badTemplateArgument _ _ => .badTemplateArgument
  | .badVisibility _ => .memberNotVisible
  | .circularInheritance _ => .circularInheritance
  | .recursiveTemplate _ => .recursiveTemplate
  | .unresolvedFunction _ => .unresolvedFunction
  | .invalidOverload _ => .invalidOverload
  | .invalidUsing _ => .invalidUsing

/-- The name an error is about. -/
def subject : SemanticError → Name
  | .ambiguous name | .badTypeInfo name | .badTemplateArgument name _ | .badVisibility name
  | .circularInheritance name | .recursiveTemplate name | .unresolvedFunction name
  | .invalidOverload name | .invalidUsing name => name

/-- The wording of an error where no interner is at hand. -/
def text : SemanticError → String
  | .ambiguous name => "reference to " ++ name.handle ++ " is ambiguous"
  | .badTypeInfo name => "bad type information for " ++ name.handle
  | .badTemplateArgument template position =>
      "bad argument " ++ toString position ++ " for template " ++ template.handle
  | .badVisibility name => name.handle ++ " is not visible through the qualifying class"
  | .circularInheritance className => "circular inheritance through " ++ className.handle
  | .recursiveTemplate template =>
      "instantiation of " ++ template.handle ++ " does not terminate"
  | .unresolvedFunction name => "unable to resolve overloaded function " ++ name.handle
  | .invalidOverload name => "invalid redeclaration of " ++ name.handle
  | .invalidUsing name => "using-declaration of " ++ name.handle ++ " names nothing"

/-- The diagnostic of an error, with its name spelled out. -/
def diagnostic (error : SemanticError) (interner : Interner) : Diagnostic :=
  let quoted := "`" ++ interner.lookup error.subject ++ "`"
  let base := Diagnostic.error error.code
  match error with
  | .ambiguous _ => base.withMessage ("reference to " ++ quoted ++ " is ambiguous")
  | .badTypeInfo _ => base.withMessage (quoted ++ " cannot be used here")
  | .badTemplateArgument _ position =>
      (base.withMessage ("bad argument for template " ++ quoted)).withNote
        ("argument " ++ toString (position + 1) ++ " does not match its parameter")
  | .badVisibility _ => base.withMessage (quoted ++ " is not a member of the qualifying class")
  | .circularInheritance _ => base.withMessage (quoted ++ " inherits from itself")
  | .recursiveTemplate _ =>
      (base.withMessage ("instantiation of " ++ quoted ++ " does not terminate")).withNote
        "the instantiation was abandoned and its partial results discarded"
  | .unresolvedFunction _ =>
      (base.withMessage ("unable to resolve overloaded function " ++ quoted)).withNote
        "no argument types are available to pick a candidate"
  | .invalidOverload _ => base.withMessage ("invalid redeclaration of " ++ quoted)
  | .invalidUsing _ => base.withMessage ("using-declaration of " ++ quoted ++ " names nothing")

end SemanticError

/-- Why a transaction mark cannot be released. -/
inductive TransactionError where
  /-- The mark was already committed or rolled back. -/
  | stale (mark : UInt32)
  /-- A mark taken later is still live. -/
  | notInnermost (mark innermost : UInt32)
  deriving DecidableEq, Repr

namespace TransactionError

/-- The stable code of an error. -/
def code : TransactionError → ErrorCode
  | .stale _ => .staleMark
  | .notInnermost _ _ => .markOutOfOrder

/-- The wording of an error. -/
def message : TransactionError → String
  | .stale mark => "mark " ++ toString mark.toNat ++ " is no longer live"
  | .notInnermost mark innermost =>
      "mark " ++ toString mark.toNat ++ " released while mark " ++ toString innermost.toNat
        ++ " is still live"

end TransactionError

/-- An operation that the kind of a symbol does not support. -/
inductive Unsupported where
  | addSymbol
  | insertMember
  | parameterOfTemplate
  | addParameter
  | setVarargs
  | setReturnType
  | addParent
  | constructorNotFunction
  | addConstructor
  | conversionNotFunction
  | addConversion
  | addTemplateParameter
  | addTemplateSpecialization
  | mapDefinitionParameter
  | addUsingDirective
  deriving DecidableEq, Repr

namespace Unsupported

/-- The wording of an unsupported operation. -/
def message : Unsupported → String
  | .addSymbol => "add_symbol into a symbol that holds no members"
  | .insertMember => "insert_member into a symbol that holds no members"
  | .parameterOfTemplate => "template parameters are added with add_template_parameter"
  | .addParameter => "add_parameter on a symbol without a parameter list"
  | .setVarargs => "set_varargs on a symbol without a parameter list"
  | .setReturnType => "set_return_type on a symbol without a parameter list"
  | .addParent => "add_parent on a symbol that cannot have bases"
  | .constructorNotFunction => "a constructor must be a function symbol"
  | .addConstructor => "add_constructor on a non-class symbol"
  | .conversionNotFunction => "a conversion operator must be a function symbol"
  | .addConversion => "add_conversion on a non-class symbol"
  | .addTemplateParameter => "add_template_parameter on a non-template symbol"
  | .addTemplateSpecialization => "add_template_specialization on a non-template symbol"
  | .mapDefinitionParameter => "map_definition_parameter on a non-template symbol"
  | .addUsingDirective => "add_using_directive on a symbol that holds no members"

end Unsupported

/-- An internal condition that the engine relies on and that does not hold. -/
inductive Invariant where
  | sentinelMissing
  | nestedMark
  | instantiationMark
  | missingBaseLink
  | parametersOfOther
  | completionOff
  /-- Instantiations nest deeper than the configured bound. -/
  | nestingExhausted
  deriving DecidableEq, Repr

namespace Invariant

/-- The wording of a violated condition. -/
def message : Invariant → String
  | .sentinelMissing => "live mark has no sentinel in the undo log"
  | .nestedMark => "nested mark found while unwinding"
  | .instantiationMark => "instantiation mark was not innermost when released"
  | .missingBaseLink => "deferred base refers to a missing base link"
  | .parametersOfOther => "copied parameters into a symbol without a parameter list"
  | .completionOff => "prefix lookup requires completion mode"
  | .nestingExhausted => "instantiations nest too deeply"

end Invariant

/-- Misuse of the engine, or a violated internal condition. -/
inductive Fault where
  | unsupported (operation : Unsupported)
  | invariant (condition : Invariant)
  deriving DecidableEq, Repr

namespace Fault

/-- The code under which a fault is filed. -/
def code : Fault → ErrorCode
  | .unsupported _ => .unsupportedOperation
  | .invariant _ => .invariantViolated

/-- The wording of a fault. -/
def message : Fault → String
  | .unsupported operation => "unsupported operation: " ++ operation.message
  | .invariant condition => "internal invariant violated: " ++ condition.message

end Fault

/-- What ends a step of the engine early. -/
inductive Interrupt where
  | error (error : SemanticError)
  | fault (fault : Fault)
  deriving DecidableEq, Repr

end NameBinding
