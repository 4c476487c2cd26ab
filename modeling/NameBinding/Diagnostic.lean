/-!
# Error codes and diagnostics

Every failure the engine reports carries a stable code.  A diagnostic joins a code, a message and
any number of notes, and knows how it is printed.

* `ErrorCode.parse?` reads a code back from its spelling, ignoring ASCII case.
* `Diagnostic.render` prints a diagnostic.
-/

namespace NameBinding

/-- The codes of all failures.  Codes `E2…` are recoverable errors of the analysed program, codes
`E3…` report misuse of transactions, codes `E9…` are failures of the engine itself. -/
inductive ErrorCode where
  | ambiguousReference
  | badTypeInformation
  | badTemplateArgument
  | memberNotVisible
  | circularInheritance
  | recursiveTemplate
  | unresolvedFunction
  | invalidOverload
  | invalidUsing
  | staleMark
  | markOutOfOrder
  | invariantViolated
  | unsupportedOperation
  deriving DecidableEq, Repr

namespace ErrorCode

/-- All codes, in the order of their spellings. -/
def all : List ErrorCode :=
  [.ambiguousReference, .badTypeInformation, .badTemplateArgument, .memberNotVisible,
    .circularInheritance, .recursiveTemplate, .unresolvedFunction, .invalidOverload,
    .invalidUsing, .staleMark, .markOutOfOrder, .invariantViolated, .unsupportedOperation]

/-- The spelling of a code. -/
def spelling : ErrorCode → String
  | .ambiguousReference => "E2001"
  | .badTypeInformation => "E2002"
  | .badTemplateArgument => "E2003"
  | .memberNotVisible => "E2004"
  | .circularInheritance => "E2005"
  | .recursiveTemplate => "E2006"
  | .unresolvedFunction => "E2007"
  | .invalidOverload => "E2008"
  | .invalidUsing => "E2009"
  | .staleMark => "E3001"
  | .markOutOfOrder => "E3002"
  | .invariantViolated => "E9001"
  | .unsupportedOperation => "E9002"

/-- What a code stands for. -/
def description : ErrorCode → String
  | .ambiguousReference => "ambiguous reference"
  | .badTypeInformation => "bad type information"
  | .badTemplateArgument => "bad template argument"
  | .memberNotVisible => "member not visible"
  | .circularInheritance => "circular inheritance"
  | .recursiveTemplate => "recursive template instantiation"
  | .unresolvedFunction => "unable to resolve function"
  | .invalidOverload => "invalid overload"
  | .invalidUsing => "invalid using-declaration"
  | .staleMark => "stale transaction mark"
  | .markOutOfOrder => "transaction mark out of order"
  | .invariantViolated => "internal invariant violated"
  | .unsupportedOperation => "unsupported operation"

/-- Is this a recoverable error of the analysed program? -/
def isSemantic : ErrorCode → Bool
  | .staleMark | .markOutOfOrder | .invariantViolated | .unsupportedOperation => false
  | _ => true

/-- Is this a failure of the engine itself? -/
def isInternal : ErrorCode → Bool
  | .invariantViolated | .unsupportedOperation => true
  | _ => false

/-- The code a text spells; the case of ASCII letters does not matter. -/
def parse? (text : String) : Option ErrorCode :=
  all.find? fun code => code.spelling.toList.map Char.toLower == text.toList.map Char.toLower

end ErrorCode

/-- A reportable failure. -/
structure Diagnostic where
  code : ErrorCode
  message : String
  notes : List String := []
  deriving DecidableEq, Repr

namespace Diagnostic

/-- A diagnostic whose message is the description of its code. -/
def error (code : ErrorCode) : Diagnostic := { code, message := code.description }

/-- Replace the message. -/
def withMessage (diagnostic : Diagnostic) (message : String) : Diagnostic :=
  { diagnostic with message }

/-- Append a note. -/
def withNote (diagnostic : Diagnostic) (note : String) : Diagnostic :=
  { diagnostic with notes := diagnostic.notes ++ [note] }

/-- The printed form: one line for code and message, one more for each note. -/
def render (diagnostic : Diagnostic) : String :=
  diagnostic.notes.foldl (fun text note => text ++ "\n  = note: " ++ note)
    ("error [" ++ diagnostic.code.spelling ++ "]: " ++ diagnostic.message)

end Diagnostic

end NameBinding
