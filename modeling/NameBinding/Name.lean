/-!
# Interned names

Every identifier of a program unit is stored once.  A `Name` is the position of its spelling in
the interner, so two identifiers are equal exactly when their positions are.

* `Interner.intern` gives a spelling its name, adding it if it is new.
* `Interner.get?` gives the name of a spelling that is already there.
* `Interner.lookup` gives a name back its spelling.
-/

namespace NameBinding

/-- An interned identifier. -/
structure Name where
  index : Nat
  deriving DecidableEq, Repr, Inhabited

namespace Name

/-- The name of unnamed declarations. -/
def empty : Name := ⟨0⟩

/-- Is this the name of unnamed declarations? -/
def isEmpty (name : Name) : Bool := name.index == 0

/-- How a name is written where no interner is at hand. -/
def handle (name : Name) : String := "Name(" ++ toString name.index ++ ")"

end Name

/-- Why a spelling cannot be interned. -/
inductive InternError where
  /-- `count` spellings are already stored. -/
  | overflow (count : Nat)
  deriving DecidableEq, Repr

namespace InternError

/-- The largest position a name can have. -/
def maxIndex : Nat := UInt32.size - 1

/-- The wording of the error. -/
def message : InternError → String
  | .overflow count =>
      "interner exceeded capacity: " ++ toString count ++ " strings, max is " ++ toString maxIndex

end InternError

/-- The spellings of all interned names, in the order in which they were first seen. -/
structure Interner where
  spellings : Array String

namespace Interner

/-- The spellings every interner starts with.  The empty one is the spelling of `Name.empty`. -/
def builtins : Array String :=
  #["", "void", "bool", "char", "wchar_t", "int", "float", "double", "short", "long", "signed",
    "unsigned", "const", "volatile", "operator", "this", "std"]

/-- The interner of a new program unit. -/
def initial : Interner := ⟨builtins⟩

instance : Inhabited Interner := ⟨initial⟩

/-- The number of stored spellings, the empty one included. -/
def size (interner : Interner) : Nat := interner.spellings.size

/-- Nothing but the empty spelling is stored. -/
def isEmpty (interner : Interner) : Bool := interner.size ≤ 1

/-- The name of a stored spelling. -/
def get? (interner : Interner) (text : String) : Option Name :=
  (interner.spellings.findIdx? (· == text)).map Name.mk

/-- The spelling of a name; a name that was never interned reads as the empty text. -/
def lookup (interner : Interner) (name : Name) : String :=
  interner.spellings.getD name.index ""

/-- The name of `text`, which is stored if it is new. -/
def intern (interner : Interner) (text : String) : Name × Interner :=
  match interner.get? text with
  | some name => (name, interner)
  | none => (⟨interner.size⟩, ⟨interner.spellings.push text⟩)

/-- Like `intern`, but refuses a new spelling once every position is taken. -/
def intern? (interner : Interner) (text : String) : Except InternError (Name × Interner) :=
  if (interner.get? text).isNone && InternError.maxIndex < interner.size then
    .error (.overflow interner.size)
  else
    .ok (interner.intern text)

end Interner

end NameBinding
