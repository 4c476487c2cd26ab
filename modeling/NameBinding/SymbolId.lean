/-!
# Handles of declarations

Declarations refer to each other by their position in the table that owns them, so that cyclic
graphs (a class that mentions itself, bases, aliases) need no shared ownership.
-/

namespace NameBinding

/-- The position of a declaration in its table. -/
structure SymbolId where
  index : Nat
  deriving DecidableEq, Repr, Inhabited

end NameBinding
