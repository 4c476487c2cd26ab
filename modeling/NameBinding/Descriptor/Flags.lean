/-!
# Qualifiers, specifiers and size modifiers

A descriptor carries three groups of flags that follow different rules: qualifiers belong to one
level of the type, specifiers belong to the declaration and not to the type, and size and sign
modifiers distinguish builtin types of one kind.  Each group is a record of its own, and all three
are joined flag by flag.
-/

namespace NameBinding

/-- The cv-qualifiers of one level of a type. -/
structure Cv where
  isConst : Bool := false
  isVolatile : Bool := false
  deriving DecidableEq, Repr, Inhabited

namespace Cv

/-- No qualifier. -/
def none : Cv := {}

/-- The qualifiers in either set. -/
def union (a b : Cv) : Cv := ⟨a.isConst || b.isConst, a.isVolatile || b.isVolatile⟩

/-- The qualifiers of `a` that are not in `b`. -/
def diff (a b : Cv) : Cv := ⟨a.isConst && !b.isConst, a.isVolatile && !b.isVolatile⟩

/-- Is every qualifier of `b` in `a`? -/
def includes (a b : Cv) : Bool := (!b.isConst || a.isConst) && (!b.isVolatile || a.isVolatile)

/-- Is there no qualifier? -/
def isEmpty (a : Cv) : Bool := !a.isConst && !a.isVolatile

/-- The number of qualifiers. -/
def count (a : Cv) : Nat := a.isConst.toNat + a.isVolatile.toNat

end Cv

/-- The specifiers of a declaration.  They take no part in the identity of a type. -/
structure Specifiers where
  isStatic : Bool := false
  isExtern : Bool := false
  isMutable : Bool := false
  isInline : Bool := false
  isVirtual : Bool := false
  isExplicit : Bool := false
  isTypedef : Bool := false
  isFriend : Bool := false
  isAuto : Bool := false
  isRegister : Bool := false
  /-- Declared but not defined. -/
  isForward : Bool := false
  deriving DecidableEq, Repr, Inhabited

namespace Specifiers

/-- The specifiers in either set. -/
def union (a b : Specifiers) : Specifiers where
  isStatic := a.isStatic || b.isStatic
  isExtern := a.isExtern || b.isExtern
  isMutable := a.isMutable || b.isMutable
  isInline := a.isInline || b.isInline
  isVirtual := a.isVirtual || b.isVirtual
  isExplicit := a.isExplicit || b.isExplicit
  isTypedef := a.isTypedef || b.isTypedef
  isFriend := a.isFriend || b.isFriend
  isAuto := a.isAuto || b.isAuto
  isRegister := a.isRegister || b.isRegister
  isForward := a.isForward || b.isForward

/-- Everything but the typedef specifier. -/
def withoutTypedef (a : Specifiers) : Specifiers := { a with isTypedef := false }

end Specifiers

/-- The modifiers that make two builtin types of the same kind distinct. -/
structure SizeSign where
  isUnsigned : Bool := false
  isSigned : Bool := false
  isShort : Bool := false
  isLong : Bool := false
  isLongLong : Bool := false
  deriving DecidableEq, Repr, Inhabited

namespace SizeSign

/-- The modifiers in either set. -/
def union (a b : SizeSign) : SizeSign where
  isUnsigned := a.isUnsigned || b.isUnsigned
  isSigned := a.isSigned || b.isSigned
  isShort := a.isShort || b.isShort
  isLong := a.isLong || b.isLong
  isLongLong := a.isLongLong || b.isLongLong

end SizeSign

/-- All flags of a descriptor.  The qualifiers here are those of the base type; the qualifiers of
a pointer level stand on its operator. -/
structure Flags where
  cv : Cv := {}
  specifiers : Specifiers := {}
  sizeSign : SizeSign := {}
  deriving DecidableEq, Repr, Inhabited

namespace Flags

/-- The flags in either set. -/
def union (a b : Flags) : Flags where
  cv := a.cv.union b.cv
  specifiers := a.specifiers.union b.specifiers
  sizeSign := a.sizeSign.union b.sizeSign

end Flags

end NameBinding
