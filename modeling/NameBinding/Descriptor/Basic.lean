import NameBinding.Name
import NameBinding.SymbolId
import NameBinding.Descriptor.Flags
import NameBinding.Descriptor.Kind

/-!
# Type descriptors

A `Descriptor` holds the type of a declaration as plain data: a base kind, flags, a chain of
pointer-like operators, the declaration that names the type, the arguments of a template-id, and an
optional default value.

The head of the operator chain is the top level, the operator that is applied last when the type is
built from its base: `int *const &` has the chain `&`, `*const`.

Two descriptors are the same type (`Descriptor.same`) when they agree in everything but the default
value, at every depth.  So a parameter with and one without a default value have the same type, and
an argument tuple keys the same instance whether its defaults were filled in or not.

* `substituteBase` puts another type in the place of the base; typedefs and template parameters are
  both resolved by it.
* `sameBase` and `samePtrShape` compare the two halves of a type without qualifiers.
-/

namespace NameBinding

/-- The kinds of pointer-like operators. -/
inductive PtrOpKind where
  | pointer
  | reference
  | array
  | memberPointer
  deriving DecidableEq, Repr, Inhabited

/-- One level of an operator chain. -/
structure PtrOp where
  kind : PtrOpKind
  cv : Cv := {}
  /-- The class of a member pointer. -/
  memberOf : Option SymbolId := none
  deriving DecidableEq, Repr, Inhabited

namespace PtrOp

/-- Same kind and same member-pointer class; qualifiers are ignored. -/
def sameShape (a b : PtrOp) : Bool := a.kind == b.kind && a.memberOf == b.memberOf

end PtrOp

/-- The type of a declaration. -/
structure Descriptor where
  kind : BaseKind
  flags : Flags := {}
  /-- The operator chain, top level first. -/
  ops : List PtrOp := []
  /-- The declaration that names the type. -/
  link : Option SymbolId := none
  /-- The arguments of a template-id whose template is `link`. -/
  templateArgs : List Descriptor := []
  /-- The sort of a template parameter: a type, a template, or the type of a value. -/
  parameterKind : Option BaseKind := none
  /-- The spelling of a constant.  Constants are compared by spelling and never evaluated. -/
  constant : Option Name := none
  defaultValue : Option Descriptor := none
  deriving Repr, Inhabited

namespace Descriptor

/-! ## Construction -/

/-- The descriptor of a kind with everything else empty. -/
def ofKind (kind : BaseKind) : Descriptor := { kind }

/-- The named type that refers to `symbol`. -/
def ofSymbol (symbol : SymbolId) : Descriptor := { kind := .named, link := some symbol }

/-- The template-id `template<args…>`. -/
def templateId (template : SymbolId) (args : List Descriptor) : Descriptor :=
  { kind := .named, link := some template, templateArgs := args }

/-- The descriptor of a template parameter of the given sort. -/
def ofParameter (sort : BaseKind) : Descriptor :=
  { kind := .templateParameter, parameterKind := some sort }

/-- Add flags. -/
def withFlags (type : Descriptor) (flags : Flags) : Descriptor :=
  { type with flags := type.flags.union flags }

/-- Attach a default value. -/
def withDefault (type value : Descriptor) : Descriptor := { type with defaultValue := some value }

/-- Wrap in a new top-level operator. -/
def withOp (type : Descriptor) (op : PtrOp) : Descriptor := { type with ops := op :: type.ops }

/-- Pointer to this type. -/
def pointer (type : Descriptor) : Descriptor := type.withOp { kind := .pointer }

/-- Reference to this type. -/
def reference (type : Descriptor) : Descriptor := type.withOp { kind := .reference }

/-- Array of this type. -/
def array (type : Descriptor) : Descriptor := type.withOp { kind := .array }

/-- Pointer to a member of `owner` of this type. -/
def memberPointer (type : Descriptor) (owner : SymbolId) : Descriptor :=
  type.withOp { kind := .memberPointer, memberOf := some owner }

/-! ## Queries -/

/-- Is there any operator? -/
def hasOps (type : Descriptor) : Bool := !type.ops.isEmpty

/-- The void type itself; as a lone parameter or argument it means none. -/
def isPlainVoid (type : Descriptor) : Bool := type.kind == .void && !type.hasOps

/-- Declared but not defined. -/
def isForward (type : Descriptor) : Bool := type.flags.specifiers.isForward

/-- Declared by a typedef. -/
def isTypedef (type : Descriptor) : Bool := type.flags.specifiers.isTypedef

/-- Declared static. -/
def isStatic (type : Descriptor) : Bool := type.flags.specifiers.isStatic

/-- Declared as a friend. -/
def isFriend (type : Descriptor) : Bool := type.flags.specifiers.isFriend

/-- Is the top-level operator a reference? -/
def isReference (type : Descriptor) : Bool :=
  match type.ops with
  | op :: _ => op.kind == .reference
  | [] => false

/-- The qualifiers of the base type. -/
def baseCv (type : Descriptor) : Cv := type.flags.cv

/-- The qualifiers of the top level. -/
def topCv (type : Descriptor) : Cv :=
  match type.ops with
  | op :: _ => op.cv
  | [] => type.baseCv

/-- A named type must name a declaration, and a template parameter must have a sort. -/
def isValid (type : Descriptor) : Bool :=
  match type.kind with
  | .named => type.link.isSome
  | .templateParameter => type.parameterKind.isSome
  | _ => true

/-! ## Adjustments -/

/-- Replace the qualifiers of the base type. -/
def setBaseCv (type : Descriptor) (cv : Cv) : Descriptor :=
  { type with flags := { type.flags with cv } }

/-- Replace the qualifiers of the top level. -/
def setTopCv (type : Descriptor) (cv : Cv) : Descriptor :=
  match type.ops with
  | op :: rest => { type with ops := { op with cv } :: rest }
  | [] => type.setBaseCv cv

/-- Add qualifiers at the top level. -/
def withTopCv (type : Descriptor) (cv : Cv) : Descriptor := type.setTopCv (type.topCv.union cv)

/-- Drop the qualifiers of the top level. -/
def stripTopCv (type : Descriptor) : Descriptor := type.setTopCv Cv.none

/-- Remove a top-level reference. -/
def stripReference (type : Descriptor) : Descriptor :=
  if type.isReference then { type with ops := type.ops.tail } else type

/-- Arrays become pointers, and functions become pointers to themselves. -/
def decay (type : Descriptor) : Descriptor :=
  match type.ops with
  | op :: rest =>
      if op.kind = .array then { type with ops := { kind := .pointer } :: rest } else type
  | [] => if type.kind = .function then type.pointer else type

/-- Keep only the flags that make up the type: qualifiers, size and sign. -/
def stripSpecifiers (type : Descriptor) : Descriptor :=
  { type with flags := { type.flags with specifiers := {} } }

/-- Drop the default value. -/
def stripDefault (type : Descriptor) : Descriptor := { type with defaultValue := none }

/-- Put `replacement` in the place of the base of `use`.

The operators of the use stay outermost, its qualifiers go to the level its base stood on, and its
specifiers are kept; the typedef specifier of the replacement is not.  With `T = int *`, the use
`const T &` becomes `int *const &`. -/
def substituteBase (use replacement : Descriptor) : Descriptor :=
  let target := replacement.withTopCv use.baseCv
  { target with
    ops := use.ops ++ target.ops
    flags :=
      { target.flags with
        specifiers := replacement.flags.specifiers.withoutTypedef.union use.flags.specifiers }
    defaultValue := use.defaultValue }

/-! ## Comparison -/

mutual

/-- The same type: equal in everything but default values, at every depth. -/
def same : Descriptor → Descriptor → Bool
  | ⟨kind, flags, ops, link, args, sort, constant, _⟩,
    ⟨kind', flags', ops', link', args', sort', constant', _⟩ =>
      kind == kind' && flags == flags' && ops == ops' && link == link' && sameAll args args'
        && sort == sort' && constant == constant'

/-- The same types, position by position. -/
def sameAll : List Descriptor → List Descriptor → Bool
  | [], [] => true
  | a :: as, b :: bs => same a b && sameAll as bs
  | _, _ => false

end

instance : BEq Descriptor := ⟨same⟩

/-- The same operators at every level, qualifiers ignored. -/
def samePtrShape (a b : Descriptor) : Bool :=
  a.ops.length == b.ops.length && (a.ops.zip b.ops).all fun pair => pair.1.sameShape pair.2

/-- The same base type: kind, link, size and sign, template arguments and constant.  Qualifiers and
operators are ignored. -/
def sameBase (a b : Descriptor) : Bool :=
  a.kind == b.kind && a.link == b.link && a.flags.sizeSign == b.flags.sizeSign
    && sameAll a.templateArgs b.templateArgs && a.constant == b.constant

end Descriptor

end NameBinding
