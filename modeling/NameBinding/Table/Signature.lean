import NameBinding.Table.Identity

/-!
# Signatures of functions

Two functions declare the same parameters when their adjusted parameter types agree: typedefs are
seen through, arrays and functions decay to pointers, and top-level qualifiers, specifiers and
default values are dropped.
-/

namespace NameBinding.Table

/-- A parameter type as it takes part in the signature of a function.  A type that decays keeps no
qualifier of the array, and any other loses its top-level qualifiers. -/
def adjustedParameter (table : Table) (type : Descriptor) : Descriptor :=
  let flat := table.flattenType type
  let decays : Bool :=
    match flat.ops with
    | op :: _ => op.kind == .array
    | [] => flat.kind == .function
  let adjusted := if decays then flat.decay else flat.stripTopCv
  adjusted.stripSpecifiers.stripDefault

/-- The adjusted parameter types of a function.  A lone void parameter means none. -/
def signature (table : Table) (function : SymbolId) : List Descriptor :=
  let adjusted := fun parameter => table.adjustedParameter (table.symbol parameter).type
  match (table.symbol function).parameters with
  | [only] => if (table.symbol only).type.isPlainVoid then [] else [adjusted only]
  | parameters => parameters.map adjusted

/-- Do two functions declare the same parameter list?  The qualifiers of a member function and a
trailing ellipsis count too. -/
def hasSameParameters (table : Table) (a b : SymbolId) : Bool :=
  let entityA := table.canonical a
  let entityB := table.canonical b
  let symbolA := table.symbol entityA
  let symbolB := table.symbol entityB
  entityA == entityB
    || (symbolA.type.baseCv == symbolB.type.baseCv && symbolA.varargs == symbolB.varargs
      && Descriptor.sameAll (table.signature entityA) (table.signature entityB))

end NameBinding.Table
