import NameBinding.Conversion.Cost
import NameBinding.Conversion.Qualification
import NameBinding.Inheritance.Basic
import NameBinding.Template.Instantiate

/-!
# Standard conversions

The conversions that need no user-defined function, tried in order: identity, qualification,
promotion, standard conversion, and binding a reference to a base class.  A reference to non-const
binds to no temporary, so promotions and standard conversions do not apply to it.
-/

namespace NameBinding

/-- The penalty of a conversion to pointer to void. -/
def voidPointerDetail : Nat := 1 <<< 16

/-- The penalty of a conversion from a pointer to the boolean type. -/
def booleanDetail : Nat := 1 <<< 20

namespace Descriptor

/-- A type as an operand of a conversion.  References are removed and arrays and functions decay;
unless a reference is to be bound, top-level qualifiers are dropped. -/
def conversionOperand (type : Descriptor) (keepTopCv : Bool) : Descriptor :=
  let value := type.stripReference.decay
  let value := if keepTopCv then value else value.stripTopCv
  { value.stripDefault.stripSpecifiers with constant := none }

end Descriptor

namespace Table

/-- The class that a link refers to. -/
def linkedClass? (table : Table) (type : Descriptor) : Option SymbolId :=
  (type.link.map table.classOf).filter fun id => (table.symbol id).type.kind.isClass

/-- The class that a descriptor names without any operator. -/
def classType? (table : Table) (type : Descriptor) : Option SymbolId :=
  if type.hasOps then none else table.linkedClass? type

/-- Is the base an enumeration? -/
def isEnumerationType (table : Table) (type : Descriptor) : Bool :=
  type.kind == .enumeration
    || type.link.any fun link => (table.symbol (table.classOf link)).type.kind == .enumeration

/-- Integral and floating-point promotions. -/
def isPromotion (table : Table) (source target : Descriptor) : Bool :=
  !source.hasOps && !target.hasOps && target.baseCv.includes source.baseCv
    && target.flags.sizeSign == {}
    && match target.kind with
      | .int =>
          source.kind == .bool || source.kind == .char || source.kind == .wchar
            || (source.kind == .int && source.flags.sizeSign.isShort)
            || table.isEnumerationType source
      | .double => source.kind == .float
      | _ => false

/-- The number of inheritance steps from a class to a proper base of it. -/
def properDistance (table : Table) (derived base : SymbolId) :
    Except SemanticError (Option Nat) := do
  let distance ← table.derivedDistance derived base
  pure (distance.filter (0 < ·))

/-- Conversions between two types with a single operator each.  Only what is pointed to changes: a
pointer converts to pointer to void or to a base, a member pointer to one of a derived class. -/
def pointerConversion (table : Table) (source target : Descriptor) (sourceOp targetOp : PtrOp) :
    Except SemanticError (Option Nat) :=
  if !target.baseCv.includes source.baseCv || !targetOp.cv.includes sourceOp.cv then .ok none
  else
    match sourceOp.kind, targetOp.kind with
    | .pointer, .pointer =>
        if target.kind = .void && target.link.isNone then
          .ok (if source.kind = .function then none else some voidPointerDetail)
        else
          match table.linkedClass? source, table.linkedClass? target with
          | some derived, some base => table.properDistance derived base
          | _, _ => .ok none
    | .memberPointer, .memberPointer =>
        match sourceOp.memberOf, targetOp.memberOf with
        | some base, some derived =>
            if source.sameBase target then
              table.properDistance (table.classOf derived) (table.classOf base)
            else .ok none
        | _, _ => .ok none
    | _, _ => .ok none

/-- Standard conversions, with what distinguishes them among each other. -/
def standardConversion (table : Table) (source target : Descriptor) :
    Except SemanticError (Option Nat) :=
  if !source.hasOps && !target.hasOps then
    if (source.kind.isArithmetic || table.isEnumerationType source) && target.kind.isArithmetic
        && target.link.isNone then
      .ok (some (if target.kind = .bool then 1 else 0))
    else .ok none
  else if target.kind = .bool && !target.hasOps then
    match source.ops with
    | op :: _ =>
        .ok (if op.kind = .pointer || op.kind = .memberPointer then some booleanDetail else none)
    | [] => .ok none
  else
    match source.ops, target.ops with
    | [sourceOp], [targetOp] => table.pointerConversion source target sourceOp targetOp
    | _, _ => .ok none

/-- Binding a reference to a base class of a class. -/
def referenceToBase (table : Table) (source target : Descriptor) :
    Except SemanticError (Option Nat) :=
  match table.classType? source, table.classType? target with
  | some derived, some base =>
      if target.baseCv.includes source.baseCv then table.properDistance derived base else .ok none
  | _, _ => .ok none

/-- Promotions and standard conversions, which yield a temporary. -/
def temporaryCost? (table : Table) (cost : Cost) : Except SemanticError (Option Cost) :=
  if !cost.bindsTemporary then .ok none
  else if table.isPromotion cost.source cost.target then .ok (some { cost with rank := .promotion })
  else do
    let detail ← table.standardConversion cost.source cost.target
    pure (detail.map fun detail => { cost with rank := .conversion, detail })

/-- Binding a reference parameter to a base class of the argument. -/
def baseBindingCost? (table : Table) (cost : Cost) : Except SemanticError (Option Cost) :=
  if !cost.targetHadReference then .ok none
  else do
    let distance ← table.referenceToBase cost.source cost.target
    pure (distance.map fun detail => { cost with rank := .derivedToBase, detail })

/-- The cost of a conversion between two resolved types without user-defined functions. -/
def standardCost (table : Table) (source target : Descriptor) : Except SemanticError Cost :=
  let bound := target.isReference
  let cost : Cost :=
    { source := source.conversionOperand bound
      target := target.conversionOperand bound
      targetHadReference := bound }
  if cost.source.same cost.target then .ok { cost with rank := .identity }
  else
    match cost.source.qualificationAdjustment cost.target with
    | some qualification => .ok { cost with rank := .identity, qualification }
    | none => do
        match ← table.temporaryCost? cost with
        | some found => pure found
        | none => do
            let bound ← table.baseBindingCost? cost
            pure (bound.getD cost)

/-- The cost of an argument passed through an ellipsis. -/
def ellipsisCost (table : Table) (source : Descriptor) : Cost :=
  Cost.ofEllipsis (table.flattenType source)

end Table

namespace Analysis

/-- The cost of a conversion without user-defined functions. -/
def nestedCost (source target : Descriptor) : Analysis Cost := do
  let resolvedSource ← resolveType source
  let resolvedTarget ← resolveType target
  let table ← get
  ofExcept (table.standardCost resolvedSource resolvedTarget)

end Analysis

end NameBinding
