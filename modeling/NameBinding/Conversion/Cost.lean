import NameBinding.Descriptor.Basic

/-!
# Costs of conversions

A `Cost` says how an argument type converts to a parameter type.  Costs are ordered by rank, then by
the detail within the rank, then by the number of qualifiers added; sequences through different
user-defined functions are indistinguishable.
-/

namespace NameBinding

/-- The ranks of conversions, best first. -/
inductive Rank where
  /-- Nothing but qualifiers is adjusted. -/
  | identity
  | promotion
  | conversion
  /-- A reference binds to a base of the argument's class. -/
  | derivedToBase
  | userDefined
  /-- The argument is matched by an ellipsis. -/
  | ellipsis
  | noMatch
  deriving DecidableEq, Repr

namespace Rank

/-- The place of a rank in the order. -/
def order : Rank → Nat
  | .identity => 0
  | .promotion => 1
  | .conversion => 2
  | .derivedToBase => 3
  | .userDefined => 4
  | .ellipsis => 5
  | .noMatch => 6

end Rank

/-- The user-defined step of a conversion. -/
inductive UserDefined where
  | none
  /-- A converting constructor or a conversion function. -/
  | function (id : SymbolId)
  /-- More than one applies. -/
  | ambiguous
  deriving DecidableEq, Repr

/-- How one argument type converts to one parameter type. -/
structure Cost where
  /-- The argument type after the adjustments that cost nothing. -/
  source : Descriptor
  /-- The parameter type after the same adjustments. -/
  target : Descriptor
  rank : Rank := .noMatch
  /-- The parameter was a reference. -/
  targetHadReference : Bool := false
  /-- The number of qualifiers added. -/
  qualification : Nat := 0
  /-- What distinguishes conversions of one rank: an inheritance distance, or a penalty. -/
  detail : Nat := 0
  userDefined : UserDefined := .none

namespace Cost

/-- Is there a conversion at all? -/
def isMatch (cost : Cost) : Bool := cost.rank != .noMatch

/-- May the parameter be bound to a temporary?  A reference only if it is to const. -/
def bindsTemporary (cost : Cost) : Bool :=
  !cost.targetHadReference || cost.target.baseCv.isConst

/-- The order of two costs of one rank, by detail and then by added qualifiers. -/
def compareDetail (a b : Cost) : Ordering :=
  (compare a.detail b.detail).then (compare a.qualification b.qualification)

/-- The order of two costs for the same argument; the lesser is the better conversion. -/
def compare (a b : Cost) : Ordering :=
  (Ord.compare a.rank.order b.rank.order).then
    (match a.rank, a.userDefined, b.userDefined with
      | .userDefined, .function f, .function g => if f = g then a.compareDetail b else .eq
      | _, _, _ => a.compareDetail b)

/-- The cost of an argument matched by an ellipsis. -/
def ofEllipsis (source : Descriptor) : Cost :=
  { source, target := .ofKind .undef, rank := .ellipsis }

end Cost

end NameBinding
