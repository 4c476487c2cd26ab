import NameBinding.Descriptor.Basic

/-!
# Qualification conversions

A type converts to a more qualified type of the same shape.  Levels are counted from the top: every
level may only gain qualifiers, and where a level below the top gains one, every level above it but
the top one must be const.
-/

namespace NameBinding.Descriptor

/-- The qualifiers of all levels: the operators from the top, then the base. -/
def levels (type : Descriptor) : List Cv := type.ops.map (·.cv) ++ [type.baseCv]

/-- The number of qualifiers added at the levels below the top, given whether all levels so far are
const in the target; nothing if the levels are no ladder. -/
def ladder : Bool → List (Cv × Cv) → Option Nat
  | _, [] => some 0
  | constSoFar, (source, target) :: rest =>
      if target.includes source && (source == target || constSoFar) then
        (ladder (constSoFar && target.isConst) rest).map ((target.diff source).count + ·)
      else none

/-- The number of qualifiers that a qualification conversion adds, or nothing if there is none. -/
def qualificationAdjustment (source target : Descriptor) : Option Nat :=
  if source.samePtrShape target && source.sameBase target then
    match source.levels.zip target.levels with
    | [] => some 0
    | (top, goal) :: rest =>
        if goal.includes top then (ladder true rest).map ((goal.diff top).count + ·) else none
  else none

end NameBinding.Descriptor
