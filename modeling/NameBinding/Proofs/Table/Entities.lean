import NameBinding.Table.Identity

/-!
# Tables in which declarations stand for the same

What a declaration stands for, and what a type amounts to once typedefs are seen through, is read from the
types and the links of the symbols alone.  Tables with the same ones agree on it, whatever else differs.

* `Table.SameEntities`: the tables have the same symbols, as far as types and links go.
* `SameEntities.canonical_eq`, `flattenType_eq` and `classOf_eq`: what they agree on.
-/

namespace NameBinding.Table

variable {table other : Table}

/-- The types of the symbols and what they directly stand for are the same in both tables. -/
structure SameEntities (table other : Table) : Prop where
  size : other.size = table.size
  type : ∀ id, (other.symbol id).type = (table.symbol id).type
  aliasOf : ∀ id, (other.symbol id).aliasOf = (table.symbol id).aliasOf
  forwardTarget : ∀ id, (other.symbol id).forwardTarget = (table.symbol id).forwardTarget

namespace SameEntities

variable (same : table.SameEntities other)

include same

theorem nextLink_eq (id : SymbolId) : other.nextLink id = table.nextLink id := by
  rw [nextLink, nextLink, same.aliasOf, same.forwardTarget]

theorem followLinks_eq (steps : Nat) (id : SymbolId) :
    other.followLinks steps id = table.followLinks steps id := by
  induction steps generalizing id with
  | zero => rfl
  | succ steps ih =>
      rw [followLinks, followLinks, same.nextLink_eq]
      cases table.nextLink id with
      | none => rfl
      | some next => exact ih next

theorem canonical_eq (id : SymbolId) : other.canonical id = table.canonical id := by
  rw [canonical, canonical, same.size, same.followLinks_eq]

theorem flattenSteps_eq (steps : Nat) (type : Descriptor) :
    other.flattenSteps steps type = table.flattenSteps steps type := by
  induction steps generalizing type with
  | zero => rfl
  | succ steps ih => simp only [flattenSteps, same.canonical_eq, same.type, ih]

theorem flattenType_eq (type : Descriptor) : other.flattenType type = table.flattenType type := by
  rw [flattenType, flattenType, same.size, same.flattenSteps_eq]

theorem classOf_eq (id : SymbolId) : other.classOf id = table.classOf id := by
  simp only [classOf, same.canonical_eq, same.type, same.flattenType_eq]

end SameEntities

end NameBinding.Table
