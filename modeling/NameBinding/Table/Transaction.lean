import NameBinding.Table.Basic

/-!
# Speculative changes

A caller takes a mark, tries something out, and then either keeps it (`commit`) or takes all of it
back (`rollback`).  A refused release changes nothing.
-/

namespace NameBinding

namespace Table

/-- Take back one edit. -/
def undo (table : Table) (id : SymbolId) (reversal : Reversal) : Table :=
  { table with symbols := table.symbols.modify id.index reversal.apply }

/-- Discard all declarations but the first `size`. -/
def truncate (table : Table) (size : Nat) : Table :=
  { table with symbols := table.symbols.take size }

end Table

namespace Analysis

/-- Start recording edits.  Marks nest; the innermost is released first. -/
def mark : Analysis Mark :=
  modifyGet fun table =>
    let (mark, journal) := table.journal.mark table.size
    (mark, { table with journal })

/-- Take back recorded edits, newest first. -/
def undoAll : List Record → Analysis Unit
  | [] => pure ()
  | .mark _ _ :: _ => violated .nestedMark
  | .edit id reversal :: rest => do
      modify (·.undo id reversal)
      undoAll rest

/-- Take back every edit since `mark` and discard the declarations made after it. -/
def rollback (mark : Mark) : Analysis (Except TransactionError Unit) := do
  let table ← get
  match table.journal.checkInnermost mark with
  | .error error => pure (.error error)
  | .ok () =>
      match Journal.splitAt mark.id table.journal.records with
      | none => violated .sentinelMissing
      | some (taken, size, kept) => do
          set { table with
            journal := { table.journal with records := kept, live := table.journal.live.tail } }
          undoAll taken
          modify (·.truncate size)
          pure (.ok ())

/-- Keep every edit since `mark`. -/
def commit (mark : Mark) : Analysis (Except TransactionError Unit) := do
  let table ← get
  match table.journal.checkInnermost mark with
  | .error error => pure (.error error)
  | .ok () => do
      set { table with journal := table.journal.commit mark }
      pure (.ok ())

end Analysis

namespace Table

/-- The number of marks that are neither rolled back nor committed. -/
def liveMarks (table : Table) : Nat := table.journal.live.length

end Table

end NameBinding
