import NameBinding.Error
import NameBinding.Symbol.Edit

/-!
# The undo journal

While at least one mark is live, every edit leaves a record of how to take it back.  A mark is
itself a record; it remembers how many symbols there were, so that symbols created after it are
discarded by truncation.

Marks nest strictly: only the innermost live mark can be released.  Committing an inner mark removes
just its own record, which leaves its edits to the enclosing mark; committing the last live mark
forgets everything.
-/

namespace NameBinding

/-- A token for one rollback or one commit. -/
structure Mark where
  id : UInt32
  deriving DecidableEq, Repr

/-- One record of the journal. -/
inductive Record where
  /-- A mark was taken when there were `size` symbols. -/
  | mark (id : UInt32) (size : Nat)
  /-- The symbol was edited. -/
  | edit (symbol : SymbolId) (reversal : Reversal)

namespace Record

/-- Is this the record of mark `id`? -/
def isMark (id : UInt32) : Record → Bool
  | .mark other _ => other == id
  | .edit _ _ => false

end Record

/-- The records and the live marks, both newest first. -/
structure Journal where
  records : List Record := []
  live : List UInt32 := []
  nextId : UInt32 := 0
  deriving Inhabited

namespace Journal

/-- Is any mark live? -/
def isRecording (journal : Journal) : Bool := !journal.live.isEmpty

/-- Keep a record if any mark is live. -/
def push (journal : Journal) (record : Record) : Journal :=
  if journal.isRecording then { journal with records := record :: journal.records } else journal

/-- Take a mark while there are `size` symbols.  Identifiers are handed out in turn. -/
def mark (journal : Journal) (size : Nat) : Mark × Journal :=
  (⟨journal.nextId⟩,
    { records := .mark journal.nextId size :: journal.records
      live := journal.nextId :: journal.live
      nextId := journal.nextId + 1 })

/-- May the mark be released now? -/
def checkInnermost (journal : Journal) (mark : Mark) : Except TransactionError Unit :=
  match journal.live with
  | [] => .error (.stale mark.id)
  | innermost :: _ =>
      if innermost = mark.id then .ok ()
      else if mark.id ∈ journal.live then .error (.notInnermost mark.id innermost)
      else .error (.stale mark.id)

/-- The records taken since mark `id`, newest first, the number of symbols it remembers, and the
records before it. -/
def splitAt (id : UInt32) : List Record → Option (List Record × Nat × List Record)
  | [] => none
  | .mark other size :: rest =>
      if other = id then some ([], size, rest)
      else (splitAt id rest).map fun (taken, kept) => (.mark other size :: taken, kept)
  | .edit symbol reversal :: rest =>
      (splitAt id rest).map fun (taken, kept) => (.edit symbol reversal :: taken, kept)

/-- Drop the newest record of mark `id`. -/
def dropMark (id : UInt32) : List Record → List Record
  | [] => []
  | record :: rest => if record.isMark id then rest else record :: dropMark id rest

/-- Make all edits since the innermost mark permanent with respect to it. -/
def commit (journal : Journal) (mark : Mark) : Journal :=
  match journal.live.tail with
  | [] => { journal with records := [], live := [] }
  | live => { journal with records := dropMark mark.id journal.records, live }

end Journal

end NameBinding
