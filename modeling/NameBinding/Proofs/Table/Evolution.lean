import NameBinding.Proofs.Template.Outermost

/-!
# How a table evolves between instantiations

Between two operations of a caller no instantiation is running.  From such a table everything the
engine does adds symbols, makes edits that can be taken back, and releases the marks it takes.
`Evolution before after` sums this up, and the lemmas here say that the elementary steps, and
instantiation as a whole, keep it:

* `Evolution.keeps_create`, `Evolution.keeps_edit`, `Evolution.keeps_intern`;
* `Evolution.follows_instantiateWithin`, where an outermost copy that fails has no effect and one
  that succeeds leaves its records to the mark around it.
-/

namespace NameBinding

/-- No instantiation is running, no symbol was lost, the same marks are live, and as long as there is
one, all that was done since `before` can be taken back.  Without a live mark nothing is recorded. -/
structure Evolution (before after : Table) : Prop where
  idle : after.Idle
  tidy : after.Tidy
  size_le : before.size ≤ after.size
  live : after.journal.live = before.journal.live
  unwinds : before.journal.live ≠ [] → ∃ taken, Unwinds before.size before after taken
  quiet : before.journal.live = [] → before.journal.records = [] → after.journal.records = []

namespace Evolution

open Analysis

variable {before : Table}

theorem refl {table : Table} (idle : table.Idle) (tidy : table.Tidy) : Evolution table table :=
  ⟨idle, tidy, Nat.le_refl _, rfl, fun _ => ⟨[], Unwinds.refl _ table⟩, fun _ empty => empty⟩

theorem trans {middle after : Table} (first : Evolution before middle)
    (second : Evolution middle after) : Evolution before after where
  idle := second.idle
  tidy := second.tidy
  size_le := Nat.le_trans first.size_le second.size_le
  live := second.live.trans first.live
  unwinds := by
    intro recording
    obtain ⟨taken, hfirst⟩ := first.unwinds recording
    obtain ⟨later, hsecond⟩ := second.unwinds (hfirst.live ▸ recording)
    exact ⟨later ++ taken, hfirst.trans hsecond first.size_le⟩
  quiet := fun none empty => second.quiet (first.live.trans none) (first.quiet none empty)

/-- A change of the table that evolves it. -/
theorem keeps_update {change : Table → Table}
    (evolves : ∀ table, table.Idle → table.Tidy → Evolution table (change table)) :
    Keeps (Evolution before) (modify change : Analysis Unit) :=
  Yields.update
    (fun table evolution => evolution.trans (evolves table evolution.idle evolution.tidy))
    fun _ _ _ => trivial

theorem allocate {table : Table} (idle : table.Idle) (tidy : table.Tidy) {symbol : Symbol}
    (tidySymbol : symbol.Tidy) : Evolution table (table.allocate symbol).2 where
  idle := idle
  tidy := by
    intro other member
    rcases Array.mem_push.mp member with old | rfl
    · exact tidy other old
    · exact tidySymbol
  size_le := by
    rw [Table.size_allocate]
    omega
  live := rfl
  unwinds := fun _ => ⟨[], (Unwinds.refl _ table).allocate (Nat.le_refl _) symbol⟩
  quiet := fun _ empty => empty

theorem perform {table : Table} (idle : table.Idle) (tidy : table.Tidy) (id : SymbolId)
    {edit : Edit} (reversible : edit.Reversible) : Evolution table (table.perform id edit) where
  idle := idle
  tidy := Table.Tidy.of_modify tidy id.index fun _ => edit.apply_tidy
  size_le := Nat.le_of_eq (Table.size_perform table id edit).symm
  live := by
    simp only [Table.perform, Journal.push]
    split <;> rfl
  unwinds := by
    intro recording
    have hback := Table.undone_perform id fun symbol (member : symbol ∈ table.symbols) =>
      Edit.reversal_apply reversible (tidy symbol member)
    exact ⟨_, (Unwinds.refl _ table).perform recording (hback ▸ AgreeBelow.refl _ _)⟩
  quiet := by
    intro none empty
    simp [Table.perform, Journal.push, Journal.isRecording, none, empty]

theorem keeps_create {symbol : Symbol} (tidy : symbol.Tidy) :
    Keeps (Evolution before) (create symbol) :=
  Yields.updateGet
    (fun _ evolution =>
      ⟨evolution.trans (allocate evolution.idle evolution.tidy tidy), trivial⟩)
    fun _ _ _ => trivial

theorem keeps_edit (id : SymbolId) {edit : Edit} (reversible : edit.Reversible) :
    Keeps (Evolution before) (Analysis.edit id edit) :=
  keeps_update fun _ idle tidy => perform idle tidy id reversible

/-- Names are no symbols. -/
theorem keeps_intern (text : String) :
    Keeps (Evolution before) (modifyGet (·.intern text) : Analysis Name) :=
  Yields.updateGet
    (fun _ evolution =>
      ⟨⟨evolution.idle, evolution.tidy, evolution.size_le, evolution.live, fun recording =>
        have ⟨taken, unwinds⟩ := evolution.unwinds recording
        ⟨taken, unwinds.edits, unwinds.records, unwinds.live, unwinds.symbols⟩,
        evolution.quiet⟩, trivial⟩)
    fun _ _ _ => trivial

theorem admitsInstances : AdmitsInstances (Evolution before) .none where
  create := fun _ blank => keeps_create (Symbol.Tidy.of_blank blank)
  cache := fun id _ cache => keeps_edit id cache.reversible

/-- The identifier of the next mark is no part of what a rollback restores. -/
theorem markSpent {table : Table} (idle : table.Idle) (tidy : table.Tidy) :
    Evolution table table.markSpent :=
  ⟨idle, tidy, Nat.le_refl _, rfl, fun _ => ⟨[], rfl, rfl, rfl, AgreeBelow.refl _ _⟩,
    fun _ empty => empty⟩

/-- An outermost copy evolves the table, whether it succeeds or fails. -/
theorem outermostCopy {table : Table} (idle : table.Idle) (tidy : table.Tidy)
    {copy : Analysis SymbolId} (copies : CopiesFrom table copy) :
    EndsWith (Evolution table) (Evolution table) (fun _ => True)
      (Analysis.outermostCopy copy table) := by
  cases hcopy : copy table.copyBegun with
  | ok made middle =>
      obtain ⟨after, hafter, hidle, hsymbols, hlive, steps, hunwinds, hquiet⟩ :=
        outermostCopy_ok copies idle hcopy
      have htidy : after.Tidy := by
        intro symbol member
        rw [hsymbols] at member
        exact steps.tidy tidy symbol member
      have hsize : table.size ≤ after.size := by
        rw [Table.size, Table.size, hsymbols]
        exact steps.size_le
      rw [hafter]
      exact ⟨⟨hidle, htidy, hsize, hlive, hunwinds, fun none _ => hquiet none⟩, trivial⟩
  | error interrupt middle =>
      cases interrupt with
      | error error =>
          rw [outermostCopy_error copies idle hcopy]
          exact markSpent idle tidy
      | fault fault =>
          rw [outermostCopy_apply, hcopy]
          trivial

theorem follows_instantiateUncached (bound : Nat) :
    Follows (Evolution before) .none (instantiateUncached (instantiateWithin bound) bound)
      (instantiateUncached (instantiateWithin bound) bound) := by
  intro template args
  refine Yields.keeps_of_ends fun table evolution => ?_
  rw [instantiateUncached_idle evolution.idle]
  exact (outermostCopy evolution.idle evolution.tidy
    (copiesFrom_completeCopy bound template args table _ _)).weaken
    (fun _ _ next _ => ⟨evolution.trans next, trivial⟩) fun _ next => evolution.trans next

/-- Instantiation evolves the table. -/
theorem follows_instantiateWithin (bound : Nat) :
    Follows (Evolution before) .none (instantiateWithin bound) (instantiateWithin bound) := by
  induction bound with
  | zero =>
      intro template args
      exact Yields.violated _ _
  | succ bound ih =>
      exact tracks_instantiateStep admitsInstances ih (follows_instantiateUncached bound) bound

end Evolution

end NameBinding
