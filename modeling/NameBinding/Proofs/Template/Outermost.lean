import NameBinding.Proofs.Template.Copying

/-!
# The outermost copy of an instantiation

The outermost copy of an instantiation runs inside a mark of its own.  Whatever it did is made of
copying steps, so that the mark can always be released:

* `outermostCopy_error`: after a failure the mark is rolled back, and the table is what it was, but
  for the identifier of the next mark;
* `outermostCopy_ok`: after a success the mark is committed, and what was done can still be taken
  back as long as another mark is live; if there is none, all records are dropped;
* `outermostCopy_ends`: in both cases, what the copy keeps of the symbols is kept.
-/

namespace NameBinding

namespace Table

/-- No instantiation is running. -/
def Idle (table : Table) : Prop := table.templates = {}

theorem Idle.of_empty {table : Table} (depth : table.templates.depth = 0)
    (queue : table.templates.queue.isEmpty = true)
    (contexts : table.templates.contexts.isEmpty = true) : table.Idle := by
  unfold Idle
  rw [List.isEmpty_iff] at queue
  rw [Array.isEmpty_iff] at contexts
  cases htemplates : table.templates with
  | mk => simp_all

/-- The table when an outermost copy begins: its mark is taken. -/
def copyBegun (table : Table) : Table :=
  { table.deeper with journal := (table.journal.mark table.size).2 }

/-- The table when an outermost copy has ended: no work is left, and its mark is not released yet. -/
def copyEnded (table : Table) : Table :=
  { table with templates := { depth := table.templates.depth - 1 } }

/-- The table with the next mark identifier used up. -/
def markSpent (table : Table) : Table :=
  { table with journal := { table.journal with nextId := table.journal.nextId + 1 } }

/-- Nothing is being copied yet when an outermost copy begins. -/
theorem Idle.copying {table : Table} (idle : table.Idle) :
    Copying table.size 1 table.copyBegun := by
  unfold Idle at idle
  refine ⟨Nat.le_refl _, ?_, ?_, ?_⟩
  · simp [copyBegun, deeper, idle]
  · simp [copyBegun, deeper, idle]
  · simp [copyBegun, deeper, idle]

end Table

namespace Analysis

/-- The copy is made of copying steps that start from `table`. -/
def CopiesFrom (table : Table) (copy : Analysis SymbolId) : Prop :=
  Copying.Step table.size 1 (CopySteps table.size table.copyBegun) copy

variable {table : Table} {copy : Analysis SymbolId}

/-- What an outermost copy has done when it ends is made of copying steps, and no copy is being made
any more. -/
theorem CopiesFrom.ends (copies : CopiesFrom table copy) (idle : table.Idle) :
    EndsWith
      (fun after => CopySteps table.size table.copyBegun after ∧ after.copyEnded.Idle)
      (fun after => CopySteps table.size table.copyBegun after ∧ after.copyEnded.Idle)
      (fun _ => True) (copy table.copyBegun) := by
  obtain ⟨hcopying, hsteps⟩ := copies table.copyBegun idle.copying
  have hends := hsteps (.inl .refl)
  have hidle : ∀ after, Copying table.size 1 after → after.copyEnded.Idle := by
    intro after copying
    simp [Table.Idle, Table.copyEnded, copying.nesting]
  cases hcopy : copy table.copyBegun with
  | ok made after =>
      rw [hcopy] at hcopying hends
      exact ⟨⟨hends.1, hidle after hcopying.1⟩, trivial⟩
  | error interrupt after =>
      rw [hcopy] at hcopying hends
      cases interrupt with
      | error error => exact ⟨hends, hidle after hcopying⟩
      | fault fault => trivial

/-- What an outermost copy did can be taken back. -/
theorem unwinds_copy {after : Table} (steps : CopySteps table.size table.copyBegun after) :
    ∃ taken, Unwinds table.size table.copyBegun after taken :=
  steps.unwinds (Nat.le_refl _) (by simp [Table.copyBegun, Journal.mark])

/-- Releasing a mark that can be released. -/
theorem release_ok {step : Analysis (Except TransactionError Unit)} {before after : Table}
    (released : step before = .ok (.ok ()) after) : release step before = .ok () after :=
  bind_ok released

/-- An outermost copy in terms of the copy alone. -/
theorem outermostCopy_apply (copy : Analysis SymbolId) (table : Table) :
    outermostCopy copy table =
      match copy table.copyBegun with
      | .ok made after =>
          (release (commit ⟨table.journal.nextId⟩) >>= fun _ => pure made) after.copyEnded
      | .error (.error error) after =>
          (release (rollback ⟨table.journal.nextId⟩) >>= fun _ => fail error) after.copyEnded
      | .error (.fault fault) after => .error (.fault fault) after := by
  show (attempt copy >>= _) table.copyBegun = _
  simp only [attempt, bind, EStateM.bind]
  cases copy table.copyBegun with
  | ok made after => rfl
  | error interrupt after =>
      cases interrupt with
      | error error => rfl
      | fault fault => rfl

/-- An outermost copy that fails leaves the table as it was, but for the next mark. -/
theorem outermostCopy_error (copies : CopiesFrom table copy) (idle : table.Idle)
    {error : SemanticError} {middle : Table}
    (failed : copy table.copyBegun = .error (.error error) middle) :
    outermostCopy copy table = .error (.error error) table.markSpent := by
  have hends := copies.ends idle
  rw [failed] at hends
  obtain ⟨steps, hidle⟩ := hends
  obtain ⟨taken, unwinds⟩ := unwinds_copy steps
  have hsymbols : (undone taken middle.symbols).take table.size = table.symbols :=
    AgreeBelow.take_eq unwinds.symbols
  have hrollback : rollback ⟨table.journal.nextId⟩ middle.copyEnded =
      .ok (.ok ()) table.markSpent := by
    have hinnermost : rollback ⟨table.journal.nextId⟩ middle.copyEnded = _ :=
      rollback_innermost unwinds.live unwinds.records unwinds.edits
    rw [hinnermost]
    -- What the copy did not touch, what the rollback restores, and what was cleared before it.
    show EStateM.Result.ok (Except.ok ()) (Table.mk middle.config middle.interner
      ((undone taken middle.symbols).take table.size)
      ⟨table.journal.records, table.journal.live, middle.journal.nextId⟩
      middle.copyEnded.templates) = _
    rw [steps.config_eq, steps.interner_eq, steps.nextId_eq, hsymbols, hidle, ← idle]
    rfl
  rw [outermostCopy_apply, failed]
  exact bind_ok (release_ok hrollback)

/-- An outermost copy that succeeds keeps what it did, and gives up its mark. -/
theorem outermostCopy_ok (copies : CopiesFrom table copy) (idle : table.Idle) {made : SymbolId}
    {middle : Table} (succeeded : copy table.copyBegun = .ok made middle) :
    ∃ after, outermostCopy copy table = .ok made after ∧ after.Idle ∧
      after.symbols = middle.symbols ∧ after.journal.live = table.journal.live ∧
      CopySteps table.size table.copyBegun middle ∧
      (table.journal.live ≠ [] → ∃ taken, Unwinds table.size table after taken) ∧
      (table.journal.live = [] → after.journal.records = []) := by
  have hends := copies.ends idle
  rw [succeeded] at hends
  obtain ⟨⟨steps, hidle⟩, -⟩ := hends
  obtain ⟨taken, unwinds⟩ := unwinds_copy steps
  have hcommit : commit ⟨table.journal.nextId⟩ middle.copyEnded = _ :=
    commit_innermost unwinds.live unwinds.records unwinds.edits
  rw [outermostCopy_apply, succeeded]
  refine ⟨_, bind_ok (release_ok hcommit), hidle, rfl, rfl, steps, fun recording => ?_,
    fun none => if_pos none⟩
  -- Under another mark the records are handed on to it.
  exact ⟨taken, unwinds.edits, if_neg recording, rfl, unwinds.symbols⟩

/-- A property that depends on symbols and limits alone holds after an outermost copy if the copy keeps it,
whether the copy succeeds or fails. -/
theorem outermostCopy_ends (copies : CopiesFrom table copy) (idle : table.Idle) {holds : Table → Prop}
    (depends : ∀ before after : Table, after.symbols = before.symbols → after.config = before.config →
      holds before → holds after)
    (held : holds table)
    (ends : EndsWith holds holds (fun _ => True) (copy table.copyBegun)) :
    EndsWith (fun after => after.Idle ∧ holds after) (fun after => after.Idle ∧ holds after) (fun _ => True)
      (outermostCopy copy table) := by
  have hends := copies.ends idle
  cases hcopy : copy table.copyBegun with
  | ok made middle =>
      rw [hcopy] at hends ends
      obtain ⟨⟨steps, hidle⟩, -⟩ := hends
      obtain ⟨taken, unwinds⟩ := unwinds_copy steps
      have hcommit : commit ⟨table.journal.nextId⟩ middle.copyEnded = _ :=
        commit_innermost unwinds.live unwinds.records unwinds.edits
      rw [outermostCopy_apply, hcopy]
      dsimp only
      rw [bind_ok (release_ok hcommit)]
      exact ⟨⟨hidle, depends middle _ rfl rfl ends.1⟩, trivial⟩
  | error interrupt middle =>
      cases interrupt with
      | error error =>
          rw [outermostCopy_error copies idle hcopy]
          exact ⟨idle, depends table _ rfl rfl held⟩
      | fault fault =>
          rw [outermostCopy_apply, hcopy]
          trivial

/-- Copying a template and finishing the work that the copy queued. -/
def completeCopy (inst : Instantiator) (bound : Nat) (template : SymbolId) (args : List Descriptor)
    (name : Name) (passes : Nat) : Analysis SymbolId := do
  let made ← copyTemplate (substituter inst bound false) bound template args
  drainQueue (substituter inst bound true) name passes
  pure made

/-- Outside of any copy, copying a template is an outermost copy that finishes queued work. -/
theorem instantiateUncached_idle (idle : table.Idle) (inst : Instantiator) (bound : Nat)
    (template : SymbolId) (args : List Descriptor) :
    instantiateUncached inst bound template args table =
      outermostCopy (completeCopy inst bound template args (table.symbol template).name
        table.config.passLimit) table := by
  have hdepth : table.templates.depth = 0 := by rw [idle]
  show (if table.templates.depth = 0 then _ else _ : Analysis SymbolId) table = _
  rw [if_pos hdepth]
  rfl

theorem follow_completeCopy {size depth : Nat} {holds : Table → Prop} (survives : Survives size holds)
    {watched inst : Instantiator}
    (follows : Follows (Copying size depth) (.lasting holds) watched inst) (bound : Nat)
    (template : SymbolId) (args : List Descriptor) (name : Name) (passes : Nat) :
    Copying.Follow size depth holds (completeCopy watched bound template args name passes)
      (completeCopy inst bound template args name passes) := by
  have hsubstitutes := Copying.follow_substituter follows bound
  refine (Copying.follow_copyTemplate survives (hsubstitutes false) bound template args).seq
    fun made => ?_
  refine (Copying.follow_drainQueue survives (hsubstitutes true) name passes).seq fun _ => ?_
  exact Yields.pure trivial

/-- A complete copy is made of copying steps. -/
theorem copiesFrom_completeCopy (bound : Nat) (template : SymbolId) (args : List Descriptor)
    (table : Table) (name : Name) (passes : Nat) :
    CopiesFrom table (completeCopy (instantiateWithin bound) bound template args name passes) := by
  have hlasts := CopySteps.lasts table.size table.copyBegun
  have hinstantiates := Copying.follows_instantiateWithin hlasts bound 0
  exact follow_completeCopy hlasts.survives hinstantiates bound template args name passes

/-- A failed instantiation leaves no trace: declarations, records, live marks and running
instantiations are what they were, and only the identifier of the next mark has advanced. -/
theorem instantiateUncached_error_leaves_no_trace (table : Table) (idle : table.Idle) (bound : Nat)
    (template : SymbolId) (args : List Descriptor) (error : SemanticError) (after : Table)
    (failed : instantiateUncached (instantiateWithin bound) bound template args table =
      .error (.error error) after) :
    after = { table with
      journal := { table.journal with nextId := table.journal.nextId + 1 } } := by
  rw [instantiateUncached_idle idle] at failed
  have hcopies := copiesFrom_completeCopy bound template args table (table.symbol template).name
    table.config.passLimit
  cases hcopy : completeCopy (instantiateWithin bound) bound template args
      (table.symbol template).name table.config.passLimit table.copyBegun with
  | ok made middle =>
      obtain ⟨last, hlast, -⟩ := outermostCopy_ok hcopies idle hcopy
      rw [hlast] at failed
      cases failed
  | error interrupt middle =>
      cases interrupt with
      | error cause =>
          rw [outermostCopy_error hcopies idle hcopy] at failed
          cases failed
          rfl
      | fault fault =>
          rw [outermostCopy_apply, hcopy] at failed
          cases failed

/-- A table that declares `template<class T> struct D : T`, with `D` and `T` for the names 17 and
18. -/
def derivedTable : Table :=
  finalTable (Table.new {}) do
    let template ← createTemplate ⟨17⟩
    let parameter ← createTemplateParameter ⟨18⟩ .typeName
    addTemplateParameter template parameter
    let templated ← createClass ⟨17⟩ .struct
    addParent templated parameter .pub false
    addSymbol template templated

/-- `D<int>` fails after the instance was made and remembered, since `int` is no class. -/
theorem derived_int_leaves_no_trace :
    ∃ after, derivedTable.Idle ∧
      instantiateUncached (instantiateWithin 2) 2 ⟨1⟩ [.ofKind .int] derivedTable =
        .error (.error (.badTypeInfo ⟨17⟩)) after ∧
      after = { derivedTable with
        journal := { derivedTable.journal with nextId := derivedTable.journal.nextId + 1 } } := by
  obtain ⟨after, hfailed⟩ : ∃ after,
      instantiateUncached (instantiateWithin 2) 2 ⟨1⟩ [.ofKind .int] derivedTable =
        .error (.error (.badTypeInfo ⟨17⟩)) after := ⟨_, rfl⟩
  refine ⟨after, rfl, hfailed, ?_⟩
  exact instantiateUncached_error_leaves_no_trace derivedTable rfl 2 ⟨1⟩ [.ofKind .int]
    (.badTypeInfo ⟨17⟩) after hfailed

end Analysis

end NameBinding
