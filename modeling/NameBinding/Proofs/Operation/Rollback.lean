import NameBinding.Proofs.Operation.Reachable

/-!
# Rollback is exact

A caller takes a mark, acts on the table, and rolls back to the mark.  `Since start id` is the
invariant of the table in between: the journal holds the record of the mark with the records taken
since on top of it, the marks among these are the live marks taken since, each of them remembers at
least as many symbols as there were at the start, and taking all edits back gives the symbols of the
start.

* `Since.act`: one recorded action keeps the invariant, as long as the mark stays live.
* `Since.run`: so does every run.
* `Since.rollback_exact`: rolling back to the mark gives the symbols, the records and the live marks
  of the start.
-/

namespace NameBinding

/-- What holds of a table since a mark was taken in `start`. -/
structure Since (start : Table) (id : UInt32) (table : Table) (taken : List Record) : Prop where
  settled : table.Settled
  records : table.journal.records = taken ++ .mark id start.size :: start.journal.records
  live : table.journal.live = markIds taken ++ id :: start.journal.live
  marks : ∀ other size, .mark other size ∈ taken → start.size ≤ size
  size_le : start.size ≤ table.size
  symbols : AgreeBelow start.size (undone taken table.symbols) start.symbols

/-- Records with a mark among them have a newest one. -/
theorem exists_newest_mark {taken : List Record} {innermost : UInt32} {outer : List UInt32}
    (marks : markIds taken = innermost :: outer) :
    ∃ edits size rest, taken = edits ++ .mark innermost size :: rest ∧ markIds edits = [] ∧
      markIds rest = outer := by
  induction taken with
  | nil => cases marks
  | cons record taken ih =>
      cases record with
      | mark id size =>
          obtain ⟨rfl, rfl⟩ := List.cons.inj marks
          exact ⟨[], size, taken, rfl, rfl, rfl⟩
      | edit id reversal =>
          obtain ⟨edits, size, rest, rfl, hedits, hrest⟩ := ih marks
          exact ⟨.edit id reversal :: edits, size, rest, rfl, hedits, hrest⟩

namespace Since

open Analysis

variable {start table next : Table} {id : UInt32} {taken : List Record}

/-- The invariant holds when the mark has just been taken. -/
theorem marked (settled : start.Settled) :
    Since start start.journal.nextId
      { start with journal := (start.journal.mark start.size).2 } [] where
  settled := settled.setJournal _
  records := rfl
  live := rfl
  marks := fun _ _ member => absurd member List.not_mem_nil
  size_le := Nat.le_refl _
  symbols := AgreeBelow.refl _ _

/-- What the engine does between transactions only adds records of edits. -/
theorem evolve (since : Since start id table taken) (evolution : Evolution table next) :
    ∃ taken, Since start id next taken := by
  have hrecording : table.journal.live ≠ [] := by simp [since.live]
  obtain ⟨later, unwinds⟩ := evolution.unwinds hrecording
  refine ⟨later ++ taken, ⟨evolution.idle, evolution.tidy⟩, ?_, ?_, ?_, ?_, ?_⟩
  · rw [unwinds.records, since.records, List.append_assoc]
  · rw [unwinds.live, since.live, markIds_append, unwinds.edits, List.nil_append]
  · intro other size member
    rcases List.mem_append.mp member with new | old
    · have hmark := mem_markIds new
      rw [unwinds.edits] at hmark
      cases hmark
    · exact since.marks other size old
  · exact Nat.le_trans since.size_le evolution.size_le
  · -- The new records lead back to `table`, and the older ones from there to `start`.
    rw [undone_append]
    exact ((unwinds.symbols.mono since.size_le).undone taken).trans since.symbols

/-- An inner mark remembers more symbols. -/
theorem mark (since : Since start id table taken)
    (ends : Action.mark.after table = some next) : ∃ taken, Since start id next taken := by
  rw [Action.after_mark] at ends
  cases ends
  refine ⟨.mark table.journal.nextId table.size :: taken, since.settled.setJournal _, ?_, ?_, ?_,
    since.size_le, since.symbols⟩
  · simp [Journal.mark, since.records]
  · simp [Journal.mark, markIds, since.live]
  · intro other size member
    rcases List.mem_cons.mp member with new | old
    · cases new
      exact since.size_le
    · exact since.marks other size old

/-- The innermost live mark is the one of `start`, or it was taken since. -/
theorem innermost_cases {outer : List UInt32} {innermost : UInt32}
    (since : Since start id table taken) (live : table.journal.live = innermost :: outer) :
    (innermost = id ∧ outer = start.journal.live ∧ markIds taken = []) ∨
      ∃ edits size rest, taken = edits ++ .mark innermost size :: rest ∧ markIds edits = [] ∧
        outer = markIds rest ++ id :: start.journal.live := by
  have hlive := since.live
  rw [live] at hlive
  cases hmarks : markIds taken with
  | nil =>
      rw [hmarks, List.nil_append] at hlive
      obtain ⟨hsame, houter⟩ := List.cons.inj hlive
      exact .inl ⟨hsame, houter, rfl⟩
  | cons newest others =>
      rw [hmarks, List.cons_append] at hlive
      obtain ⟨hsame, houter⟩ := List.cons.inj hlive
      obtain ⟨edits, size, rest, htaken, hedits, hrest⟩ := exists_newest_mark hmarks
      exact .inr ⟨edits, size, rest, hsame ▸ htaken, hedits, hrest ▸ houter⟩

/-- The mark of `start` is not live once only the marks of `start` are. -/
theorem not_suffix_outer : ¬ (id :: start.journal.live <:+ start.journal.live) := by
  intro suffix
  have hlength := suffix.length_le
  rw [List.length_cons] at hlength
  omega

/-- Committing an inner mark hands its records on. -/
theorem commit (since : Since start id table taken) {released : Mark}
    (ends : (Action.commit released).after table = some next)
    (stays : id :: start.journal.live <:+ next.journal.live) :
    ∃ taken, Since start id next taken := by
  rcases checkInnermost_cases table.journal released with ⟨error, hcheck⟩ | ⟨outer, hlive⟩
  · rw [Action.after_discard rfl (commit_refused hcheck)] at ends
    cases ends
    exact ⟨taken, since⟩
  · rcases since.innermost_cases hlive with
      ⟨hsame, rfl, hedits⟩ | ⟨edits, size, rest, rfl, hedits, rfl⟩
    · -- The mark of `start` itself would not stay live.
      rw [Action.after_discard rfl
        (commit_innermost hlive (hsame ▸ since.records) hedits)] at ends
      cases ends
      exact absurd stays not_suffix_outer
    · -- An inner mark drops out, and what was done under it is recorded under the mark of `start`.
      have hrecords := since.records
      rw [List.append_assoc, List.cons_append] at hrecords
      rw [Action.after_discard rfl (commit_innermost hlive hrecords hedits)] at ends
      cases ends
      refine ⟨edits ++ rest, since.settled.setJournal _, ?_, ?_, ?_, since.size_le, ?_⟩
      · simp
      · simp [markIds_append, hedits]
      · intro other bound member
        refine since.marks other bound ?_
        rcases List.mem_append.mp member with new | old
        · exact List.mem_append_left _ new
        · exact List.mem_append_right _ (List.mem_cons_of_mem _ old)
      · have hsymbols := since.symbols
        rw [undone_append] at hsymbols ⊢
        exact hsymbols

/-- Rolling an inner mark back keeps what is older. -/
theorem rollback (since : Since start id table taken) {released : Mark}
    (ends : (Action.rollback released).after table = some next)
    (stays : id :: start.journal.live <:+ next.journal.live) :
    ∃ taken, Since start id next taken := by
  have hsettled := since.settled.act ends
  rcases checkInnermost_cases table.journal released with ⟨error, hcheck⟩ | ⟨outer, hlive⟩
  · rw [Action.after_discard rfl (rollback_refused hcheck)] at ends
    cases ends
    exact ⟨taken, since⟩
  · rcases since.innermost_cases hlive with
      ⟨hsame, rfl, hedits⟩ | ⟨edits, size, rest, rfl, hedits, rfl⟩
    · -- The mark of `start` itself would not stay live.
      rw [Action.after_discard rfl
        (rollback_innermost hlive (hsame ▸ since.records) hedits)] at ends
      cases ends
      exact absurd stays not_suffix_outer
    · have hrecords := since.records
      rw [List.append_assoc, List.cons_append] at hrecords
      rw [Action.after_discard rfl (rollback_innermost hlive hrecords hedits)] at ends
      cases ends
      -- What the inner mark cuts off is younger than the mark of `start`.
      have hbound : start.size ≤ size := since.marks released.id size (by simp)
      refine ⟨rest, hsettled, rfl, rfl, ?_, ?_, ?_⟩
      · intro other bound member
        exact since.marks other bound (List.mem_append_right _ (List.mem_cons_of_mem _ member))
      · have hsize := since.size_le
        simp only [Table.size] at hsize hbound ⊢
        simp only [Array.take_eq_extract, Array.size_extract, size_undone]
        omega
      · have hsymbols := since.symbols
        rw [undone_append] at hsymbols
        exact ((AgreeBelow.take_behind _ hbound).undone rest).trans hsymbols

/-- A recorded action keeps the invariant as long as the mark stays live. -/
theorem act (since : Since start id table taken) {action : Action} (recorded : action.IsRecorded)
    (ends : action.after table = some next)
    (stays : id :: start.journal.live <:+ next.journal.live) :
    ∃ taken, Since start id next taken := by
  cases action with
  | perform operation =>
      have hsettled := since.settled
      exact since.evolve (Action.keeps_after ends (keeps_carryOut operation)
        (Evolution.refl hsettled.idle hsettled.tidy))
  | mark => exact since.mark ends
  | commit released => exact since.commit ends stays
  | rollback released => exact since.rollback ends stays
  | setAstLink | addFlags => exact recorded.elim

end Since

/-- Recorded actions lead from one table to another one, and all the marks in `outer` stay live on
the way.  Identifiers of marks wrap around, so that a mark is the one that was taken only as long as
it has never been released. -/
inductive Runs (outer : List UInt32) : Table → Table → Prop where
  | refl (table : Table) : Runs outer table table
  | act {first table next : Table} (runs : Runs outer first table) (action : Action)
      (recorded : action.IsRecorded) (ends : action.after table = some next)
      (stays : outer <:+ next.journal.live) : Runs outer first next

/-- The invariant holds along every run that leaves the mark live. -/
theorem Since.run {start first last : Table} {id : UInt32} {taken : List Record}
    (since : Since start id first taken) (runs : Runs (id :: start.journal.live) first last) :
    ∃ taken, Since start id last taken := by
  induction runs with
  | refl => exact ⟨taken, since⟩
  | act _ action recorded ends stays ih =>
      obtain ⟨before, hbefore⟩ := ih
      exact hbefore.act recorded ends stays

/-- Rolling back to a mark gives everything back: the symbols, the records and the live marks. -/
theorem Since.rollback_exact {start last : Table} {id : UInt32} {taken : List Record}
    (since : Since start id last taken)
    (innermost : last.journal.live = id :: start.journal.live) :
    Analysis.rollback ⟨id⟩ last =
      .ok (.ok ())
        { last with
          symbols := start.symbols
          journal :=
            { last.journal with
              records := start.journal.records
              live := start.journal.live } } := by
  have hedits : markIds taken = [] := by
    have hlive := since.live
    rw [innermost] at hlive
    simpa using congrArg List.length hlive
  rw [Analysis.rollback_innermost innermost since.records hedits]
  have hsymbols := AgreeBelow.take_eq since.symbols
  rw [Table.size, hsymbols]

/-- Rollback is exact.  Whatever recorded actions a caller takes after a mark, succeeding or ending
with a recoverable error, if the mark is still live and the innermost one, rolling back to it
succeeds and gives back every symbol, the records and the live marks of the table in which it was
taken. -/
theorem rollback_restores_table {start marked last : Table} {mark : Mark}
    (reachable : Reachable start) (taken : Analysis.mark start = .ok mark marked)
    (runs : Runs marked.journal.live marked last)
    (innermost : last.journal.live = marked.journal.live) :
    ∃ restored, Analysis.rollback mark last = .ok (.ok ()) restored ∧
      restored.symbols = start.symbols ∧
      restored.journal.records = start.journal.records ∧
      restored.journal.live = start.journal.live := by
  cases taken
  obtain ⟨records, since⟩ := (Since.marked reachable.settled).run runs
  exact ⟨_, since.rollback_exact innermost, rfl, rfl, rfl⟩

/-- A new table with a mark. -/
def markedTable : Table := Analysis.finalTable (Table.new {}) Analysis.mark

/-- The table after some actions. -/
def Table.acted (table : Table) (actions : List Action) : Table :=
  actions.foldl (fun current action => Analysis.finalTable current action.run) table

/-- A class is added to the global namespace, and under a second mark, which is committed, it gets a
member. -/
def declareClass : List Action :=
  [.perform (.createClass ⟨17⟩ .struct), .perform (.addSymbol ⟨0⟩ ⟨1⟩), .mark,
    .perform (.createBasic ⟨18⟩ (.ofKind .int)), .perform (.addSymbol ⟨1⟩ ⟨2⟩), .commit ⟨1⟩]

/-- Rolling back takes the class out of the global namespace again. -/
theorem rollback_declared_class :
    Reachable (Table.new {}) ∧ Analysis.mark (Table.new {}) = .ok ⟨0⟩ markedTable ∧
      Runs markedTable.journal.live markedTable (markedTable.acted declareClass) ∧
      (markedTable.acted declareClass).journal.live = markedTable.journal.live ∧
      ∃ restored,
        Analysis.rollback ⟨0⟩ (markedTable.acted declareClass) = .ok (.ok ()) restored ∧
        restored.symbols = (Table.new {}).symbols ∧ restored.journal.records = [] ∧
        restored.journal.live = [] := by
  have hmark : Analysis.mark (Table.new {}) = .ok ⟨0⟩ markedTable := rfl
  have hclass : Runs markedTable.journal.live markedTable
      (markedTable.acted (declareClass.take 1)) :=
    .act (.refl markedTable) (.perform (.createClass ⟨17⟩ .struct)) trivial rfl (by decide)
  have hadded : Runs markedTable.journal.live markedTable
      (markedTable.acted (declareClass.take 2)) :=
    .act hclass (.perform (.addSymbol ⟨0⟩ ⟨1⟩)) trivial rfl (by decide)
  have hinner : Runs markedTable.journal.live markedTable
      (markedTable.acted (declareClass.take 3)) :=
    .act hadded .mark trivial rfl (by decide)
  have hmember : Runs markedTable.journal.live markedTable
      (markedTable.acted (declareClass.take 4)) :=
    .act hinner (.perform (.createBasic ⟨18⟩ (.ofKind .int))) trivial rfl (by decide)
  have hfilled : Runs markedTable.journal.live markedTable
      (markedTable.acted (declareClass.take 5)) :=
    .act hmember (.perform (.addSymbol ⟨1⟩ ⟨2⟩)) trivial rfl (by decide)
  have hcommitted : Runs markedTable.journal.live markedTable
      (markedTable.acted declareClass) :=
    .act hfilled (.commit ⟨1⟩) trivial rfl (by decide)
  have hreachable : Reachable (Table.new {}) := .new {}
  exact ⟨hreachable, hmark, hcommitted, rfl,
    rollback_restores_table hreachable hmark hcommitted rfl⟩

end NameBinding
