import NameBinding.Proofs.Table.Changes
import NameBinding.Proofs.Template.Outermost

/-!
# Steps that move a table

`MovesAt regime step result table` says that a step, carried out in `table`, only makes changes that the
regime allows, and that its value satisfies `result` in the table it leads to.  A recoverable error ends
such a run as well, and where the regime is quiet it reports no ambiguity as long as there is no partial
specialization.  A step that ends with a fault promises nothing.

`Regime.Sound` is what holds before and after every such step, so that a promise about one step can be
used where the next one begins.  The lemmas follow the ways in which steps are put together.
-/

namespace NameBinding

/-- Everything mentioned exists, copies are only counted while there are any, and what the regime puts
out of reach is there. -/
structure Regime.Sound (regime : Regime) (table : Table) : Prop where
  represented : table.Represented
  work : table.WorkBelow
  running : table.Idle ∨ table.templates.depth ≠ 0
  base_le : regime.base ≤ table.size
  floor_le : regime.floor ≤ table.templates.contexts.size

/-- The regime allows what was done, and as many copies are being made as before. -/
structure Moved (regime : Regime) (table after : Table) : Prop where
  changes : Changes regime table after
  depth : after.templates.depth = table.templates.depth
  idle : table.Idle → after.Idle

namespace Moved

variable {regime : Regime} {table after : Table}

theorem refl (regime : Regime) (table : Table) : Moved regime table table :=
  ⟨.refl, rfl, fun idle => idle⟩

theorem trans {last : Table} (first : Moved regime table after) (second : Moved regime after last) :
    Moved regime table last where
  changes := first.changes.trans second.changes
  depth := second.depth.trans first.depth
  idle := fun idle => second.idle (first.idle idle)

/-- A change that leaves running copies alone. -/
theorem of_change (change : Change regime table after)
    (templates : after.templates = table.templates) : Moved regime table after where
  changes := .single change
  depth := by rw [templates]
  idle := fun idle => templates.trans idle

theorem size_le (moved : Moved regime table after) : table.size ≤ after.size := moved.changes.size_le

theorem sound (moved : Moved regime table after) (sound : regime.Sound table) :
    regime.Sound after where
  represented := moved.changes.represented sound.represented
  work := moved.changes.work sound.work
  running := by
    rcases sound.running with idle | copying
    · exact .inl (moved.idle idle)
    · exact .inr (moved.depth ▸ copying)
  base_le := Nat.le_trans sound.base_le moved.size_le
  floor_le := moved.changes.floor_le sound.floor_le

theorem mono {inner : Regime} (moved : Moved inner table after) (allows : regime.Allows inner) :
    Moved regime table after :=
  ⟨allows.changes moved.changes, moved.depth, moved.idle⟩

end Moved

namespace Analysis

/-- From this table, the step only does what the regime allows, and gives a value that satisfies
`result`. -/
def MovesAt {α : Type} (regime : Regime) (step : Analysis α) (result : Table → α → Prop)
    (table : Table) : Prop :=
  match step table with
  | .ok value after => Moved regime table after ∧ result after value
  | .error (.error error) after =>
      Moved regime table after ∧
        (regime.quiet → table.Unspecialized → ∀ name, error ≠ .ambiguous name)
  | .error (.fault _) _ => True

namespace MovesAt

variable {α β : Type} {regime : Regime} {table : Table} {step : Analysis α}
  {result : Table → α → Prop}

theorem of_ok {value : α} {after : Table} (ends : step table = .ok value after)
    (moved : Moved regime table after) (holds : result after value) :
    MovesAt regime step result table := by
  rw [MovesAt, ends]
  exact ⟨moved, holds⟩

theorem of_error {error : SemanticError} {after : Table}
    (ends : step table = .error (.error error) after) (moved : Moved regime table after)
    (quiet : regime.quiet → table.Unspecialized → ∀ name, error ≠ .ambiguous name) :
    MovesAt regime step result table := by
  rw [MovesAt, ends]
  exact ⟨moved, quiet⟩

theorem of_fault {fault : Fault} {after : Table} (ends : step table = .error (.fault fault) after) :
    MovesAt regime step result table := by
  rw [MovesAt, ends]
  trivial

/-- A promise about a step that succeeds. -/
theorem ok {value : α} {after : Table} (moves : MovesAt regime step result table)
    (ends : step table = .ok value after) : Moved regime table after ∧ result after value := by
  rwa [MovesAt, ends] at moves

/-- A promise about a step that fails. -/
theorem error {error : SemanticError} {after : Table} (moves : MovesAt regime step result table)
    (ends : step table = .error (.error error) after) :
    Moved regime table after ∧
      (regime.quiet → table.Unspecialized → ∀ name, error ≠ .ambiguous name) := by
  rwa [MovesAt, ends] at moves

theorem weaken {weak : Table → α → Prop} (moves : MovesAt regime step result table)
    (implies : ∀ after value, Moved regime table after → result after value → weak after value) :
    MovesAt regime step weak table := by
  unfold MovesAt at moves ⊢
  split
  · rename_i value after ends
    rw [ends] at moves
    exact ⟨moves.1, implies after value moves.1 moves.2⟩
  · rename_i error after ends
    rwa [ends] at moves
  · trivial

/-- What is known of a step that succeeds may be added to the promise. -/
theorem also {more : Table → α → Prop} (moves : MovesAt regime step result table)
    (holds : ∀ after value, step table = .ok value after → more after value) :
    MovesAt regime step (fun after value => result after value ∧ more after value) table := by
  unfold MovesAt at moves ⊢
  split
  · rename_i value after ends
    rw [ends] at moves
    exact ⟨moves.1, moves.2, holds after value ends⟩
  · rename_i error after ends
    rwa [ends] at moves
  · trivial

theorem mono {inner : Regime} (moves : MovesAt inner step result table)
    (allows : regime.Allows inner) : MovesAt regime step result table := by
  unfold MovesAt at moves ⊢
  split
  · rename_i value after ends
    rw [ends] at moves
    exact ⟨moves.1.mono allows, moves.2⟩
  · rename_i error after ends
    rw [ends] at moves
    exact ⟨moves.1.mono allows, fun quiet => moves.2 (allows.quiet quiet)⟩
  · trivial

theorem pure {value : α} (holds : result table value) :
    MovesAt regime (Pure.pure value) result table :=
  of_ok rfl (.refl regime table) holds

theorem fail {error : SemanticError} (quiet : regime.quiet → ∀ name, error ≠ .ambiguous name) :
    MovesAt regime (Analysis.fail error) result table :=
  of_error rfl (.refl regime table) fun holds _ => quiet holds

theorem unsupported (operation : Unsupported) :
    MovesAt regime (Analysis.unsupported operation) result table :=
  of_fault rfl

theorem violated (condition : Invariant) :
    MovesAt regime (Analysis.violated condition) result table :=
  of_fault rfl

theorem ofExcept {outcome : Except SemanticError α}
    (ok : ∀ value, outcome = .ok value → result table value)
    (quiet : ∀ error, outcome = .error error → regime.quiet → table.Unspecialized →
      ∀ name, error ≠ .ambiguous name) :
    MovesAt regime (Analysis.ofExcept outcome) result table := by
  cases outcome with
  | ok value => exact pure (ok value rfl)
  | error error => exact of_error rfl (.refl regime table) (quiet error rfl)

/-- A step that comes to another table, from where it goes on as another one. -/
theorem of_moved {last : Analysis α} {middle : Table} (goes : step table = last middle)
    (moved : Moved regime table middle) (rest : MovesAt regime last result middle) :
    MovesAt regime step result table := by
  unfold MovesAt at rest ⊢
  rw [goes]
  split
  · rename_i value after ends
    rw [ends] at rest
    exact ⟨moved.trans rest.1, rest.2⟩
  · rename_i error after ends
    rw [ends] at rest
    -- No partial specialization has been registered in between.
    refine ⟨moved.trans rest.1, fun quiet unspecialized => ?_⟩
    exact rest.2 quiet (moved.changes.unspecialized quiet unspecialized)
  · trivial

theorem bind {next : α → Analysis β} {last : Table → β → Prop} (sound : regime.Sound table)
    (first : MovesAt regime step result table)
    (second : ∀ value after, Moved regime table after → regime.Sound after → result after value →
      MovesAt regime (next value) last after) :
    MovesAt regime (step >>= next) last table := by
  cases hstep : step table with
  | ok value middle =>
      obtain ⟨hmoved, hvalue⟩ := first.ok hstep
      exact of_moved (bind_ok hstep) hmoved (second value middle hmoved (hmoved.sound sound) hvalue)
  | error interrupt middle =>
      cases interrupt with
      | error error =>
          obtain ⟨hmoved, hquiet⟩ := first.error hstep
          exact of_error (bind_error hstep) hmoved hquiet
      | fault fault => exact of_fault (bind_error hstep)

/-- Going on with the table that was read. -/
theorem read {next : Table → Analysis β} {last : Table → β → Prop}
    (second : MovesAt regime (next table) last table) :
    MovesAt regime (MonadState.get >>= next) last table :=
  second

/-- An error that is caught may be dealt with, or it is reported after all. -/
theorem caught {next : Except SemanticError α → Analysis β} {last : Table → β → Prop}
    (sound : regime.Sound table) (moves : MovesAt regime step result table)
    (ok : ∀ value after, Moved regime table after → regime.Sound after → result after value →
      MovesAt regime (next (.ok value)) last after)
    (error : ∀ error after, Moved regime table after → regime.Sound after →
      next (.error error) = Analysis.fail error ∨ MovesAt regime (next (.error error)) last after) :
    MovesAt regime (Analysis.attempt step >>= next) last table := by
  cases hstep : step table with
  | ok value after =>
      obtain ⟨hmoved, hvalue⟩ := moves.ok hstep
      have hends : Analysis.attempt step table = .ok (.ok value) after := by
        simp only [Analysis.attempt, hstep]
      have hvalued : MovesAt regime (Analysis.attempt step)
          (fun last outcome => last = after ∧ outcome = .ok value) table :=
        of_ok hends hmoved ⟨rfl, rfl⟩
      refine hvalued.bind sound fun outcome reached hreached hsound hsame => ?_
      obtain ⟨rfl, rfl⟩ := hsame
      exact ok value reached hreached hsound hvalue
  | error interrupt after =>
      cases interrupt with
      | error reason =>
          obtain ⟨hmoved, hquiet⟩ := moves.error hstep
          have hends : Analysis.attempt step table = .ok (.error reason) after := by
            simp only [Analysis.attempt, hstep]
          rcases error reason after hmoved (hmoved.sound sound) with hreports | hdeals
          · refine of_error ?_ hmoved hquiet
            rw [bind_ok hends, hreports]
            rfl
          · have hcaught : MovesAt regime (Analysis.attempt step)
                (fun last outcome => last = after ∧ outcome = .error reason) table :=
              of_ok hends hmoved ⟨rfl, rfl⟩
            refine hcaught.bind sound fun outcome reached _ _ hsame => ?_
            obtain ⟨rfl, rfl⟩ := hsame
            exact hdeals
      | fault fault =>
          have hends : Analysis.attempt step table = .error (.fault fault) after := by
            simp only [Analysis.attempt, hstep]
          exact of_fault (bind_error hends)

/-! ## Lists -/

theorem forM {list : List α} {each : α → Analysis PUnit} {inv : Table → Prop}
    (sound : regime.Sound table) (start : inv table)
    (moves : ∀ element ∈ list, ∀ after, Moved regime table after → regime.Sound after → inv after →
      MovesAt regime (each element) (fun last _ => inv last) after) :
    MovesAt regime (list.forM each) (fun after _ => inv after) table := by
  induction list generalizing table with
  | nil => exact pure start
  | cons first rest ih =>
      have hfirst := moves first List.mem_cons_self table (.refl regime table) sound start
      refine hfirst.bind sound fun _ middle hmoved hsound hinv => ih hsound hinv ?_
      intro element member after hlater
      exact moves element (List.mem_cons_of_mem first member) after (hmoved.trans hlater)

theorem mapM {list : List α} {each : α → Analysis β} {good : Nat → β → Prop}
    (mono : ∀ size bound value, size ≤ bound → good size value → good bound value)
    (sound : regime.Sound table)
    (moves : ∀ element ∈ list, ∀ after, regime.Sound after → table.size ≤ after.size →
      MovesAt regime (each element) (fun last value => good last.size value) after) :
    MovesAt regime (list.mapM each) (fun after values => ∀ value ∈ values, good after.size value)
      table := by
  induction list generalizing table with
  | nil => exact pure fun value member => absurd member List.not_mem_nil
  | cons first rest ih =>
      rw [List.mapM_cons]
      have hfirst := moves first List.mem_cons_self table sound (Nat.le_refl _)
      refine hfirst.bind sound fun value middle hmoved hsound hvalue => ?_
      have hrest := ih hsound fun element member after hafter le =>
        moves element (List.mem_cons_of_mem first member) after hafter
          (Nat.le_trans hmoved.size_le le)
      refine hrest.bind hsound fun values after hlater _ hvalues => pure fun other member => ?_
      rcases List.mem_cons.mp member with rfl | later
      · exact mono middle.size after.size _ hlater.size_le hvalue
      · exact hvalues other later

theorem foldlM {list : List α} {each : β → α → Analysis β} {inv : Table → β → Prop}
    (sound : regime.Sound table) {start : β} (holds : inv table start)
    (moves : ∀ state, ∀ element ∈ list, ∀ after, Moved regime table after → regime.Sound after →
      inv after state → MovesAt regime (each state element) inv after) :
    MovesAt regime (list.foldlM each start) inv table := by
  induction list generalizing table start with
  | nil => exact pure holds
  | cons first rest ih =>
      rw [List.foldlM_cons]
      have hfirst := moves start first List.mem_cons_self table (.refl regime table) sound holds
      refine hfirst.bind sound fun next middle hmoved hsound hnext => ih hsound hnext ?_
      intro state element member after hlater
      exact moves state element (List.mem_cons_of_mem first member) after (hmoved.trans hlater)

end MovesAt

/-! ## Elementary steps -/

section Steps

variable {regime : Regime} {table : Table}

/-- A new symbol that mentions only symbols of the table. -/
theorem moves_create (symbol : Symbol) (within : Within table.size symbol.mentions)
    (indexed : symbol.Indexed fun member => (table.symbol member).name)
    (detached : regime.quiet → symbol.Detached)
    (listed : symbol.Unlisted ∨ ∃ id, symbol.payload = (table.symbol id).payload) :
    MovesAt regime (create symbol)
      (fun after made => after = (table.allocate symbol).2 ∧ made = ⟨table.size⟩) table := by
  have hchange : Change regime table (table.allocate symbol).2 :=
    .create symbol rfl rfl within indexed detached listed
  exact .of_ok rfl (.of_change hchange rfl) ⟨rfl, rfl⟩

variable {id : SymbolId} {edit : Edit}

/-- A recorded edit that brings in only symbols of the table. -/
theorem moves_edit (allowed : regime.allows table id edit) (within : Within table.size edit.mentions)
    (named : ∀ name member, edit = .insertMember name member →
      (table.symbol member).name = name) (news : edit.IsNews (table.symbol id)) :
    MovesAt regime (Analysis.edit id edit) (fun after _ => after = table.perform id edit) table := by
  have hchange : Change regime table (table.perform id edit) :=
    .edit id edit allowed rfl rfl within named news
  exact .of_ok rfl (.of_change hchange rfl) rfl

/-- The same without a record. -/
theorem moves_write (allowed : regime.allows table id edit) (within : Within table.size edit.mentions)
    (named : ∀ name member, edit = .insertMember name member →
      (table.symbol member).name = name) (news : edit.IsNews (table.symbol id)) :
    MovesAt regime (Analysis.write id edit) (fun after _ => after = table.write id edit) table := by
  have hchange : Change regime table (table.write id edit) :=
    .edit id edit allowed rfl rfl within named news
  exact .of_ok rfl (.of_change hchange rfl) rfl

/-- A change of what is running that keeps the number of copies. -/
theorem moves_templates {templates : InstantiationState}
    (work : Table.WorkBelow { table with templates })
    (contexts : ∀ position < regime.floor,
      templates.contexts[position]? = table.templates.contexts[position]?)
    (waits : ∀ work ∈ table.templates.queue, work.target.index < regime.base → work ∈ templates.queue)
    (news : ∀ work ∈ templates.queue, work ∈ table.templates.queue ∨ regime.base ≤ work.target.index)
    (depth : templates.depth = table.templates.depth)
    (running : table.templates.depth ≠ 0) :
    Moved regime table { table with templates } where
  changes := .single (.elsewhere rfl work contexts waits news)
  depth := depth
  idle := by
    intro idle
    rw [idle] at running
    exact absurd rfl running

end Steps

end Analysis

/-! ## New symbols -/

namespace Symbol

/-- A symbol without members has none of any name. -/
theorem Indexed.of_blank {symbol : Symbol} (blank : symbol.payload.Blank)
    (nameOf : SymbolId → Name) : symbol.Indexed nameOf := by
  obtain ⟨_, scope, type, inTemplate, access, target, named, origin, link, payload⟩ := symbol
  intro name
  cases payload with
  | basic | placeholder => rfl
  | container | cls | function | template =>
      simp only [Payload.Blank] at blank
      rw [blank]
      rfl

theorem unlisted_of_blank {symbol : Symbol} (blank : symbol.payload.Blank) : symbol.Unlisted := by
  obtain ⟨_, scope, type, inTemplate, access, target, named, origin, link, payload⟩ := symbol
  cases payload with
  | template =>
      simp only [Payload.Blank] at blank
      rw [blank]
      exact ⟨rfl, rfl, rfl⟩
  | basic | placeholder | container | cls | function => exact ⟨rfl, rfl, rfl⟩

theorem specializations_of_blank {symbol : Symbol} (blank : symbol.payload.Blank) :
    symbol.specializations = [] := by
  obtain ⟨_, scope, type, inTemplate, access, target, named, origin, link, payload⟩ := symbol
  cases payload with
  | template =>
      simp only [Payload.Blank] at blank
      rw [blank]
      rfl
  | basic | placeholder | container | cls | function => rfl

end Symbol

end NameBinding
