import Mathlib
import NameBinding.Table.Basic

/-!
# Invariants of engine steps

`Keeps inv step` says that a step keeps an invariant of the table, whether it succeeds or ends with
a recoverable error.  A step that ends with a fault promises nothing: the run is over.

Some questions are about what happened in the middle of a step, which the table at its end does not
tell.  They are asked by comparing the step with a watched version of it that ends differently as
soon as the event in question happens.  `Tracks inv evidence watched step` says that the step keeps
the invariant and that the two versions end alike, unless the step leaves some evidence in the
table; evidence that is there already stays.

The lemmas follow the ways in which steps are put together: sequencing, reading the table, failing,
catching an error, and going through a list.
-/

namespace NameBinding.Analysis

/-- The table at the end of a run, whichever way it ends. -/
def finalTable {α : Type} (table : Table) (step : Analysis α) : Table :=
  match step table with
  | .ok _ after => after
  | .error _ after => after

/-- The table satisfies `onOk` if the run succeeds, with a value that satisfies `result`, and
`onError` if it ends with a recoverable error. -/
def EndsWith {α : Type} (onOk onError : Table → Prop) (result : α → Prop) :
    EStateM.Result Interrupt Table α → Prop
  | .ok value after => onOk after ∧ result value
  | .error (.error _) after => onError after
  | .error (.fault _) _ => True

/-- What an event leaves in the table: `holds` as long as steps succeed, and `remains` after an
error. -/
structure Evidence where
  holds : Table → Prop
  remains : Table → Prop
  remains_of_holds : ∀ table, holds table → remains table

namespace Evidence

/-- Evidence that no error removes. -/
def lasting (holds : Table → Prop) : Evidence := ⟨holds, holds, fun _ held => held⟩

/-- Evidence that is always there: nothing is watched. -/
def none : Evidence := lasting fun _ => True

end Evidence

/-- From this table, the step ends with the invariant and gives a value that satisfies `result`.  It
keeps the evidence, and leaves it if the watched version ends in another way. -/
def YieldsAt {α : Type} (inv : Table → Prop) (evidence : Evidence) (watched step : Analysis α)
    (result : α → Prop) (table : Table) : Prop :=
  EndsWith inv inv result (step table) ∧
    (evidence.holds table ∨ watched table ≠ step table →
      EndsWith evidence.holds evidence.remains (fun _ => True) (step table))

/-- The step keeps the invariant and gives a value that satisfies `result`.  It keeps the evidence,
and leaves it where the watched version ends in another way. -/
def Yields {α : Type} (inv : Table → Prop) (evidence : Evidence) (watched step : Analysis α)
    (result : α → Prop) : Prop :=
  ∀ table, inv table → YieldsAt inv evidence watched step result table

/-- As `Yields`, whatever the value is. -/
abbrev Tracks {α : Type} (inv : Table → Prop) (evidence : Evidence) (watched step : Analysis α) :
    Prop :=
  Yields inv evidence watched step fun _ => True

/-- The step keeps the invariant. -/
abbrev Keeps {α : Type} (inv : Table → Prop) (step : Analysis α) : Prop :=
  Tracks inv .none step step

variable {α β : Type} {inv : Table → Prop} {evidence : Evidence}

/-- A promise about the end of a run may be weakened. -/
theorem EndsWith.weaken {onOk onError onOk' onError' : Table → Prop} {result result' : α → Prop}
    {outcome : EStateM.Result Interrupt Table α} (ends : EndsWith onOk onError result outcome)
    (ok : ∀ value table, onOk table → result value → onOk' table ∧ result' value)
    (error : ∀ table, onError table → onError' table) : EndsWith onOk' onError' result' outcome := by
  cases outcome with
  | ok value after => exact ok value after ends.1 ends.2
  | error interrupt after =>
      cases interrupt with
      | error _ => exact error after ends
      | fault _ => trivial

/-- The end of two steps in sequence if the first one succeeds. -/
theorem bind_ok {step : Analysis α} {next : α → Analysis β} {table after : Table} {value : α}
    (ends : step table = .ok value after) : (step >>= next) table = next value after := by
  simp only [Bind.bind, EStateM.bind, ends]

/-- Going on with the table that is read. -/
theorem get_bind (next : Table → Analysis α) (table : Table) :
    (get >>= next) table = next table table :=
  rfl

/-- The end of two steps in sequence if the first one does not succeed. -/
theorem bind_error {step : Analysis α} {next : α → Analysis β} {table after : Table}
    {interrupt : Interrupt} (ends : step table = .error interrupt after) :
    (step >>= next) table = .error interrupt after := by
  simp only [Bind.bind, EStateM.bind, ends]

namespace YieldsAt

theorem bind {table : Table} {watched step : Analysis α} {watchedNext next : α → Analysis β}
    {middle : α → Prop} {result : β → Prop} (first : YieldsAt inv evidence watched step middle table)
    (second : ∀ value, middle value →
      Yields inv evidence (watchedNext value) (next value) result) :
    YieldsAt inv evidence (watched >>= watchedNext) (step >>= next) result table := by
  obtain ⟨hends, hevidence⟩ := first
  cases hstep : step table with
  | ok value after =>
      rw [hstep] at hends hevidence
      obtain ⟨hnext, hstays⟩ := second value hends.2 after hends.1
      rw [YieldsAt, bind_ok hstep]
      refine ⟨hnext, fun hcause => hstays ?_⟩
      -- The two versions part in the first step, or else in the second one.
      by_cases hwatched : watched table = step table
      · rw [bind_ok (hwatched.trans hstep)] at hcause
        exact hcause.imp_left fun held => (hevidence (.inl held)).1
      · exact .inl (hevidence (.inr (hstep ▸ hwatched))).1
  | error interrupt after =>
      rw [hstep] at hends hevidence
      rw [YieldsAt, bind_error hstep]
      have hparts : evidence.holds table ∨
          (watched >>= watchedNext) table ≠ .error interrupt after →
          evidence.holds table ∨ watched table ≠ .error interrupt after :=
        Or.imp_right fun differs hwatched => differs (bind_error hwatched)
      cases interrupt with
      | error error => exact ⟨hends, fun hcause => hevidence (hparts hcause)⟩
      | fault fault => exact ⟨trivial, fun _ => trivial⟩

/-- Going on from the table that was read. -/
theorem read {table : Table} {watchedNext next : Table → Analysis β} {result : β → Prop}
    (second : YieldsAt inv evidence (watchedNext table) (next table) result table) :
    YieldsAt inv evidence (MonadState.get >>= watchedNext) (MonadState.get >>= next) result table :=
  second

/-- Putting another table in the place of this one. -/
theorem set {table next : Table} (keeps : inv next)
    (stays : evidence.holds table → evidence.holds next) :
    YieldsAt inv evidence (MonadStateOf.set next : Analysis PUnit) (MonadStateOf.set next)
      (fun _ => True) table := by
  refine ⟨⟨keeps, trivial⟩, fun cause => ⟨?_, trivial⟩⟩
  rcases cause with held | differs
  · exact stays held
  · exact absurd rfl differs

end YieldsAt

namespace Yields

theorem weaken {watched step : Analysis α} {strong weak : α → Prop}
    (yields : Yields inv evidence watched step strong)
    (implies : ∀ value, strong value → weak value) : Yields inv evidence watched step weak := by
  intro table hinv
  obtain ⟨hends, hevidence⟩ := yields table hinv
  exact ⟨hends.weaken (fun value _ hafter hvalue => ⟨hafter, implies value hvalue⟩) fun _ h => h,
    hevidence⟩

theorem tracks {watched step : Analysis α} {result : α → Prop}
    (yields : Yields inv evidence watched step result) : Tracks inv evidence watched step :=
  yields.weaken fun _ _ => trivial

/-- A step that keeps the invariant and the evidence, and is not watched. -/
theorem unwatched {step : Analysis α} {result : α → Prop}
    (ends : ∀ table, inv table → EndsWith inv inv result (step table))
    (stays : ∀ table, inv table → evidence.holds table →
      EndsWith evidence.holds evidence.remains (fun _ => True) (step table)) :
    Yields inv evidence step step result := by
  intro table hinv
  refine ⟨ends table hinv, fun hcause => ?_⟩
  rcases hcause with holds | differs
  · exact stays table hinv holds
  · exact absurd rfl differs

/-- Where nothing is watched, only the invariant counts. -/
theorem keeps_of_ends {step : Analysis α}
    (ends : ∀ table, inv table → EndsWith inv inv (fun _ => True) (step table)) :
    Keeps inv step := by
  refine unwatched ends fun table hinv _ => ?_
  exact (ends table hinv).weaken (fun _ _ _ _ => ⟨trivial, trivial⟩) fun _ _ => trivial

theorem pure {value : α} {result : α → Prop} (holds : result value) :
    Yields inv evidence (Pure.pure value) (Pure.pure value) result :=
  unwatched (fun _ hinv => ⟨hinv, holds⟩) fun _ _ held => ⟨held, trivial⟩

/-- The table that is read satisfies the invariant. -/
theorem get : Yields inv evidence MonadState.get MonadState.get inv :=
  unwatched (fun _ hinv => ⟨hinv, hinv⟩) fun _ _ held => ⟨held, trivial⟩

theorem fail (error : SemanticError) (result : α → Prop) :
    Yields inv evidence (Analysis.fail error) (Analysis.fail error) result :=
  unwatched (fun _ hinv => hinv) fun table _ held => evidence.remains_of_holds table held

theorem unsupported (operation : Unsupported) (result : α → Prop) :
    Yields inv evidence (Analysis.unsupported operation) (Analysis.unsupported operation) result :=
  unwatched (fun _ _ => trivial) fun _ _ _ => trivial

theorem violated (condition : Invariant) (result : α → Prop) :
    Yields inv evidence (Analysis.violated condition) (Analysis.violated condition) result :=
  unwatched (fun _ _ => trivial) fun _ _ _ => trivial

theorem ofExcept (outcome : Except SemanticError α) :
    Tracks inv evidence (Analysis.ofExcept outcome) (Analysis.ofExcept outcome) := by
  cases outcome with
  | ok value => exact pure trivial
  | error error => exact fail error _

theorem bind {watched step : Analysis α} {watchedNext next : α → Analysis β} {middle : α → Prop}
    {result : β → Prop} (first : Yields inv evidence watched step middle)
    (second : ∀ value, middle value →
      Yields inv evidence (watchedNext value) (next value) result) :
    Yields inv evidence (watched >>= watchedNext) (step >>= next) result :=
  fun table hinv => (first table hinv).bind second

/-- Sequencing after a step whose value is of no interest. -/
theorem seq {watched step : Analysis α} {watchedNext next : α → Analysis β} {result : β → Prop}
    (first : Tracks inv evidence watched step)
    (second : ∀ value, Yields inv evidence (watchedNext value) (next value) result) :
    Yields inv evidence (watched >>= watchedNext) (step >>= next) result :=
  first.bind fun value _ => second value

/-- Going on with the table that was read. -/
theorem read {watchedNext next : Table → Analysis β} {result : β → Prop}
    (second : ∀ table, inv table → Yields inv evidence (watchedNext table) (next table) result) :
    Yields inv evidence (MonadState.get >>= watchedNext) (MonadState.get >>= next) result :=
  get.bind second

/-- A change of the table that the invariant and the evidence survive. -/
theorem update {change : Table → Table} (keeps : ∀ table, inv table → inv (change table))
    (stays : ∀ table, inv table → evidence.holds table → evidence.holds (change table)) :
    Tracks inv evidence (modify change) (modify change) :=
  unwatched (fun table hinv => ⟨keeps table hinv, trivial⟩)
    fun table hinv held => ⟨stays table hinv held, trivial⟩

/-- Changing the table and giving a value that depends on it. -/
theorem updateGet {change : Table → α × Table} {result : α → Prop}
    (keeps : ∀ table, inv table → inv (change table).2 ∧ result (change table).1)
    (stays : ∀ table, inv table → evidence.holds table → evidence.holds (change table).2) :
    Yields inv evidence (modifyGet change) (modifyGet change) result :=
  unwatched keeps fun table hinv held => ⟨stays table hinv held, trivial⟩

/-- Catching an error keeps what the step kept, and needs evidence that no error removes. -/
theorem attempt {holds : Table → Prop} {watched step : Analysis α} {result : α → Prop}
    (yields : Yields inv (.lasting holds) watched step result) :
    Yields inv (.lasting holds) (Analysis.attempt watched) (Analysis.attempt step)
      fun outcome => ∀ value, outcome = .ok value → result value := by
  intro table hinv
  obtain ⟨hends, hevidence⟩ := yields table hinv
  have hparts : holds table ∨ Analysis.attempt watched table ≠ Analysis.attempt step table →
      holds table ∨ watched table ≠ step table :=
    Or.imp_right fun differs hwatched => differs (by simp only [Analysis.attempt, hwatched])
  have hcaught : EndsWith holds holds (fun _ => True) (step table) →
      EndsWith holds holds (fun _ => True) (Analysis.attempt step table) := by
    unfold Analysis.attempt
    cases step table with
    | ok value after => exact fun held => held
    | error interrupt after =>
        cases interrupt with
        | error error => exact fun held => ⟨held, trivial⟩
        | fault fault => exact fun _ => trivial
  refine ⟨?_, fun hcause => hcaught (hevidence (hparts hcause))⟩
  unfold Analysis.attempt
  cases hstep : step table with
  | ok value after =>
      rw [hstep] at hends
      refine ⟨hends.1, fun other hother => ?_⟩
      cases hother
      exact hends.2
  | error interrupt after =>
      rw [hstep] at hends
      cases interrupt with
      | error error => exact ⟨hends, fun other hother => by cases hother⟩
      | fault fault => trivial

/-! ## Lists -/

theorem forM {list : List α} {watched step : α → Analysis PUnit}
    (each : ∀ element ∈ list, Tracks inv evidence (watched element) (step element)) :
    Tracks inv evidence (list.forM watched) (list.forM step) := by
  induction list with
  | nil => exact pure trivial
  | cons first rest ih =>
      exact (each first List.mem_cons_self).seq fun _ =>
        ih fun element member => each element (List.mem_cons_of_mem first member)

theorem mapM {list : List α} {watched step : α → Analysis β}
    (each : ∀ element ∈ list, Tracks inv evidence (watched element) (step element)) :
    Tracks inv evidence (list.mapM watched) (list.mapM step) := by
  induction list with
  | nil => exact pure trivial
  | cons first rest ih =>
      rw [List.mapM_cons, List.mapM_cons]
      refine (each first List.mem_cons_self).seq fun value => ?_
      exact (ih fun element member => each element (List.mem_cons_of_mem first member)).seq
        fun values => pure trivial

theorem foldlM {list : List α} {watched step : β → α → Analysis β}
    (each : ∀ state, ∀ element ∈ list,
      Tracks inv evidence (watched state element) (step state element)) (start : β) :
    Tracks inv evidence (list.foldlM watched start) (list.foldlM step start) := by
  induction list generalizing start with
  | nil => exact pure trivial
  | cons first rest ih =>
      rw [List.foldlM_cons, List.foldlM_cons]
      exact (each start first List.mem_cons_self).seq fun next =>
        ih (fun state element member => each state element (List.mem_cons_of_mem first member)) next

end Yields

end NameBinding.Analysis
