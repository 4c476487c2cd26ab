import NameBinding.Proofs.Inheritance.Acyclic

/-!
# The check for circular inheritance

The check goes up the bases depth first.  It carries the path by which it came, and the classes that it has
proved free of circles; these may come from earlier checks of the same lookup.

* `Table.CircularAbove`: some class at or above `origin` derives from itself.
* `Table.Proved`: what the check remembers is true.
* `checkAcyclicFrom_sound` and `checkAcyclicFrom_reports`: what it means that the check succeeds, or fails.

The main statement is `Proved.checkAcyclic_error_iff`: the check fails exactly if there is a circle, and what
it names lies on one.
-/

namespace NameBinding.Table

open Relation

variable {table : Table} {origin id : SymbolId} {path known proved : List SymbolId}

/-! ## Circles -/

/-- Some class at or above `origin` derives from itself. -/
def CircularAbove (table : Table) (origin : SymbolId) : Prop :=
  ∃ id, ReflTransGen table.Derives origin id ∧ TransGen table.Derives id id

theorem not_acyclicBases_iff : ¬ table.AcyclicBases origin ↔ table.CircularAbove origin := by
  simp only [AcyclicBases, CircularAbove, not_forall, not_not, exists_prop]

theorem not_circularAbove_iff : ¬ table.CircularAbove origin ↔ table.AcyclicBases origin := by
  rw [← not_acyclicBases_iff, not_not]

/-- A circle above a base is one above the class. -/
theorem CircularAbove.of_derives {base : SymbolId} (circular : table.CircularAbove base)
    (derives : table.Derives origin base) : table.CircularAbove origin := by
  obtain ⟨id, above, circle⟩ := circular
  exact ⟨id, .head derives above, circle⟩

/-- A class all bases of which are free of circles is free of them, too: a circle through the class itself
would be one above the base that it begins with. -/
theorem AcyclicBases.of_bases (acyclic : ∀ base, table.Derives id base → table.AcyclicBases base) :
    table.AcyclicBases id := by
  intro other above circle
  rcases ReflTransGen.cases_head above with rfl | ⟨base, derives, further⟩
  · obtain ⟨base, derives, back⟩ := TransGen.head'_iff.mp circle
    exact acyclic base derives id back circle
  · exact acyclic base derives other further circle

/-! ## What the check remembers -/

/-- The classes are free of circles. -/
def Proved (table : Table) (known : List SymbolId) : Prop := ∀ id ∈ known, table.AcyclicBases id

theorem Proved.nil (table : Table) : table.Proved [] := fun _ member => absurd member List.not_mem_nil

/-- If the check of the bases one after the other keeps to what is true, then so does the whole of it. -/
theorem foldlM_checkAcyclicFrom_sound {depth : Nat} {bases : List SymbolId}
    (each : ∀ base ∈ bases, ∀ known proved, table.Proved known →
      table.checkAcyclicFrom depth path known base = .ok proved →
        table.Proved proved ∧ table.AcyclicBases base)
    (isProved : table.Proved known)
    (checked : bases.foldlM (table.checkAcyclicFrom depth path) known = .ok proved) :
    table.Proved proved ∧ ∀ base ∈ bases, table.AcyclicBases base := by
  induction bases generalizing known with
  | nil =>
      cases checked
      exact ⟨isProved, fun base member => absurd member List.not_mem_nil⟩
  | cons base rest ih =>
      rw [List.foldlM_cons] at checked
      cases hbase : table.checkAcyclicFrom depth path known base with
      | error error =>
          rw [hbase] at checked
          cases checked
      | ok between =>
          rw [hbase] at checked
          obtain ⟨hbetween, hfirst⟩ := each base List.mem_cons_self known between isProved hbase
          obtain ⟨hproved, hrest⟩ := ih (fun other member => each other (List.mem_cons_of_mem base member))
            hbetween checked
          exact ⟨hproved, List.forall_mem_cons.mpr ⟨hfirst, hrest⟩⟩

/-- The check succeeds only on a class that is free of circles, and remembers only such classes. -/
theorem checkAcyclicFrom_sound {depth : Nat} (isProved : table.Proved known)
    (checked : table.checkAcyclicFrom depth path known id = .ok proved) :
    table.Proved proved ∧ table.AcyclicBases id := by
  induction depth generalizing path known proved id with
  | zero => cases checked
  | succ depth ih =>
      rw [checkAcyclicFrom] at checked
      split at checked
      · rename_i hknown
        cases checked
        exact ⟨isProved, isProved id hknown⟩
      · split at checked
        · cases checked
        · cases hbases : (table.bases id).foldlM (table.checkAcyclicFrom depth (id :: path)) known with
          | error error =>
              rw [hbases] at checked
              cases checked
          | ok all =>
              rw [hbases] at checked
              cases checked
              obtain ⟨hall, hacyclic⟩ := foldlM_checkAcyclicFrom_sound
                (fun base _ known proved isProved checked => ih isProved checked) isProved hbases
              have hid : table.AcyclicBases id := .of_bases hacyclic
              exact ⟨List.forall_mem_cons.mpr ⟨hid, hall⟩, hid⟩

/-- The checks of a lookup, one after the other, remember only classes that are free of circles. -/
theorem Proved.checks {earlier : List SymbolId} (isProved : table.Proved known)
    (checked : earlier.foldlM table.checkAcyclic known = .ok proved) : table.Proved proved :=
  (foldlM_checkAcyclicFrom_sound (fun _ _ _ _ isProved checked => checkAcyclicFrom_sound isProved checked)
    isProved checked).1

/-! ## What the check reports -/

/-- With enough depth left for the path to grow as long as it can, the class that the check reports lies on
a circle. -/
theorem checkAcyclicFrom_reports {depth : Nat} {error : SemanticError} (came : CameBy table.Derives path id)
    (enough : depth + path.length = table.size + 1)
    (failed : table.checkAcyclicFrom depth path known id = .error error) :
    ∃ on, ReflTransGen table.Derives id on ∧ TransGen table.Derives on on ∧ error = table.circular on := by
  induction depth generalizing path known id with
  | zero =>
      have hlength := came.length_le Derives.lt_size
      omega
  | succ depth ih =>
      rw [checkAcyclicFrom] at failed
      split at failed
      · cases failed
      · split at failed
        · rename_i onPath
          cases failed
          exact ⟨id, .refl, came.leadsOn id onPath, rfl⟩
        · rename_i off
          have henough : depth + (id :: path).length = table.size + 1 := by
            rw [List.length_cons]
            omega
          -- The first base on which the check fails has the circle above it.
          have hbases : ∀ (bases known : List SymbolId), (∀ base ∈ bases, table.Derives id base) →
              bases.foldlM (table.checkAcyclicFrom depth (id :: path)) known = .error error →
                ∃ on, ReflTransGen table.Derives id on ∧ TransGen table.Derives on on ∧
                  error = table.circular on := by
            intro bases
            induction bases with
            | nil =>
                intro known _ failed
                cases failed
            | cons base rest ihRest =>
                intro known derives stopped
                rw [List.foldlM_cons] at stopped
                cases hbase : table.checkAcyclicFrom depth (id :: path) known base with
                | ok between =>
                    rw [hbase] at stopped
                    exact ihRest between (fun other member => derives other (List.mem_cons_of_mem base member))
                      stopped
                | error first =>
                    rw [hbase] at stopped
                    cases stopped
                    have hderives := derives base List.mem_cons_self
                    obtain ⟨on, above, circle, hname⟩ := ih (came.step_off off hderives) henough hbase
                    exact ⟨on, .head hderives above, circle, hname⟩
          cases hfold : (table.bases id).foldlM (table.checkAcyclicFrom depth (id :: path)) known with
          | ok all =>
              rw [hfold] at failed
              cases failed
          | error first =>
              rw [hfold] at failed
              cases failed
              exact hbases (table.bases id) known (fun base member => member) hfold

namespace Proved

/-- The check ends: it succeeds on a class that is free of circles, and otherwise reports a class at or above
it that lies on one. -/
theorem checkAcyclic_cases (isProved : table.Proved known) (id : SymbolId) :
    (table.AcyclicBases id ∧
      ∃ proved, table.checkAcyclic known id = .ok proved ∧ table.Proved proved) ∨
    ∃ on, ReflTransGen table.Derives id on ∧ TransGen table.Derives on on ∧
      table.checkAcyclic known id = .error (table.circular on) := by
  cases hchecked : table.checkAcyclic known id with
  | ok proved =>
      obtain ⟨hproved, hacyclic⟩ := checkAcyclicFrom_sound isProved hchecked
      exact .inl ⟨hacyclic, proved, rfl, hproved⟩
  | error error =>
      obtain ⟨on, above, circle, rfl⟩ := checkAcyclicFrom_reports (.nil table.Derives id) rfl hchecked
      exact .inr ⟨on, above, circle, rfl⟩

/-- The check succeeds exactly on the classes that are free of circles. -/
theorem checkAcyclic_ok_iff (isProved : table.Proved known) (id : SymbolId) :
    (∃ proved, table.checkAcyclic known id = .ok proved) ↔ ¬ table.CircularAbove id := by
  rw [not_circularAbove_iff]
  refine ⟨fun ⟨proved, checked⟩ => (checkAcyclicFrom_sound isProved checked).2, fun acyclic => ?_⟩
  exact acyclic.checkAcyclic_ok known

/-- The check reports circular inheritance exactly if there is a circle. -/
theorem checkAcyclic_error_iff (isProved : table.Proved known) (id : SymbolId) :
    (∃ name, table.checkAcyclic known id = .error (.circularInheritance name)) ↔
      table.CircularAbove id := by
  constructor
  · rintro ⟨name, failed⟩
    obtain ⟨on, above, circle, -⟩ := checkAcyclicFrom_reports (.nil table.Derives id) rfl failed
    exact ⟨on, above, circle⟩
  · intro circular
    rcases isProved.checkAcyclic_cases id with ⟨acyclic, -⟩ | ⟨on, -, -, failed⟩
    · exact absurd circular (not_circularAbove_iff.mpr acyclic)
    · exact ⟨_, failed⟩

end Proved

end NameBinding.Table
