import NameBinding.Proofs.Inheritance.Arrivals

/-!
# Inheritance distances

The search for a base tries all chains of bases that lead up from a class, and what it finds is the length of
the shortest one.  It fails exactly if it meets a circle before it has arrived; circles through the base do not
count, because the search ends there.

* `Table.Climbs`: a chain of bases, with the number of its links.
* `Table.Shortest`: how many links the shortest chain has.
* `distanceFrom_ok`, `distanceFrom_reports` and `distanceFrom_eq`: what it means that the search succeeds, or
  fails, and that the bound on its depth is never reached.

The main statements are `derivedDistance_shortest` and, where there are no circles,
`AcyclicBases.derivedDistance_ok`.
-/

namespace NameBinding

/-- Steps that are the same for every element are the same for the list. -/
theorem mapM_congr {α β : Type} {m : Type → Type} [Monad m] [LawfulMonad m] {list : List α}
    {step step' : α → m β} (same : ∀ element ∈ list, step element = step' element) :
    list.mapM step = list.mapM step' := by
  induction list with
  | nil => rfl
  | cons first rest ih =>
      rw [List.mapM_cons, List.mapM_cons, same first List.mem_cons_self,
        ih fun element member => same element (List.mem_cons_of_mem first member)]

namespace Table

open Relation

variable {table : Table} {base id next : SymbolId} {steps : Nat} {distance : Option Nat}

/-! ## Chains of bases -/

/-- A chain of bases with this many links leads from a class up to `base`. -/
inductive Climbs (table : Table) (base : SymbolId) : Nat → SymbolId → Prop where
  | here : Climbs table base 0 base
  | up {steps : Nat} {id next : SymbolId} (derives : table.Derives id next)
      (climbs : Climbs table base steps next) : Climbs table base (steps + 1) id

/-- A class derives from a base if a chain leads up to it that has a link. -/
theorem transGen_iff_exists_climbs :
    TransGen table.Derives id base ↔ ∃ steps, table.Climbs base (steps + 1) id := by
  constructor
  · intro derives
    induction derives using TransGen.head_induction_on with
    | single derives => exact ⟨0, .up derives .here⟩
    | head derives _ ih =>
        obtain ⟨steps, hclimbs⟩ := ih
        exact ⟨steps + 1, .up derives hclimbs⟩
  · rintro ⟨steps, climbs⟩
    induction steps generalizing id with
    | zero =>
        cases climbs with
        | up derives climbs =>
            cases climbs
            exact .single derives
    | succ steps ih =>
        cases climbs with
        | up derives climbs => exact .head derives (ih climbs)

/-- The number of links of the shortest chain from a class up to `base`, or nothing if there is none. -/
structure Shortest (table : Table) (base id : SymbolId) (distance : Option Nat) : Prop where
  climbs : ∀ steps, distance = some steps → table.Climbs base steps id
  least : ∀ steps, table.Climbs base steps id → ∃ shortest, distance = some shortest ∧ shortest ≤ steps

namespace Shortest

theorem here (table : Table) (base : SymbolId) : table.Shortest base base (some 0) where
  climbs := by
    rintro _ ⟨⟩
    exact .here
  least := fun steps _ => ⟨0, rfl, Nat.zero_le steps⟩

/-- The shortest chain from a class goes up to the base that has the shortest one. -/
theorem up (proper : id ≠ base) {distance : SymbolId → Option Nat}
    (each : ∀ next, table.Derives id next → table.Shortest base next (distance next)) :
    table.Shortest base id (((table.bases id).map distance).filterMap (·.map (· + 1))).min? where
  climbs := by
    intro steps found
    obtain ⟨shorter, member, hshorter⟩ := List.mem_filterMap.mp (List.min?_mem found)
    obtain ⟨next, derives, hnext⟩ := List.mem_map.mp member
    obtain ⟨fewer, rfl, rfl⟩ := Option.map_eq_some_iff.mp hshorter
    exact .up derives ((each next derives).climbs fewer hnext)
  least := by
    intro steps climbs
    cases climbs with
    | here => exact absurd rfl proper
    | up derives climbs =>
        obtain ⟨shortest, hshortest, hle⟩ := (each _ derives).least _ climbs
        have hmember : shortest + 1 ∈ ((table.bases id).map distance).filterMap (·.map (· + 1)) :=
          List.mem_filterMap.mpr ⟨_, List.mem_map_of_mem derives, by rw [hshortest, Option.map_some]⟩
        obtain ⟨least, hleast⟩ := Option.isSome_iff_exists.mp
          (List.isSome_min?_of_mem hmember)
        exact ⟨least, hleast, ((List.min?_eq_some_iff.mp hleast).2 _ hmember).trans (Nat.succ_le_succ hle)⟩

theorem eq_some_iff (shortest : table.Shortest base id distance) :
    distance = some steps ↔
      table.Climbs base steps id ∧ ∀ others, table.Climbs base others id → steps ≤ others := by
  constructor
  · rintro rfl
    refine ⟨shortest.climbs steps rfl, fun others climbs => ?_⟩
    obtain ⟨least, hsame, hle⟩ := shortest.least others climbs
    exact Option.some.inj hsame ▸ hle
  · rintro ⟨climbs, hleast⟩
    obtain ⟨least, hsame, hle⟩ := shortest.least steps climbs
    rw [hsame, Nat.le_antisymm hle (hleast least (shortest.climbs least hsame))]

theorem eq_none_iff (shortest : table.Shortest base id distance) :
    distance = none ↔ ∀ steps, ¬ table.Climbs base steps id := by
  rw [Option.eq_none_iff_forall_ne_some]
  constructor
  · intro none steps climbs
    obtain ⟨least, hsame, -⟩ := shortest.least steps climbs
    exact none least hsame
  · exact fun none steps found => none steps (shortest.climbs steps found)

end Shortest

/-! ## The search -/

/-- A search that succeeds has found the shortest chain, and has met no circle. -/
theorem distanceFrom_ok {depth oldest : Nat} {path : List SymbolId}
    (found : table.distanceFrom base depth oldest path id = .ok distance) :
    table.Shortest base id distance ∧ (id ≠ base → ¬ table.CircularBefore base id) := by
  induction depth generalizing oldest path id distance with
  | zero => cases found
  | succ depth ih =>
      rw [distanceFrom] at found
      split at found
      · rename_i same
        subst same
        cases found
        exact ⟨.here table id, fun proper => absurd rfl proper⟩
      · rename_i proper
        split at found
        · cases found
        · cases hbases : (table.bases id).mapM
              (table.distanceFrom base depth (min oldest id.index) (id :: path)) with
          | error error =>
              rw [hbases] at found
              cases found
          | ok distances =>
              rw [hbases] at found
              cases found
              obtain ⟨each, rfl, heach⟩ := exists_of_mapM_ok hbases
              refine ⟨.up proper fun next derives => (ih (heach next derives)).1, fun _ circular => ?_⟩
              obtain ⟨next, ⟨derives, before⟩, further⟩ := circular.exists_base
              exact (ih (heach next derives)).2 before further

section Bounded

variable {depth depth' oldest : Nat} {path : List SymbolId} {error : SemanticError}

/-- With enough depth left for the path to grow as long as it can, a search that fails reports a class on a
circle. -/
theorem distanceFrom_reports (came : CameBy table.Derives path id)
    (passed : ∀ earlier ∈ path, TransGen (table.Passes base) earlier id)
    (enough : depth + path.length = table.size + 1) (older : ∀ earlier ∈ path, oldest ≤ earlier.index)
    (failed : table.distanceFrom base depth oldest path id = .error error) :
    id ≠ base ∧ ∃ on, ReflTransGen (table.Passes base) id on ∧ TransGen (table.Passes base) on on ∧
      error = table.circular on := by
  induction depth generalizing oldest path id with
  | zero =>
      have hlength := came.length_le Derives.lt_size
      omega
  | succ depth ih =>
      rw [distanceFrom] at failed
      split at failed
      · cases failed
      · rename_i proper
        refine ⟨proper, ?_⟩
        split at failed
        · rename_i onPath
          cases failed
          have hmember : id ∈ path := by simpa using (Bool.and_eq_true_iff.mp onPath).2
          exact ⟨id, .refl, passed id hmember, rfl⟩
        · rename_i offPath
          have hoff : id ∉ path := fun member => offPath (by simp [member, older id member])
          cases hbases : (table.bases id).mapM
              (table.distanceFrom base depth (min oldest id.index) (id :: path)) with
          | ok distances =>
              rw [hbases] at failed
              cases failed
          | error other =>
              rw [hbases] at failed
              cases failed
              obtain ⟨next, derives, hnext⟩ := exists_of_mapM_error hbases
              have henough : depth + (id :: path).length = table.size + 1 := by
                rw [List.length_cons]
                omega
              have holder : ∀ earlier ∈ id :: path, min oldest id.index ≤ earlier.index :=
                List.forall_mem_cons.mpr ⟨Nat.min_le_right _ _, fun earlier member =>
                  (Nat.min_le_left _ _).trans (older earlier member)⟩
              by_cases hbefore : next = base
              · -- The search does not go on from the base, so that it cannot fail there.
                have hlength := (came.step_off hoff derives).length_le Derives.lt_size
                obtain ⟨left, rfl⟩ := Nat.exists_eq_add_one_of_ne_zero (show depth ≠ 0 by omega)
                rw [distanceFrom, if_pos hbefore] at hnext
                cases hnext
              · have hpasses : table.Passes base id next := ⟨derives, hbefore⟩
                obtain ⟨-, on, above, circle, hname⟩ := ih (came.step_off hoff derives)
                  (List.forall_mem_cons.mpr ⟨.single hpasses, fun earlier member =>
                    (passed earlier member).tail hpasses⟩) henough holder hnext
                exact ⟨on, .head hpasses above, circle, hname⟩

/-- The search never goes as deep as it may, so that it ends in the same way if it may go deeper. -/
theorem distanceFrom_eq (came : CameBy table.Derives path id) (enough : table.size < depth + path.length)
    (enough' : table.size < depth' + path.length) (older : ∀ earlier ∈ path, oldest ≤ earlier.index) :
    table.distanceFrom base depth oldest path id = table.distanceFrom base depth' oldest path id := by
  have hlength := came.length_le Derives.lt_size
  induction depth generalizing depth' oldest path id with
  | zero => omega
  | succ depth ih =>
      obtain ⟨depth', rfl⟩ := Nat.exists_eq_add_one_of_ne_zero (show depth' ≠ 0 by omega)
      rw [distanceFrom, distanceFrom]
      split
      · rfl
      · split
        · rfl
        · rename_i offPath
          have hoff : id ∉ path := fun member => offPath (by simp [member, older id member])
          have hbases : (table.bases id).mapM
                (table.distanceFrom base depth (min oldest id.index) (id :: path)) =
              (table.bases id).mapM
                (table.distanceFrom base depth' (min oldest id.index) (id :: path)) := by
            refine mapM_congr fun next derives => ?_
            have hcame := came.step_off hoff derives
            refine ih hcame ?_ ?_ ?_ (hcame.length_le Derives.lt_size)
            · rw [List.length_cons]
              omega
            · rw [List.length_cons]
              omega
            · exact List.forall_mem_cons.mpr ⟨Nat.min_le_right _ _, fun earlier member =>
                (Nat.min_le_left _ _).trans (older earlier member)⟩
          rw [hbases]

end Bounded

/-- What the search for a base finds out from a class: the shortest chain, or a circle before the base. -/
theorem derivedDistance_cases (table : Table) (derived parent : SymbolId) :
    (∃ distance, table.derivedDistance derived parent = .ok distance ∧
      table.Shortest (table.classOf parent) (table.classOf derived) distance ∧
      (table.classOf derived ≠ table.classOf parent →
        ¬ table.CircularBefore (table.classOf parent) (table.classOf derived))) ∨
    ∃ on, table.derivedDistance derived parent = .error (table.circular on) ∧
      table.classOf derived ≠ table.classOf parent ∧
      table.CircularBefore (table.classOf parent) (table.classOf derived) := by
  cases hfound : table.derivedDistance derived parent with
  | ok distance =>
      obtain ⟨hshortest, hstraight⟩ := distanceFrom_ok hfound
      exact .inl ⟨distance, rfl, hshortest, hstraight⟩
  | error error =>
      obtain ⟨hproper, on, above, circle, rfl⟩ := distanceFrom_reports (.nil table.Derives _)
        (fun _ member => absurd member List.not_mem_nil) rfl
        (fun _ member => absurd member List.not_mem_nil) hfound
      exact .inr ⟨on, rfl, hproper, on, above, circle⟩

/-- The distance of a class to a base is the length of the shortest chain of bases from one to the other.  The
search ends for all tables: its bound never matters.  It reports circular inheritance exactly if a circle is
reached without going through the base, and otherwise finds the length of the shortest chain, or that there is
none. -/
theorem derivedDistance_shortest (table : Table) (derived parent : SymbolId) :
    let origin := table.classOf derived
    let base := table.classOf parent
    let meetsCircle := origin ≠ base ∧ table.CircularBefore base origin
    (∀ more, table.distanceFrom base (table.size + 1 + more) table.size [] origin =
      table.derivedDistance derived parent) ∧
    ((∃ name, table.derivedDistance derived parent = .error (.circularInheritance name)) ↔ meetsCircle) ∧
    (∀ steps, table.derivedDistance derived parent = .ok (some steps) ↔
      ¬ meetsCircle ∧ table.Climbs base steps origin ∧
        ∀ others, table.Climbs base others origin → steps ≤ others) ∧
    (table.derivedDistance derived parent = .ok none ↔
      ¬ meetsCircle ∧ ∀ steps, ¬ table.Climbs base steps origin) := by
  intro origin base meetsCircle
  have hbound : ∀ more, table.distanceFrom base (table.size + 1 + more) table.size [] origin =
      table.derivedDistance derived parent := fun more =>
    distanceFrom_eq (.nil table.Derives origin) (by rw [List.length_nil]; omega)
      (by rw [List.length_nil]; omega) fun _ member => absurd member List.not_mem_nil
  refine ⟨hbound, ?_⟩
  rcases table.derivedDistance_cases derived parent with
    ⟨distance, hfound, hshortest, hstraight⟩ | ⟨on, hfailed, hcircle⟩
  · have hno : ¬ meetsCircle := fun ⟨proper, circular⟩ => hstraight proper circular
    rw [hfound]
    refine ⟨iff_of_false (by simp) hno, fun steps => ?_, ?_⟩
    · rw [Except.ok.injEq, hshortest.eq_some_iff, and_iff_right hno]
    · rw [Except.ok.injEq, hshortest.eq_none_iff, and_iff_right hno]
  · rw [hfailed]
    refine ⟨iff_of_true ⟨_, rfl⟩ hcircle, fun steps => iff_of_false ?_ fun found => found.1 hcircle,
      iff_of_false ?_ fun found => found.1 hcircle⟩
    · exact fun same => nomatch same
    · exact fun same => nomatch same

/-- The distance of a class to a base that it derives from is the length of the shortest chain. -/
theorem AcyclicBases.derivedDistance_ok (acyclic : table.AcyclicBases id) (derived : table.classOf id = id)
    (parent : table.classOf base = base) (derives : TransGen table.Derives id base) :
    ∃ distance, table.derivedDistance id base = .ok (some (distance + 1)) ∧
      table.Climbs base (distance + 1) id ∧ ∀ steps, table.Climbs base steps id → distance + 1 ≤ steps := by
  have hproper : id ≠ base := by
    rintro rfl
    exact acyclic id .refl derives
  rcases table.derivedDistance_cases id base with ⟨distance, hfound, hshortest, -⟩ | ⟨-, -, -, circular⟩
  · rw [derived, parent] at hshortest
    obtain ⟨steps, hsteps⟩ := transGen_iff_exists_climbs.mp derives
    obtain ⟨least, rfl, -⟩ := hshortest.least _ hsteps
    obtain ⟨hclimbs, hleast⟩ := hshortest.eq_some_iff.mp rfl
    cases hclimbs with
    | here => exact absurd rfl hproper
    | up derives climbs => exact ⟨_, hfound, .up derives climbs, hleast⟩
  · rw [derived, parent] at circular
    exact absurd circular (acyclic.not_circularBefore base)

end Table

end NameBinding
