import NameBinding.Proofs.Overload.Assessments

/-!
# Calls under other numbers

Two runs of a call that go through the candidates in different orders number the instances that they make
differently.  Costs are compared by rank, detail and qualifiers, and user-defined functions only with each other, so
that the numbers make no difference: what one run answers is what the other one answers, renamed.

* `Assessment.Renames`: two runs compute the same for each candidate, but for the numbers.
* `judged_alike`: such runs judge alike, if ties come out alike.

The main statement is `endAlike_of_renamed`, about whole calls.
-/

namespace NameBinding

namespace Assessment

variable {first second : Assessment} {rename : SymbolId → SymbolId} {candidates others : List SymbolId}

/-- The second assessment gives what the first one gives, under other numbers: the functions that take part, and
costs that compare alike. -/
structure Renames (rename : SymbolId → SymbolId) (first second : Assessment) (candidates : List SymbolId) :
    Prop where
  called : ∀ candidate ∈ candidates, second.called candidate = (first.called candidate).map rename
  costs : ∀ candidate ∈ candidates, ∀ function, first.called candidate = some function →
    Option.Rel (List.Forall₂ (Cost.Alike rename)) (first.costs function) (second.costs (rename function))

/-- A function with costs in the first run has costs in the second run. -/
theorem Renames.exists_costs (renames : first.Renames rename second candidates) {candidate function : SymbolId}
    {costs : List Cost} (member : candidate ∈ candidates) (called : first.called candidate = some function)
    (known : first.costs function = some costs) :
    second.called candidate = some (rename function) ∧
      ∃ renamed, second.costs (rename function) = some renamed ∧
        List.Forall₂ (Cost.Alike rename) costs renamed := by
  refine ⟨by rw [renames.called candidate member, called, Option.map_some], ?_⟩
  have halike := renames.costs candidate member function called
  rw [known] at halike
  generalize second.costs (rename function) = found at halike
  cases halike with
  | some alike => exact ⟨_, rfl, alike⟩

variable (renames : first.Renames rename second candidates)
  (same : ∀ candidate, candidate ∈ candidates ↔ candidate ∈ others)

include renames same

/-- A viable candidate of the first run is one of the second run. -/
theorem Renames.forth {a : Viable} (viable : a ∈ first.viable candidates) :
    ∃ b ∈ second.viable others, a.Alike rename b := by
  obtain ⟨candidate, hmember, hcalled, hcosts⟩ := mem_viable.mp viable
  obtain ⟨hcalledToo, costs, hcostsToo, halike⟩ := renames.exists_costs hmember hcalled hcosts
  exact ⟨⟨rename a.function, costs⟩,
    mem_viable.mpr ⟨candidate, (same candidate).mp hmember, hcalledToo, hcostsToo⟩, rfl, halike⟩

/-- A viable candidate of the second run is one of the first run. -/
theorem Renames.back {b : Viable} (viable : b ∈ second.viable others) :
    ∃ a ∈ first.viable candidates, a.Alike rename b := by
  obtain ⟨candidate, hlisted, hcalledToo, hcostsToo⟩ := mem_viable.mp viable
  have hmember := (same candidate).mpr hlisted
  rw [renames.called candidate hmember] at hcalledToo
  obtain ⟨function, hcalled, hrenamed⟩ := Option.map_eq_some_iff.mp hcalledToo
  have halike := renames.costs candidate hmember function hcalled
  rw [hrenamed, hcostsToo] at halike
  cases hcosts : first.costs function with
  | none =>
      rw [hcosts] at halike
      cases halike
  | some costs =>
      rw [hcosts] at halike
      cases halike with
      | some alike =>
          exact ⟨⟨function, costs⟩, mem_viable.mpr ⟨candidate, hmember, hcalled, hcosts⟩, hrenamed.symm, alike⟩

end Assessment

namespace Analysis

variable {rename : SymbolId → SymbolId} {table other : Table}

/-- Whether an argument converts in more than one way does not depend on the numbers either. -/
theorem any_ambiguous_alike {a b : List Cost} (alike : List.Forall₂ (Cost.Alike rename) a b) :
    b.any (·.userDefined == .ambiguous) = a.any (·.userDefined == .ambiguous) := by
  induction alike with
  | nil => rfl
  | cons head _ ih =>
      have hhead := head.ambiguous_iff
      rw [List.any_cons, List.any_cons, ih]
      congr 1
      rw [Bool.eq_iff_iff, beq_iff_eq, beq_iff_eq, hhead]

/-- Viable candidates that correspond to each other are judged alike, if ties come out alike. -/
theorem judged_alike {viable renamed : List Viable} (injective : Function.Injective rename)
    (distinct : (viable.map Viable.function).Nodup) (distinctToo : (renamed.map Viable.function).Nodup)
    (forth : ∀ a ∈ viable, ∃ b ∈ renamed, a.Alike rename b)
    (back : ∀ b ∈ renamed, ∃ a ∈ viable, a.Alike rename b)
    (ties : ∀ a ∈ viable, ∀ b ∈ viable, compareCosts a.costs b.costs = some .eq →
      other.winsTie (rename a.function) (rename b.function) = table.winsTie a.function b.function) :
    judged other renamed = (judged table viable).map (Option.map rename) := by
  have hempty : renamed.isEmpty = viable.isEmpty := by
    rw [Bool.eq_iff_iff, List.isEmpty_iff, List.isEmpty_iff, List.eq_nil_iff_forall_not_mem,
      List.eq_nil_iff_forall_not_mem]
    constructor
    · intro none a member
      obtain ⟨b, hb, -⟩ := forth a member
      exact none b hb
    · intro none b member
      obtain ⟨a, ha, -⟩ := back b member
      exact none a ha
  have hbest := Table.bestViable_alike injective distinct distinctToo forth back ties
  rw [judged, judged, hempty]
  split
  · rfl
  · generalize table.bestViable viable = best at hbest ⊢
    generalize other.bestViable renamed = bestToo at hbest ⊢
    cases hbest with
    | none => rfl
    | some alike =>
        dsimp only
        rw [any_ambiguous_alike alike.costs, alike.function]
        split <;> rfl

/-! ## Calls -/

/-- Two calls end alike, but for the names in their errors and the number of the function. -/
inductive EndAlike (rename : SymbolId → SymbolId) (name other : Name) :
    Except Interrupt (Option SymbolId) → Except Interrupt (Option SymbolId) → Prop where
  | ok (answer : Option SymbolId) : EndAlike rename name other (.ok answer) (.ok (answer.map rename))
  | ambiguous :
      EndAlike rename name other (.error (.error (.ambiguous name))) (.error (.error (.ambiguous other)))
  | badTypeInfo :
      EndAlike rename name other (.error (.error (.badTypeInfo name)))
        (.error (.error (.badTypeInfo other)))

namespace EndAlike

variable {name other : Name} {a b : Except Interrupt (Option SymbolId)}

theorem ok_iff (alike : EndAlike rename name other a b) (injective : Function.Injective rename)
    (answer : Option SymbolId) : a = .ok answer ↔ b = .ok (answer.map rename) := by
  cases alike with
  | ok found => simp only [Except.ok.injEq, (Option.map_injective injective).eq_iff]
  | ambiguous | badTypeInfo => simp

theorem ambiguous_iff (alike : EndAlike rename name other a b) :
    (∃ name, a = .error (.error (.ambiguous name))) ↔
      ∃ name, b = .error (.error (.ambiguous name)) := by
  cases alike <;> simp

theorem eq_map (alike : EndAlike rename name other a b) (same : name = other) :
    b = a.map (Option.map rename) := by
  subst same
  cases alike <;> rfl

end EndAlike

variable {first second : Assessment} {candidates reordered : List SymbolId} {args : List Descriptor}

/-- A call whose candidates are reordered or repeated ends alike if ties do. -/
theorem endAlike_of_renamed (injective : Function.Injective rename)
    (same : ∀ candidate, candidate ∈ candidates ↔ candidate ∈ reordered)
    (assessed : CallAssessed first table candidates args)
    (assessedToo : CallAssessed second table reordered args)
    (renames : first.Renames rename second (table.uniqueCandidates candidates))
    (ties : args.all (·.isValid) = true → ∀ a ∈ first.viableOf table candidates,
      ∀ b ∈ first.viableOf table candidates, compareCosts a.costs b.costs = some .eq →
        (finalTable table (resolveFunction reordered (some args))).winsTie (rename a.function)
            (rename b.function) =
          (finalTable table (resolveFunction candidates (some args))).winsTie a.function b.function) :
    ∃ name other,
      ((∀ first ∈ candidates, ∀ second ∈ candidates,
        (table.symbol (table.canonical first)).name =
          (table.symbol (table.canonical second)).name) → name = other) ∧
      EndAlike rename name other (ending (resolveFunction candidates (some args) table))
        (ending (resolveFunction reordered (some args) table)) := by
  have hentities : ∀ entity, entity ∈ table.uniqueCandidates candidates ↔
      entity ∈ table.uniqueCandidates reordered := by
    simp only [Table.mem_uniqueCandidates, same, implies_true]
  cases hunique : table.uniqueCandidates candidates with
  | nil =>
      have hnone : table.uniqueCandidates reordered = [] := by
        rw [hunique] at hentities
        exact List.eq_nil_iff_forall_not_mem.mpr fun entity member =>
          List.not_mem_nil ((hentities entity).mpr member)
      have hcall : resolveFunction candidates (some args) table = _ :=
        resolveOverload_of_none hunique
      have hcallToo : resolveFunction reordered (some args) table = _ :=
        resolveOverload_of_none hnone
      rw [hcall, hcallToo]
      exact ⟨.empty, .empty, fun _ => rfl, .ok none⟩
  | cons head rest =>
      cases hother : table.uniqueCandidates reordered with
      | nil =>
          have hmember := (hentities head).mp (hunique ▸ List.mem_cons_self)
          rw [hother] at hmember
          cases hmember
      | cons headToo others =>
          refine ⟨(table.symbol head).name, (table.symbol headToo).name, fun names => ?_, ?_⟩
          · -- Both are entities of candidates.
            have hhead := Table.mem_uniqueCandidates.mp (hunique ▸ List.mem_cons_self)
            have hheadToo := Table.mem_uniqueCandidates.mp
              ((hentities headToo).mpr (hother ▸ List.mem_cons_self))
            obtain ⟨candidate, hcandidate, rfl⟩ := hhead
            obtain ⟨repeated, hrepeated, rfl⟩ := hheadToo
            exact names candidate hcandidate repeated hrepeated
          · cases hvalid : args.all (·.isValid) with
            | false =>
                have hcall : resolveFunction candidates (some args) table = _ :=
                  resolveOverload_of_invalid hunique hvalid
                have hcallToo : resolveFunction reordered (some args) table = _ :=
                  resolveOverload_of_invalid hother hvalid
                rw [hcall, hcallToo]
                exact .badTypeInfo
            | true =>
                have hjudged := judged_alike injective (Assessment.viable_priced _).distinct
                  (Assessment.viable_priced _).distinct (fun _ => renames.forth hentities)
                  (fun _ => renames.back hentities) (ties hvalid)
                rw [resolveFunction_of_assessed assessed hunique hvalid,
                  resolveFunction_of_assessed assessedToo hother hvalid, ending_answerOf, ending_answerOf,
                  Assessment.viableOf, Assessment.viableOf, hjudged]
                cases judged _ (first.viable (table.uniqueCandidates candidates)) with
                | none => exact .ambiguous
                | some answer => exact .ok answer

end Analysis

end NameBinding
