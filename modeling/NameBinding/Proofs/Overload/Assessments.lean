import NameBinding.Conversion.UserDefined
import NameBinding.Table.Attach
import NameBinding.Proofs.Analysis.Tracks
import NameBinding.Proofs.Overload.Dominance

/-!
# What the candidates of a call come to

Resolving a call goes through the candidates one after another.  For each it finds the function that
takes part, which may instantiate a template, and the costs of the call for that function.  An
`Assessment` is the result of these computations.

* `Assessment.mem_viable`: which candidates are viable does not depend on their order.
* `Analysis.runsAs`: an assessment can be checked by running the candidates.
* `resolveFunction_of_assessed`: the outcome of the call in terms of its viable candidates and of the table in
  which it ends, where the ties are broken.
-/

namespace NameBinding

/-! ## The candidates of a call -/

/-- The arguments that a call passes: `f(void)` passes none. -/
def passedArguments (args : List Descriptor) : List Descriptor :=
  match args with
  | [only] => if only.isPlainVoid then [] else args
  | _ => args

/-- What the candidates of a call come to: the function each takes part with, and the costs of the
call for that function. -/
structure Assessment where
  called : SymbolId → Option SymbolId
  costs : SymbolId → Option (List Cost)

namespace Assessment

/-- The viable candidates after one more. -/
def collect (assessment : Assessment) (viable : List Viable) (candidate : SymbolId) :
    List Viable :=
  match assessment.called candidate with
  | none => viable
  | some function =>
      if viable.any (·.function == function) then viable
      else viable ++ ((assessment.costs function).map (Viable.mk function)).toList

section

variable {assessment : Assessment} {viable : List Viable} {candidate function : SymbolId}

theorem collect_of_none (called : assessment.called candidate = none) :
    assessment.collect viable candidate = viable := by
  rw [collect, called]

theorem collect_of_listed (called : assessment.called candidate = some function)
    (listed : viable.any (·.function == function) = true) :
    assessment.collect viable candidate = viable := by
  simp only [collect, called, if_pos listed]

theorem collect_of_new (called : assessment.called candidate = some function)
    (new : viable.any (·.function == function) = false) :
    assessment.collect viable candidate =
      viable ++ ((assessment.costs function).map (Viable.mk function)).toList := by
  simp only [collect, called, new, Bool.false_eq_true, if_false]

end

/-- The viable candidates of a call. -/
def viable (assessment : Assessment) (candidates : List SymbolId) : List Viable :=
  candidates.foldl assessment.collect []

end Assessment

/-! ### Comparing costs -/

mutual

/-- Types are compared field by field, with their default values. -/
def Descriptor.decideEq : (a b : Descriptor) → Decidable (a = b)
  | ⟨kind, flags, ops, link, args, sort, constant, value⟩,
    ⟨kind', flags', ops', link', args', sort', constant', value'⟩ =>
      have := decideEqAll args args'
      have := decideEqValue value value'
      decidable_of_iff (kind = kind' ∧ flags = flags' ∧ ops = ops' ∧ link = link' ∧ args = args' ∧ sort = sort' ∧
        constant = constant' ∧ value = value') (by rw [Descriptor.mk.injEq])

def Descriptor.decideEqAll : (as bs : List Descriptor) → Decidable (as = bs)
  | [], [] => isTrue rfl
  | [], _ :: _ => isFalse (List.cons_ne_nil _ _).symm
  | _ :: _, [] => isFalse (List.cons_ne_nil _ _)
  | a :: as, b :: bs =>
      have := decideEq a b
      have := decideEqAll as bs
      decidable_of_iff (a = b ∧ as = bs) (by rw [List.cons.injEq])

def Descriptor.decideEqValue : (a b : Option Descriptor) → Decidable (a = b)
  | none, none => isTrue rfl
  | none, some _ => isFalse (Option.some_ne_none _).symm
  | some _, none => isFalse (Option.some_ne_none _)
  | some a, some b =>
      have := decideEq a b
      decidable_of_iff (a = b) (by rw [Option.some.injEq])

end

instance : DecidableEq Descriptor := Descriptor.decideEq

deriving instance DecidableEq for Cost

namespace Analysis

/-- The costs of a call for a function; what is no function has none. -/
def functionCosts (cost : CostFunction) (function : SymbolId) (args : List Descriptor) :
    Analysis (Option (List Cost)) := do
  let table ← get
  if (table.symbol function).functionData?.isNone then pure none
  else candidateCosts cost function args

/-- Going through the candidates from this table on, what is computed for each of them succeeds and
gives what the assessment says.  Costs are computed once for each function. -/
def Assesses (cost : CostFunction) (args : List Descriptor) (assessment : Assessment) :
    List SymbolId → List Viable → Table → Prop
  | [], _, _ => True
  | candidate :: rest, viable, table =>
      ∃ middle, calledFunction? candidate args table = .ok (assessment.called candidate) middle ∧
        match assessment.called candidate with
        | none => Assesses cost args assessment rest viable middle
        | some function =>
            if viable.any (·.function == function) then
              Assesses cost args assessment rest viable middle
            else
              ∃ after,
                functionCosts cost function args middle = .ok (assessment.costs function) after ∧
                  Assesses cost args assessment rest (assessment.collect viable candidate) after

end Analysis

namespace Assessment

variable {assessment : Assessment}

/-- Every viable candidate has the costs that the assessment says, and no function is listed
twice. -/
structure Priced (assessment : Assessment) (viable : List Viable) : Prop where
  distinct : (viable.map Viable.function).Nodup
  costs : ∀ entry ∈ viable, assessment.costs entry.function = some entry.costs

theorem Priced.nil : assessment.Priced [] :=
  ⟨List.nodup_nil, fun _ member => absurd member List.not_mem_nil⟩

theorem Priced.add {viable : List Viable} (priced : assessment.Priced viable)
    {function : SymbolId} {costs : List Cost} (new : viable.any (·.function == function) = false)
    (known : assessment.costs function = some costs) :
    assessment.Priced (viable ++ [⟨function, costs⟩]) := by
  have hnew : function ∉ viable.map Viable.function := by
    simpa using new
  refine ⟨?_, fun entry member => ?_⟩
  · rw [List.map_append, List.map_cons, List.map_nil, List.nodup_middle, List.append_nil]
    exact List.nodup_cons.mpr ⟨hnew, priced.distinct⟩
  · rcases List.mem_append.mp member with old | added
    · exact priced.costs entry old
    · rw [List.mem_singleton.mp added]
      exact known

/-- A function that is listed is listed with its costs. -/
theorem Priced.mem {viable : List Viable} (priced : assessment.Priced viable) {entry : Viable}
    (listed : viable.any (·.function == entry.function) = true)
    (known : assessment.costs entry.function = some entry.costs) : entry ∈ viable := by
  obtain ⟨other, member, hsame⟩ := List.any_eq_true.mp listed
  have hfunction : other.function = entry.function := eq_of_beq hsame
  have hcosts := priced.costs other member
  rw [hfunction, known] at hcosts
  cases other
  cases entry
  cases hfunction
  cases hcosts
  exact member

/-- What one more candidate adds. -/
theorem Priced.collect {viable : List Viable} (priced : assessment.Priced viable)
    (candidate : SymbolId) :
    assessment.Priced (assessment.collect viable candidate) ∧
      ∀ entry, entry ∈ assessment.collect viable candidate ↔ entry ∈ viable ∨
        assessment.called candidate = some entry.function ∧
          assessment.costs entry.function = some entry.costs := by
  cases hcalled : assessment.called candidate with
  | none =>
      rw [collect_of_none hcalled]
      exact ⟨priced, fun entry => by simp⟩
  | some function =>
      cases hlisted : viable.any (·.function == function) with
      | true =>
          rw [collect_of_listed hcalled hlisted]
          refine ⟨priced, fun entry => ⟨.inl, ?_⟩⟩
          rintro (member | ⟨hfunction, hcosts⟩)
          · exact member
          · cases hfunction
            exact priced.mem hlisted hcosts
      | false =>
          rw [collect_of_new hcalled hlisted]
          cases hcosts : assessment.costs function with
          | none =>
              rw [Option.map_none, Option.toList_none, List.append_nil]
              refine ⟨priced, fun entry => ⟨.inl, ?_⟩⟩
              rintro (member | ⟨hfunction, hknown⟩)
              · exact member
              · cases hfunction
                rw [hcosts] at hknown
                cases hknown
          | some costs =>
              rw [Option.map_some, Option.toList_some]
              refine ⟨priced.add hlisted hcosts, fun entry => ?_⟩
              rw [List.mem_append, List.mem_singleton]
              refine or_congr_right ⟨?_, ?_⟩
              · rintro rfl
                exact ⟨rfl, hcosts⟩
              · rintro ⟨hfunction, hknown⟩
                cases hfunction
                rw [hcosts] at hknown
                cases hknown
                rfl

/-- The viable candidates of a call, whatever the order of the candidates. -/
theorem Priced.foldl {viable : List Viable} (priced : assessment.Priced viable)
    (candidates : List SymbolId) :
    assessment.Priced (candidates.foldl assessment.collect viable) ∧
      ∀ entry, entry ∈ candidates.foldl assessment.collect viable ↔ entry ∈ viable ∨
        ∃ candidate ∈ candidates, assessment.called candidate = some entry.function ∧
          assessment.costs entry.function = some entry.costs := by
  induction candidates generalizing viable with
  | nil => exact ⟨priced, fun entry => by simp⟩
  | cons candidate rest ih =>
      obtain ⟨hpriced, hmembers⟩ := priced.collect candidate
      obtain ⟨hrest, hall⟩ := ih hpriced
      refine ⟨hrest, fun entry => ?_⟩
      rw [List.foldl_cons, hall, hmembers, or_assoc]
      simp

theorem viable_priced (candidates : List SymbolId) :
    assessment.Priced (assessment.viable candidates) :=
  (Priced.nil.foldl candidates).1

theorem mem_viable {candidates : List SymbolId} {entry : Viable} :
    entry ∈ assessment.viable candidates ↔
      ∃ candidate ∈ candidates, assessment.called candidate = some entry.function ∧
        assessment.costs entry.function = some entry.costs := by
  rw [viable, (Priced.nil.foldl candidates).2 entry]
  simp

end Assessment

namespace Analysis

variable {cost : CostFunction} {args : List Descriptor} {assessment : Assessment}

section

variable {candidate function : SymbolId} {candidates rest : List SymbolId} {viable : List Viable}
  {table middle after : Table}

/-- A candidate that takes part with nothing. -/
theorem considerCandidate_of_none (called : calledFunction? candidate args table = .ok none middle) :
    considerCandidate cost args viable candidate table = .ok viable middle := by
  rw [considerCandidate, bind_ok called]
  rfl

/-- A candidate that takes part with a function listed already. -/
theorem considerCandidate_of_listed
    (called : calledFunction? candidate args table = .ok (some function) middle)
    (listed : viable.any (·.function == function) = true) :
    considerCandidate cost args viable candidate table = .ok viable middle := by
  rw [considerCandidate, bind_ok called]
  show (if (middle.symbol function).functionData?.isNone
      || viable.any (·.function == function) then pure viable else _ : Analysis _) middle = _
  rw [listed, Bool.or_true, if_pos rfl]
  rfl

/-- A candidate that takes part with a function not yet listed. -/
theorem considerCandidate_of_new
    (called : calledFunction? candidate args table = .ok (some function) middle)
    (new : viable.any (·.function == function) = false) {costs : Option (List Cost)}
    (computed : functionCosts cost function args middle = .ok costs after) :
    considerCandidate cost args viable candidate table =
      .ok (viable ++ (costs.map (Viable.mk function)).toList) after := by
  have hcomputed : (if (middle.symbol function).functionData?.isNone then pure none
      else candidateCosts cost function args : Analysis _) middle = .ok costs after := computed
  rw [considerCandidate, bind_ok called]
  show (if (middle.symbol function).functionData?.isNone
      || viable.any (·.function == function) then pure viable else _ : Analysis _) middle = _
  rw [new, Bool.or_false]
  cases hnone : (middle.symbol function).functionData?.isNone with
  | true =>
      rw [hnone, if_pos rfl] at hcomputed
      cases hcomputed
      simp [pure, EStateM.pure]
  | false =>
      rw [hnone, if_neg Bool.false_ne_true] at hcomputed
      rw [if_neg Bool.false_ne_true, bind_ok hcomputed]
      cases costs with
      | none => simp [pure, EStateM.pure]
      | some costs => rfl

/-- A candidate is considered as the assessment says: it takes part with nothing, with a function that is listed
already, or with one for which the costs of the call are computed. -/
inductive Considered (cost : CostFunction) (args : List Descriptor) (assessment : Assessment)
    (viable : List Viable) (candidate : SymbolId) (table : Table) : Table → Prop where
  | nothing {after : Table} (found : assessment.called candidate = none)
      (called : calledFunction? candidate args table = .ok none after) :
      Considered cost args assessment viable candidate table after
  | listed {function : SymbolId} {after : Table} (found : assessment.called candidate = some function)
      (called : calledFunction? candidate args table = .ok (some function) after)
      (known : viable.any (·.function == function) = true) :
      Considered cost args assessment viable candidate table after
  | new {function : SymbolId} {middle after : Table} (found : assessment.called candidate = some function)
      (called : calledFunction? candidate args table = .ok (some function) middle)
      (unknown : viable.any (·.function == function) = false)
      (computed : functionCosts cost function args middle = .ok (assessment.costs function) after) :
      Considered cost args assessment viable candidate table after

theorem Considered.ends (considered : Considered cost args assessment viable candidate table after) :
    considerCandidate cost args viable candidate table = .ok (assessment.collect viable candidate) after := by
  cases considered with
  | nothing found called =>
      rw [Assessment.collect_of_none found]
      exact considerCandidate_of_none called
  | listed found called known =>
      rw [Assessment.collect_of_listed found known]
      exact considerCandidate_of_listed called known
  | new found called unknown computed =>
      rw [Assessment.collect_of_new found unknown]
      exact considerCandidate_of_new called unknown computed

/-- The first candidate is considered, and then the rest. -/
theorem Assesses.head (assesses : Assesses cost args assessment (candidate :: rest) viable table) :
    ∃ after, Considered cost args assessment viable candidate table after ∧
      Assesses cost args assessment rest (assessment.collect viable candidate) after := by
  obtain ⟨middle, hcalled, hrest⟩ := assesses
  cases hfound : assessment.called candidate with
  | none =>
      rw [hfound] at hcalled hrest
      rw [Assessment.collect_of_none hfound]
      exact ⟨middle, .nothing hfound hcalled, hrest⟩
  | some function =>
      rw [hfound] at hcalled hrest
      cases hlisted : viable.any (·.function == function) with
      | true =>
          simp only [hlisted, if_true] at hrest
          rw [Assessment.collect_of_listed hfound hlisted]
          exact ⟨middle, .listed hfound hcalled hlisted, hrest⟩
      | false =>
          simp only [hlisted, Bool.false_eq_true, if_false] at hrest
          obtain ⟨after, hcomputed, hlater⟩ := hrest
          exact ⟨after, .new hfound hcalled hlisted hcomputed, hlater⟩

theorem Assesses.cons (considered : Considered cost args assessment viable candidate table after)
    (later : Assesses cost args assessment rest (assessment.collect viable candidate) after) :
    Assesses cost args assessment (candidate :: rest) viable table := by
  cases considered with
  | nothing found called =>
      rw [Assessment.collect_of_none found] at later
      rw [← found] at called
      refine ⟨after, called, ?_⟩
      simp only [found]
      exact later
  | listed found called known =>
      rw [Assessment.collect_of_listed found known] at later
      rw [← found] at called
      refine ⟨after, called, ?_⟩
      simp only [found, known, if_true]
      exact later
  | @new _ middle _ found called unknown computed =>
      rw [← found] at called
      refine ⟨middle, called, ?_⟩
      simp only [found, unknown, Bool.false_eq_true, if_false]
      exact ⟨after, computed, later⟩

/-- Running the candidates one after another, is what is computed for each of them what the assessment says? -/
def runsAs (cost : CostFunction) (args : List Descriptor) (assessment : Assessment) :
    List SymbolId → List Viable → Table → Bool
  | [], _, _ => true
  | candidate :: rest, viable, table =>
      match calledFunction? candidate args table with
      | .error _ _ => false
      | .ok called middle =>
          called == assessment.called candidate &&
            match called with
            | none => runsAs cost args assessment rest viable middle
            | some function =>
                if viable.any (·.function == function) then runsAs cost args assessment rest viable middle
                else
                  match functionCosts cost function args middle with
                  | .error _ _ => false
                  | .ok costs after =>
                      costs == assessment.costs function &&
                        runsAs cost args assessment rest (assessment.collect viable candidate) after

theorem assesses_of_runsAs (runs : runsAs cost args assessment candidates viable table = true) :
    Assesses cost args assessment candidates viable table := by
  induction candidates generalizing viable table with
  | nil => trivial
  | cons candidate rest ih =>
      unfold runsAs at runs
      cases hcalled : calledFunction? candidate args table with
      | error interrupt after =>
          rw [hcalled] at runs
          cases runs
      | ok called middle =>
          simp only [hcalled, Bool.and_eq_true, beq_iff_eq] at runs
          obtain ⟨hfound, hrest⟩ := runs
          cases called with
          | none =>
              refine .cons (.nothing hfound.symm hcalled) ?_
              rw [Assessment.collect_of_none hfound.symm]
              exact ih hrest
          | some function =>
              cases hlisted : viable.any (·.function == function) with
              | true =>
                  simp only [hlisted, if_true] at hrest
                  refine .cons (.listed hfound.symm hcalled hlisted) ?_
                  rw [Assessment.collect_of_listed hfound.symm hlisted]
                  exact ih hrest
              | false =>
                  simp only [hlisted, Bool.false_eq_true, if_false] at hrest
                  cases hcosts : functionCosts cost function args middle with
                  | error interrupt after =>
                      rw [hcosts] at hrest
                      cases hrest
                  | ok costs after =>
                      simp only [hcosts, Bool.and_eq_true, beq_iff_eq] at hrest
                      obtain ⟨rfl, hlater⟩ := hrest
                      exact .cons (.new hfound.symm hcalled hlisted hcosts) (ih hlater)

/-- Going through the candidates gives what the assessment says. -/
theorem Assesses.foldlM (assesses : Assesses cost args assessment candidates viable table) :
    ∃ after, candidates.foldlM (considerCandidate cost args) viable table =
      .ok (candidates.foldl assessment.collect viable) after := by
  induction candidates generalizing viable table with
  | nil => exact ⟨table, rfl⟩
  | cons candidate rest ih =>
      obtain ⟨after, hconsidered, hlater⟩ := assesses.head
      obtain ⟨last, hlast⟩ := ih hlater
      refine ⟨last, ?_⟩
      rw [List.foldlM_cons, bind_ok hconsidered.ends]
      exact hlast

end

/-! ## The outcome of a call -/

/-- The function that a call with these viable candidates resolves to, if any; nothing at all if the
call is ambiguous. -/
def judged (table : Table) (viable : List Viable) : Option (Option SymbolId) :=
  if viable.isEmpty then some none
  else
    match table.bestViable viable with
    | none => none
    | some winner =>
        if winner.costs.any (·.userDefined == .ambiguous) then none else some (some winner.function)

/-- The answer of a call that is judged so. -/
def answerOf (name : Name) : Option (Option SymbolId) → Analysis (Option SymbolId)
  | some answer => pure answer
  | none => fail (.ambiguous name)

/-- A call in terms of its viable candidates. -/
theorem resolveOverload_of_viable {candidates rest : List SymbolId} {first : SymbolId}
    {table after : Table} {viable : List Viable}
    (unique : table.uniqueCandidates candidates = first :: rest)
    (valid : args.all (·.isValid) = true)
    (considered : (first :: rest).foldlM (considerCandidate cost (passedArguments args)) [] table =
      .ok viable after) :
    resolveOverload cost candidates args table =
      answerOf (table.symbol first).name (judged after viable) after := by
  show (get >>= _ : Analysis (Option SymbolId)) table = _
  rw [get_bind, unique]
  simp only [valid, Bool.not_true, Bool.false_eq_true, if_false]
  refine (bind_ok considered).trans ?_
  show (if viable.isEmpty then pure none else _ : Analysis (Option SymbolId)) after = _
  rw [judged]
  split
  · rfl
  · cases after.bestViable viable with
    | none => rfl
    | some winner =>
        simp only
        split <;> rfl

/-- A call without candidates. -/
theorem resolveOverload_of_none {candidates : List SymbolId} {table : Table}
    (unique : table.uniqueCandidates candidates = []) :
    resolveOverload cost candidates args table = .ok none table := by
  show (get >>= _ : Analysis (Option SymbolId)) table = _
  rw [get_bind, unique]
  rfl

/-- A call without valid arguments. -/
theorem resolveOverload_of_invalid {candidates rest : List SymbolId} {first : SymbolId}
    {table : Table} (unique : table.uniqueCandidates candidates = first :: rest)
    (invalid : args.all (·.isValid) = false) :
    resolveOverload cost candidates args table =
      fail (.badTypeInfo (table.symbol first).name) table := by
  show (get >>= _ : Analysis (Option SymbolId)) table = _
  rw [get_bind, unique]
  simp only [invalid, Bool.not_false, if_true]

/-- The value or the interrupt that a run ends with. -/
def ending {α : Type} : EStateM.Result Interrupt Table α → Except Interrupt α
  | .ok value _ => .ok value
  | .error interrupt _ => .error interrupt

theorem eq_ok_of_ending {α : Type} {step : Analysis α} {table : Table} {value : α}
    (ends : ending (step table) = .ok value) : step table = .ok value (finalTable table step) := by
  rw [finalTable]
  cases hstep : step table with
  | ok result after =>
      rw [hstep] at ends
      cases ends
      rfl
  | error interrupt after =>
      rw [hstep] at ends
      cases ends

theorem exists_error_of_ending {α : Type} {step : Analysis α} {table : Table} {interrupt : Interrupt}
    (ends : ending (step table) = .error interrupt) : ∃ after, step table = .error interrupt after := by
  cases hstep : step table with
  | ok result after =>
      rw [hstep] at ends
      cases ends
  | error failure after =>
      rw [hstep] at ends
      cases ends
      exact ⟨after, rfl⟩

theorem ending_answerOf (name : Name) (table : Table) (verdict : Option (Option SymbolId)) :
    ending (answerOf name verdict table) =
      match verdict with
      | some answer => .ok answer
      | none => .error (.error (.ambiguous name)) := by
  cases verdict <;> rfl

theorem finalTable_answerOf {name : Name} {table after : Table}
    {verdict : Option (Option SymbolId)} {step : Analysis (Option SymbolId)}
    (ends : step table = answerOf name verdict after) : finalTable table step = after := by
  rw [finalTable, ends]
  cases verdict <;> rfl

end Analysis

namespace Table

theorem mem_uniqueCandidates {table : Table} {candidates : List SymbolId} {entity : SymbolId} :
    entity ∈ table.uniqueCandidates candidates ↔
      ∃ candidate ∈ candidates, table.canonical candidate = entity := by
  rw [uniqueCandidates, List.mem_eraseDups, List.mem_map]

end Table

/-- The viable candidates of a call with these candidates. -/
def Assessment.viableOf (assessment : Assessment) (table : Table) (candidates : List SymbolId) :
    List Viable :=
  assessment.viable (table.uniqueCandidates candidates)

namespace Analysis

variable {assessment : Assessment} {table : Table} {candidates : List SymbolId}
  {args : List Descriptor}

/-- The candidates of a call are assessed as the assessment says. -/
structure CallAssessed (assessment : Assessment) (table : Table) (candidates : List SymbolId)
    (args : List Descriptor) : Prop where
  assesses : Assesses (conversionCost · · false) (passedArguments args) assessment
    (table.uniqueCandidates candidates) [] table

theorem callAssessed_of_runsAs
    (runs : runsAs (conversionCost · · false) (passedArguments args) assessment
      (table.uniqueCandidates candidates) [] table = true) : CallAssessed assessment table candidates args :=
  ⟨assesses_of_runsAs runs⟩

/-- A call with assessed candidates. -/
theorem resolveFunction_of_assessed (assessed : CallAssessed assessment table candidates args)
    {first : SymbolId} {rest : List SymbolId}
    (unique : table.uniqueCandidates candidates = first :: rest)
    (valid : args.all (·.isValid) = true) :
    resolveFunction candidates (some args) table =
      answerOf (table.symbol first).name
        (judged (finalTable table (resolveFunction candidates (some args)))
          (assessment.viableOf table candidates))
        (finalTable table (resolveFunction candidates (some args))) := by
  obtain ⟨after, hafter⟩ := Assesses.foldlM assessed.assesses
  rw [unique] at hafter
  have hcall : resolveFunction candidates (some args) table = _ :=
    resolveOverload_of_viable unique valid hafter
  rw [finalTable_answerOf hcall, hcall, Assessment.viableOf, unique]
  rfl

end Analysis

end NameBinding
