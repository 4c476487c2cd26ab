import NameBinding.Proofs.Conversion.Ranks
import NameBinding.Proofs.Overload.Dominance
import NameBinding.Proofs.Operation.Repetition

/-!
# The best conversion function

Costs of conversions through different functions are equal whatever their details are, so the comparison of any
costs is not transitive.  A conversion that needs a function has no details, though, and so the costs that
conversions have are ordered by rank, detail and number of qualifiers.  This makes one pass over the conversion
functions of a class enough.

* `Cost.Regular`: user-defined conversions have no details, which holds of all costs that come about.
* `Cost.Arises`: the costs that come about.
* `Contest.Standing`: what is known of the best function so far.
* `Contest.Decides`: what the outcome says of the functions.
* `surveyConversions`: what the conversion functions of a class cost, one after the other.

The main statement is `best_conversion_order_independent`.
-/

namespace NameBinding

namespace Cost

variable {a b c : Cost}

/-! ## Regular costs -/

/-- A user-defined conversion has no detail and adds no qualifiers. -/
structure Regular (cost : Cost) : Prop where
  detail : cost.rank = .userDefined → cost.detail = 0
  qualification : cost.rank = .userDefined → cost.qualification = 0

/-- Regular costs are compared by rank, detail and number of qualifiers, one after the other. -/
theorem Regular.compare_eq (regular : a.Regular) (other : b.Regular) :
    a.compare b = (Ord.compare a.rank.order b.rank.order).then (a.compareDetail b) := by
  rw [compare]
  by_cases hrank : a.rank = .userDefined ∧ b.rank = .userDefined
  · have hdetail : a.compareDetail b = .eq := by
      rw [compareDetail, regular.detail hrank.1, other.detail hrank.2, regular.qualification hrank.1,
        other.qualification hrank.2]
      rfl
    simp only [hdetail, ite_self]
    split <;> rfl
  · by_cases hsame : a.rank.order = b.rank.order
    · have huser : a.rank ≠ .userDefined := fun user =>
        hrank ⟨user, (Rank.order_injective hsame).symm.trans user⟩
      split
      · rename_i user _ _
        exact absurd user huser
      · rfl
    · have hfirst : Ord.compare a.rank.order b.rank.order ≠ .eq := mt Nat.compare_eq_eq.mp hsame
      cases horder : Ord.compare a.rank.order b.rank.order with
      | eq => exact absurd horder hfirst
      | lt | gt => rfl

/-- Where one regular cost is no worse than another one. -/
theorem Regular.not_worse_iff (regular : a.Regular) (other : b.Regular) :
    a.compare b ≠ .gt ↔ a.rank.order < b.rank.order ∨ a.rank.order = b.rank.order ∧
      (a.detail < b.detail ∨ a.detail = b.detail ∧ a.qualification ≤ b.qualification) := by
  rw [regular.compare_eq other, compareDetail, ne_eq, Ordering.then_eq_gt, Ordering.then_eq_gt,
    Nat.compare_eq_gt, Nat.compare_eq_gt, Nat.compare_eq_gt, Nat.compare_eq_eq, Nat.compare_eq_eq]
  omega

theorem compare_eq_lt_iff : a.compare b = .lt ↔ b.compare a = .gt := by
  rw [compare_swap a b]
  cases a.compare b <;> decide

theorem compare_eq_eq_iff : a.compare b = .eq ↔ a.compare b ≠ .gt ∧ b.compare a ≠ .gt := by
  rw [compare_swap a b]
  cases a.compare b <;> decide

/-- Being no worse is transitive. -/
theorem Regular.not_worse_trans (first : a.Regular) (second : b.Regular) (third : c.Regular)
    (better : a.compare b ≠ .gt) (further : b.compare c ≠ .gt) : a.compare c ≠ .gt := by
  rw [first.not_worse_iff second] at better
  rw [second.not_worse_iff third] at further
  rw [first.not_worse_iff third]
  omega

/-- What is better than a cost is better than all that are no better than this one. -/
theorem Regular.better_trans (first : a.Regular) (second : b.Regular) (third : c.Regular)
    (better : a.compare b = .lt) (further : b.compare c ≠ .gt) : a.compare c = .lt := by
  rw [compare_eq_lt_iff] at better ⊢
  by_contra notWorse
  exact second.not_worse_trans third first further notWorse better

theorem compare_self (cost : Cost) : cost.compare cost = .eq := by
  have hswap := compare_swap cost cost
  cases hself : cost.compare cost with
  | eq => rfl
  | lt | gt =>
      rw [hself] at hswap
      cases hswap

/-- The costs that come about: those of conversions, and those of arguments that an ellipsis takes. -/
inductive Arises : Cost → Prop where
  | conversion {source target : Descriptor} {nested : Bool} {table after : Table} {cost : Cost}
      (converted : Analysis.conversionCost source target nested table = .ok cost after) : Arises cost
  | ellipsis (table : Table) (source : Descriptor) : Arises (table.ellipsisCost source)

end Cost

namespace Table.Ranked

variable {table : Table} {base cost : Cost}

/-- The steps without user-defined functions never end with one. -/
theorem rank_ne_userDefined (ranked : table.Ranked base cost) (unranked : base.rank = .noMatch) :
    cost.rank ≠ .userDefined := by
  intro user
  cases ranked with
  | noMatch => cases unranked.symm.trans user
  | _ => cases user

/-- Where no step applies, the operands are left alone. -/
theorem eq_of_not_match (ranked : table.Ranked base cost) (fails : cost.isMatch = false) : cost = base := by
  cases ranked with
  | noMatch => rfl
  | _ => cases fails

end Table.Ranked

/-- All costs that come about are regular. -/
theorem Cost.Arises.regular {cost : Cost} (arises : cost.Arises) : cost.Regular := by
  cases arises with
  | ellipsis => exact ⟨nofun, nofun⟩
  | conversion converted =>
      obtain ⟨_, _, _, _, standard, -, -, hstandard, hdecided⟩ := Analysis.conversionCost_ok converted
      rw [Table.standardCost_eq_rankedCost] at hstandard
      have hranked := Table.Ranked.of_rankedCost hstandard
      have hstep : standard.Regular :=
        ⟨fun user => absurd user (hranked.rank_ne_userDefined rfl),
          fun user => absurd user (hranked.rank_ne_userDefined rfl)⟩
      cases hdecided with
      | standard => exact hstep
      | unconverted => exact hstep
      | userDefined unsettled =>
          simp only [Bool.or_eq_false_iff] at unsettled
          rw [hranked.eq_of_not_match unsettled.1.1]
          exact ⟨fun _ => rfl, fun _ => rfl⟩

/-! ## The pass over the functions -/

namespace Contest

variable {entries reordered : List (SymbolId × Cost)} {entry : SymbolId × Cost} {best : Contest}
  {outcome other : UserDefined}

/-- What the outcome says of the functions that enter, which may be listed in any order. -/
structure Decides (entries : List (SymbolId × Cost)) (outcome : UserDefined) : Prop where
  none : outcome = .none ↔ entries = []
  function : ∀ function, outcome = .function function ↔
    ∃ cost others, entries.Perm ((function, cost) :: others) ∧ ∀ other ∈ others, cost.compare other.2 = .lt
  ambiguous : outcome = .ambiguous ↔
    ∃ first second others, entries.Perm (first :: second :: others) ∧ first.2.compare second.2 = .eq ∧
      ∀ other ∈ others, first.2.compare other.2 ≠ .gt

/-- The order of the functions does not matter. -/
theorem Decides.eq_of_perm (decides : Decides entries outcome) (again : Decides reordered other)
    (same : reordered.Perm entries) : other = outcome := by
  cases outcome with
  | none => exact again.none.mpr (decides.none.mp rfl ▸ same).eq_nil
  | function function =>
      obtain ⟨cost, others, hperm, hbetter⟩ := (decides.function function).mp rfl
      exact (again.function function).mpr ⟨cost, others, same.trans hperm, hbetter⟩
  | ambiguous =>
      obtain ⟨first, second, others, hperm, hequal, hleast⟩ := decides.ambiguous.mp rfl
      exact again.ambiguous.mpr ⟨first, second, others, same.trans hperm, hequal, hleast⟩

/-- The best function so far is no worse than any other one, and it is tied if one of these is as good. -/
def Standing (best : Contest) (entries : List (SymbolId × Cost)) : Prop :=
  ∃ others, entries.Perm ((best.function, best.cost) :: others) ∧
    (∀ other ∈ others, best.cost.compare other.2 ≠ .gt) ∧
      (best.tied = true ↔ ∃ other ∈ others, best.cost.compare other.2 = .eq)

/-- One more function enters. -/
theorem Standing.enter (standing : best.Standing entries) (regular : ∀ other ∈ entries, other.2.Regular)
    (entered : entry.2.Regular) :
    ∃ next, Contest.enter (some best) entry = some next ∧ next.Standing (entries ++ [entry]) := by
  obtain ⟨others, hperm, hleast, htied⟩ := standing
  have hadded : (entries ++ [entry]).Perm (entry :: (best.function, best.cost) :: others) :=
    List.perm_append_singleton entry entries |>.trans (hperm.cons entry)
  have hbest : best.cost.Regular :=
    regular (best.function, best.cost) (hperm.mem_iff.mpr List.mem_cons_self)
  have hswap := Cost.compare_swap entry.2 best.cost
  cases hcompare : entry.2.compare best.cost with
  | lt =>
      have hbetter : ∀ other ∈ (best.function, best.cost) :: others, entry.2.compare other.2 = .lt := by
        intro other member
        rcases List.mem_cons.mp member with rfl | later
        · exact hcompare
        · exact entered.better_trans hbest (regular other (hperm.mem_iff.mpr member)) hcompare
            (hleast other later)
      refine ⟨⟨entry.1, entry.2, false⟩, by simp only [Contest.enter, hcompare], _, hadded,
        fun other member => ?_, by simp, ?_⟩
      · simp [hbetter other member]
      · rintro ⟨other, member, hequal⟩
        cases (hbetter other member).symm.trans hequal
  | eq =>
      rw [hcompare] at hswap
      refine ⟨{ best with tied := true }, by simp only [Contest.enter, hcompare], entry :: others,
        hadded.trans (.swap ..), fun other member => ?_, fun _ => ⟨entry, List.mem_cons_self, hswap⟩,
        fun _ => rfl⟩
      rcases List.mem_cons.mp member with rfl | earlier
      · simp [hswap, Ordering.swap]
      · exact hleast other earlier
  | gt =>
      rw [hcompare] at hswap
      refine ⟨best, by simp only [Contest.enter, hcompare], entry :: others, hadded.trans (.swap ..),
        fun other member => ?_, ?_⟩
      · rcases List.mem_cons.mp member with rfl | earlier
        · simp [hswap, Ordering.swap]
        · exact hleast other earlier
      · simp [htied, hswap, Ordering.swap]

/-- What is known when the pass is over. -/
theorem standing_foldl (entries : List (SymbolId × Cost)) (regular : ∀ entry ∈ entries, entry.2.Regular) :
    entries = [] ∨ ∃ best, entries.foldl Contest.enter none = some best ∧ best.Standing entries := by
  induction entries using List.reverseRecOn with
  | nil => exact .inl rfl
  | append_singleton earlier entry ih =>
      right
      have hearlier : ∀ other ∈ earlier, other.2.Regular :=
        fun other member => regular other (List.mem_append_left _ member)
      rw [List.foldl_append]
      rcases ih hearlier with rfl | ⟨best, hbest, hstanding⟩
      · exact ⟨⟨entry.1, entry.2, false⟩, rfl, [], .refl _, fun _ member => absurd member List.not_mem_nil,
          by simp⟩
      · rw [hbest]
        exact hstanding.enter hearlier (regular entry (List.mem_append_right _ List.mem_cons_self))

/-- As long as the best function is not tied, it is better than all others. -/
theorem better_of_untied {others : List (SymbolId × Cost)}
    (least : ∀ other ∈ others, best.cost.compare other.2 ≠ .gt)
    (tied : best.tied = true ↔ ∃ other ∈ others, best.cost.compare other.2 = .eq) (untied : ¬ best.tied = true) :
    ∀ other ∈ others, best.cost.compare other.2 = .lt := by
  intro other member
  cases hcompare : best.cost.compare other.2 with
  | lt => rfl
  | eq => exact absurd (tied.mpr ⟨other, member, hcompare⟩) untied
  | gt => exact absurd hcompare (least other member)

/-- A function that is better than all others is the best one, and it is not tied. -/
theorem Standing.eq_of_better (standing : best.Standing entries) {function : SymbolId} {cost : Cost}
    {others : List (SymbolId × Cost)} (listed : entries.Perm ((function, cost) :: others))
    (better : ∀ other ∈ others, cost.compare other.2 = .lt) : best.function = function ∧ best.tied = false := by
  obtain ⟨rivals, hperm, hleast, htied⟩ := standing
  have hbest : (best.function, best.cost) ∈ (function, cost) :: others :=
    listed.mem_iff.mp (hperm.mem_iff.mpr List.mem_cons_self)
  have hcost : (function, cost) ∈ (best.function, best.cost) :: rivals :=
    hperm.mem_iff.mp (listed.mem_iff.mpr List.mem_cons_self)
  rcases List.mem_cons.mp hbest with hsame | hother
  · cases hsame
    have hrivals := (hperm.symm.trans listed).cons_inv
    refine ⟨rfl, Bool.eq_false_iff.mpr fun tied => ?_⟩
    obtain ⟨rival, member, hequal⟩ := htied.mp tied
    cases (better rival (hrivals.mem_iff.mp member)).symm.trans hequal
  · exfalso
    have hworse := Cost.compare_eq_lt_iff.mp (better _ hother)
    rcases List.mem_cons.mp hcost with hsame | hrival
    · cases hsame
      cases (Cost.compare_self _).symm.trans hworse
    · exact hleast _ hrival hworse

/-- Two functions that are as good as each other, and no worse than the rest, tie the best one. -/
theorem Standing.tied_of_equal (standing : best.Standing entries) {first second : SymbolId × Cost}
    {others : List (SymbolId × Cost)} (listed : entries.Perm (first :: second :: others))
    (equal : first.2.compare second.2 = .eq) (least : ∀ other ∈ others, first.2.compare other.2 ≠ .gt) :
    best.tied = true := by
  obtain ⟨rivals, hperm, hleast, htied⟩ := standing
  by_contra untied
  have hbetter := better_of_untied hleast htied untied
  -- The best one would stand for at most one of the two, and be better than the other one.
  have hfirst : first ≠ (best.function, best.cost) := by
    rintro rfl
    have hrivals := (hperm.symm.trans listed).cons_inv
    cases equal.symm.trans (hbetter second (hrivals.mem_iff.mpr List.mem_cons_self))
  have hsecond : second ≠ (best.function, best.cost) := by
    rintro rfl
    have hrivals := (hperm.symm.trans (listed.trans (.swap ..))).cons_inv
    have hworse := Cost.compare_eq_lt_iff.mp (hbetter first (hrivals.mem_iff.mpr List.mem_cons_self))
    cases equal.symm.trans hworse
  have hbest : (best.function, best.cost) ∈ others := by
    rcases List.mem_cons.mp (listed.mem_iff.mp (hperm.mem_iff.mpr List.mem_cons_self)) with same | later
    · exact absurd same.symm hfirst
    · exact (List.mem_cons.mp later).resolve_left hsecond.symm
  have hrival : first ∈ rivals :=
    (List.mem_cons.mp (hperm.mem_iff.mp (listed.mem_iff.mpr List.mem_cons_self))).resolve_left hfirst
  exact least _ hbest (Cost.compare_eq_lt_iff.mp (hbetter first hrival))

/-- One pass decides between the functions. -/
theorem decides_foldl (entries : List (SymbolId × Cost)) (regular : ∀ entry ∈ entries, entry.2.Regular) :
    Decides entries (Contest.outcome (entries.foldl Contest.enter none)) := by
  rcases standing_foldl entries regular with rfl | ⟨best, hbest, hstanding⟩
  · exact {
      none := ⟨fun _ => rfl, fun _ => rfl⟩
      function := fun function => ⟨nofun, fun ⟨_, _, hperm, _⟩ => nomatch hperm.nil_eq⟩
      ambiguous := ⟨nofun, fun ⟨_, _, _, hperm, _⟩ => nomatch hperm.nil_eq⟩ }
  · have hstands := hstanding
    obtain ⟨others, hperm, hleast, htied⟩ := hstanding
    have hsome : entries ≠ [] := by
      rintro rfl
      exact nomatch hperm.nil_eq
    rw [hbest, outcome]
    constructor
    case none => cases best.tied <;> simp [hsome]
    case function =>
      intro function
      constructor
      · intro decided
        split at decided
        · cases decided
        · rename_i untied
          cases decided
          exact ⟨best.cost, others, hperm, better_of_untied hleast htied untied⟩
      · rintro ⟨cost, rest, hlisted, hbetter⟩
        obtain ⟨hfunction, huntied⟩ := hstands.eq_of_better hlisted hbetter
        simp [hfunction, huntied]
    case ambiguous =>
      constructor
      · intro decided
        split at decided
        · rename_i tied
          obtain ⟨other, member, hequal⟩ := htied.mp tied
          obtain ⟨before, after, rfl⟩ := List.mem_iff_append.mp member
          refine ⟨(best.function, best.cost), other, before ++ after,
            hperm.trans (List.perm_middle.cons _), hequal, fun rest kept => hleast rest ?_⟩
          exact List.perm_middle.mem_iff.mpr (List.mem_cons_of_mem other kept)
        · cases decided
      · rintro ⟨first, second, rest, hlisted, hequal, hno⟩
        rw [if_pos (hstands.tied_of_equal hlisted hequal hno)]

end Contest

/-! ## The functions of a class -/

/-- The functions of a survey whose return types convert. -/
def matchingConversions (survey : List (SymbolId × Option Cost)) : List (SymbolId × Cost) :=
  survey.filterMap fun entry => (entry.2.filter (·.isMatch)).map (entry.1, ·)

namespace Analysis

variable {source target : Descriptor} {function : SymbolId} {functions : List SymbolId}
  {survey : List (SymbolId × Option Cost)} {table after : Table}

/-- What it costs to convert the return type of a function to `target`; a function that has none costs nothing. -/
def conversionOf (target : Descriptor) (function : SymbolId) : Analysis (SymbolId × Option Cost) := do
  let table ← get
  match (table.symbol function).returnType with
  | none => pure (function, none)
  | some type => do
      let cost ← conversionCost type target true
      pure (function, some cost)

/-- What the functions of a list cost, one after the other. -/
def surveyConversions (target : Descriptor) (functions : List SymbolId) :
    Analysis (List (SymbolId × Option Cost)) :=
  functions.mapM (conversionOf target)

/-- No user-defined function is looked for while another one is. -/
theorem conversionCost_nested (source target : Descriptor) :
    conversionCost source target true = nestedCost source target := by
  funext table
  rw [conversionCost]
  cases hcost : nestedCost source target table with
  | error => rw [bind_error hcost]
  | ok cost after =>
      rw [bind_ok hcost, Bool.or_true, Bool.true_or, if_pos rfl]
      rfl

/-- A function costs nothing if it returns nothing, and else what its return type costs. -/
theorem conversionOf_ok {entry : SymbolId × Option Cost}
    (found : conversionOf target function table = .ok entry after) :
    ((table.symbol function).returnType = none ∧ entry = (function, none) ∧ after = table) ∨
      ∃ type cost, (table.symbol function).returnType = some type ∧
        conversionCost type target true table = .ok cost after ∧ entry = (function, some cost) := by
  rw [conversionOf, get_bind] at found
  cases hreturn : (table.symbol function).returnType with
  | none =>
      simp only [hreturn] at found
      cases found
      exact .inl ⟨rfl, rfl, rfl⟩
  | some type =>
      simp only [hreturn] at found
      obtain ⟨cost, middle, hcost, hfound⟩ := bind_eq_ok.mp found
      cases hfound
      exact .inr ⟨type, cost, rfl, hcost, rfl⟩

/-- Considering one more function adds it if its return type converts. -/
theorem considerConversion_eq (target : Descriptor) (entries : List (SymbolId × Cost)) (function : SymbolId) :
    considerConversion target entries function = (do
      let entry ← conversionOf target function
      pure (entries ++ matchingConversions [entry])) := by
  funext table
  rw [considerConversion, conversionOf, bind_assoc, get_bind, get_bind]
  cases (table.symbol function).returnType with
  | none =>
      change EStateM.Result.ok entries table = .ok (entries ++ []) table
      rw [List.append_nil]
  | some type =>
      simp only [conversionCost_nested, bind_assoc, pure_bind]
      refine congrArg (fun next => (nestedCost type target >>= next) table) (funext fun cost => ?_)
      cases hmatch : cost.isMatch <;> simp [matchingConversions, hmatch]

/-- So considering the functions one after the other is the same as surveying them first. -/
theorem foldlM_considerConversion (target : Descriptor) (functions : List SymbolId)
    (entries : List (SymbolId × Cost)) :
    functions.foldlM (considerConversion target) entries = (do
      let survey ← surveyConversions target functions
      pure (entries ++ matchingConversions survey)) := by
  induction functions generalizing entries with
  | nil => simp [surveyConversions, matchingConversions]
  | cons function rest ih =>
      simp only [List.foldlM_cons, considerConversion_eq, ih, surveyConversions, List.mapM_cons, bind_assoc,
        pure_bind, List.append_assoc, matchingConversions, ← List.filterMap_append, List.singleton_append]

theorem bestConversionFunction_apply (id : SymbolId) (target : Descriptor) (table : Table) :
    bestConversionFunction id target table = (do
      let survey ← surveyConversions target (table.conversionFunctions id)
      pure (Contest.outcome ((matchingConversions survey).foldl Contest.enter none)) : Analysis UserDefined)
        table := by
  rw [bestConversionFunction, get_bind, foldlM_considerConversion]
  simp only [bind_assoc, pure_bind, List.nil_append]

/-- An entry of a survey was found after the functions before it. -/
theorem exists_of_mem_survey (surveyed : surveyConversions target functions table = .ok survey after)
    {entry : SymbolId × Option Cost} (member : entry ∈ survey) :
    ∃ before rest earlier reached last, functions = before ++ entry.1 :: rest ∧
      surveyConversions target before table = .ok earlier reached ∧
      conversionOf target entry.1 reached = .ok entry last := by
  induction functions generalizing table survey with
  | nil =>
      rw [surveyConversions, List.mapM_nil] at surveyed
      cases surveyed
      exact absurd member List.not_mem_nil
  | cons function rest ih =>
      rw [surveyConversions, List.mapM_cons] at surveyed
      obtain ⟨first, middle, hfirst, hrest⟩ := bind_eq_ok.mp surveyed
      obtain ⟨others, last, hothers, hsurvey⟩ := bind_eq_ok.mp hrest
      cases hsurvey
      rcases List.mem_cons.mp member with rfl | later
      · have hfunction : entry.1 = function := by
          rcases conversionOf_ok hfirst with ⟨-, rfl, -⟩ | ⟨_, _, -, -, rfl⟩ <;> rfl
        rw [hfunction]
        exact ⟨[], rest, [], table, middle, rfl, rfl, hfirst⟩
      · obtain ⟨before, after, earlier, reached, final, hlisted, hearlier, hfound⟩ := ih hothers later
        refine ⟨function :: before, after, first :: earlier, reached, final, by rw [hlisted]; rfl, ?_, hfound⟩
        rw [surveyConversions, List.mapM_cons]
        exact bind_eq_ok.mpr ⟨first, middle, hfirst, bind_eq_ok.mpr ⟨earlier, reached, hearlier, rfl⟩⟩

theorem mem_matchingConversions {cost : Cost} :
    (function, cost) ∈ matchingConversions survey ↔ (function, some cost) ∈ survey ∧ cost.isMatch = true := by
  simp only [matchingConversions, List.mem_filterMap, Option.map_eq_some_iff, Option.filter_eq_some_iff,
    Prod.mk.injEq]
  constructor
  · rintro ⟨⟨_, _⟩, hlisted, _, ⟨rfl, hmatch⟩, rfl, rfl⟩
    exact ⟨hlisted, hmatch⟩
  · rintro ⟨hlisted, hmatch⟩
    exact ⟨_, hlisted, cost, ⟨rfl, hmatch⟩, rfl, rfl⟩

/-- The costs that a survey finds come about by conversions. -/
theorem regular_of_survey (surveyed : surveyConversions target functions table = .ok survey after) :
    ∀ entry ∈ matchingConversions survey, entry.2.Regular := by
  rintro ⟨function, cost⟩ member
  obtain ⟨hlisted, -⟩ := mem_matchingConversions.mp member
  obtain ⟨_, _, _, _, _, -, -, hfound⟩ := exists_of_mem_survey surveyed hlisted
  rcases conversionOf_ok hfound with ⟨-, hnone, -⟩ | ⟨_, found, -, hcost, hsame⟩
  · cases hnone
  · cases hsame
    exact (Cost.Arises.conversion hcost).regular

/-- The costs of conversions are totally preordered, although conversions through different functions are equally
good.  So if the costs of all conversion functions of a class and its bases can be found, one pass over those
that match finds none if there are none, the one that is strictly better than all others if there is one, and
otherwise that the best ones are ambiguous; and the order in which they are listed does not matter. -/
theorem best_conversion_order_independent :
    (∀ a b c : Cost, a.Arises → b.Arises → c.Arises →
      b.compare a = (a.compare b).swap ∧
        (a.compare b ≠ .gt → b.compare c ≠ .gt → a.compare c ≠ .gt) ∧
        (a.compare b = .eq → b.compare c = .eq → a.compare c = .eq)) ∧
    ∀ table id target survey after,
      surveyConversions target (table.conversionFunctions id) table = .ok survey after →
        ∃ outcome, bestConversionFunction id target table = .ok outcome after ∧
          (outcome = .none ↔ ∀ entry ∈ survey, ∀ cost, entry.2 = some cost → cost.isMatch = false) ∧
          Contest.Decides (matchingConversions survey) outcome ∧
          ∀ reordered : List (SymbolId × Cost), reordered.Perm (matchingConversions survey) →
            Contest.outcome (reordered.foldl Contest.enter none) = outcome := by
  refine ⟨fun a b c first second third => ⟨Cost.compare_swap a b,
    first.regular.not_worse_trans second.regular third.regular, fun equal further => ?_⟩, ?_⟩
  · rw [Cost.compare_eq_eq_iff] at equal further ⊢
    exact ⟨first.regular.not_worse_trans second.regular third.regular equal.1 further.1,
      third.regular.not_worse_trans second.regular first.regular further.2 equal.2⟩
  · intro table id target survey after surveyed
    have hregular := regular_of_survey surveyed
    have hdecides := Contest.decides_foldl _ hregular
    refine ⟨_, ?_, ?_, hdecides, fun reordered same => ?_⟩
    · rw [bestConversionFunction_apply, bind_ok surveyed]
      rfl
    · rw [hdecides.none, matchingConversions, List.filterMap_eq_nil_iff]
      simp [Option.filter_eq_none_iff]
    · exact hdecides.eq_of_perm
        (Contest.decides_foldl reordered fun entry member => hregular entry (same.mem_iff.mp member)) same

/-! ## A run -/

/-- Add a constructor with one parameter to a class. -/
def declareConstructor (owner : SymbolId) (source : Descriptor) : Analysis Unit := do
  let constructor ← createFunction ⟨17⟩ .function
  discard (addParameterType constructor source)
  addConstructor owner constructor

/-- Add a conversion function to a class. -/
def declareConversion (owner : SymbolId) (target : Descriptor) : Analysis Unit := do
  let function ← createFunction ⟨17⟩ .function
  setReturnType function target
  addConversion owner function

/-- A class 1 that is made from int by the function 2 and converts to int by the function 4, and a class 5 that
derives from it, is made from double by the function 6, and converts to float by the function 8. -/
def convertingClasses : Table :=
  finalTable (Table.new { nestingLimit := 8 }) do
    let base ← createClass ⟨18⟩ .struct
    declareConstructor base (.ofKind .int)
    declareConversion base (.ofKind .int)
    let derived ← createClass ⟨19⟩ .struct
    declareConstructor derived (.ofKind .double)
    declareConversion derived (.ofKind .float)
    addParent derived base .pub false

/-- Is this the cost of a conversion through the function? -/
def usesFunction (function : SymbolId) (cost : Cost) : Bool :=
  cost.rank == .userDefined && cost.userDefined == .function function

theorem exists_of_usesFunction {nested : Bool}
    (uses : endsPassing (usesFunction function) (conversionCost source target nested table) = true) :
    ∃ cost after, conversionCost source target nested table = .ok cost after ∧ cost.rank = .userDefined ∧
      cost.userDefined = .function function := by
  obtain ⟨cost, after, hcost, hpasses⟩ := exists_of_endsPassing uses
  rw [usesFunction, Bool.and_eq_true, beq_iff_eq, beq_iff_eq] at hpasses
  exact ⟨cost, after, hcost, hpasses⟩

theorem conversionFunctions_convertingClasses : convertingClasses.conversionFunctions ⟨5⟩ = [⟨8⟩, ⟨4⟩] := by cbv

/-- An int is converted to either class by its constructor, at costs that are equal and no worse than an ellipsis.
The derived class is converted to int by the function of its base, although that is found last. -/
theorem function_of_base_chosen :
    (∃ toBase toDerived afterBase afterDerived,
      conversionCost (.ofKind .int) (.ofSymbol ⟨1⟩) false convertingClasses = .ok toBase afterBase ∧
      conversionCost (.ofKind .int) (.ofSymbol ⟨5⟩) false convertingClasses = .ok toDerived afterDerived ∧
      toBase.userDefined = .function ⟨2⟩ ∧ toDerived.userDefined = .function ⟨6⟩ ∧
      toDerived.compare toBase = (toBase.compare toDerived).swap ∧
      toBase.compare (convertingClasses.ellipsisCost (.ofKind .int)) ≠ .gt) ∧
    ∃ survey after,
      surveyConversions (.ofKind .int) (convertingClasses.conversionFunctions ⟨5⟩) convertingClasses =
        .ok survey after ∧
      bestConversionFunction ⟨5⟩ (.ofKind .int) convertingClasses = .ok (.function ⟨4⟩) after ∧
      ∃ cost others, (matchingConversions survey).Perm ((⟨4⟩, cost) :: others) ∧
        ∀ other ∈ others, cost.compare other.2 = .lt := by
  obtain ⟨hordered, hbest⟩ := best_conversion_order_independent
  constructor
  · have husesBase : endsPassing (usesFunction ⟨2⟩)
        (conversionCost (.ofKind .int) (.ofSymbol ⟨1⟩) false convertingClasses) = true := by decide +kernel
    have husesDerived : endsPassing (usesFunction ⟨6⟩)
        (conversionCost (.ofKind .int) (.ofSymbol ⟨5⟩) false convertingClasses) = true := by decide +kernel
    obtain ⟨toBase, afterBase, hbase, hbaseRank, hbaseFunction⟩ := exists_of_usesFunction husesBase
    obtain ⟨toDerived, afterDerived, hderived, hderivedRank, hderivedFunction⟩ :=
      exists_of_usesFunction husesDerived
    have hcosts := hordered toBase toDerived (convertingClasses.ellipsisCost (.ofKind .int)) (.conversion hbase)
      (.conversion hderived) (.ellipsis ..)
    have hbelow : Ord.compare Rank.userDefined.order Rank.ellipsis.order = .lt := rfl
    refine ⟨toBase, toDerived, afterBase, afterDerived, hbase, hderived, hbaseFunction, hderivedFunction, hcosts.1,
      hcosts.2.1 ?_ ?_⟩
    · simp [Cost.compare, hbaseRank, hbaseFunction, hderivedRank, hderivedFunction]
    · simp [Cost.compare, hderivedRank, Table.ellipsisCost, Cost.ofEllipsis, hbelow]
  · obtain ⟨survey, after, hsurvey, -⟩ := exists_of_endsPassing (by decide +kernel :
      endsPassing (fun _ => true) (surveyConversions (.ofKind .int) [⟨8⟩, ⟨4⟩] convertingClasses) = true)
    rw [← conversionFunctions_convertingClasses] at hsurvey
    obtain ⟨outcome, houtcome, -, hdecides, -⟩ := hbest convertingClasses ⟨5⟩ (.ofKind .int) survey after hsurvey
    have hpasses : endsPassing (fun entries => Contest.outcome (entries.foldl Contest.enter none) = .function ⟨4⟩)
        ([⟨8⟩, ⟨4⟩].foldlM (considerConversion (.ofKind .int)) [] convertingClasses) = true := by
      decide +kernel
    obtain ⟨entries, reached, hentries, hfunction⟩ := exists_of_endsPassing hpasses
    have hchosen := houtcome
    rw [bestConversionFunction, get_bind, conversionFunctions_convertingClasses, bind_ok hentries] at hchosen
    cases hchosen
    rw [of_decide_eq_true hfunction] at houtcome hdecides
    exact ⟨survey, after, hsurvey, houtcome, (hdecides.function ⟨4⟩).mp rfl⟩

end Analysis

end NameBinding
