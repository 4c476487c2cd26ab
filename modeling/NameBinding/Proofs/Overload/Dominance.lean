import Mathlib
import NameBinding.Overload.Candidate

/-!
# The dominating candidate

Overload resolution goes through the viable candidates once, with the best one so far in hand, and
then checks that this one beats all others.  Beating is no linear order: two candidates may each be
better for one argument, and conversions through different functions are equally good.  It is
asymmetric, though, and that is enough for the pass to find the candidate that beats every other one
wherever it stands in the list.

* `Cost.compare_swap`, `compareCosts_swap`, `winsTie_asymm`: the parts of the comparison are
  asymmetric.
* `bestViable_eq_some_iff`: the pass finds the dominating candidate if there is one.
* `bestViable_alike`: the answer depends neither on the order nor on how functions are numbered, nor
  on more of the table than the tie-breaks.
-/

namespace NameBinding

/-! ## Comparing candidates -/

theorem Rank.order_injective {a b : Rank} (same : a.order = b.order) : a = b := by
  cases a <;> cases b <;> first | rfl | simp [Rank.order] at same

namespace Cost

theorem compareDetail_swap (a b : Cost) : b.compareDetail a = (a.compareDetail b).swap := by
  rw [compareDetail, compareDetail, Ordering.swap_then, Nat.compare_swap, Nat.compare_swap]

theorem compare_swap (a b : Cost) : b.compare a = (a.compare b).swap := by
  rw [compare, compare, Ordering.swap_then, Nat.compare_swap]
  by_cases hrank : a.rank = b.rank
  · -- Of one rank, both are compared in the same way.
    rw [hrank, Nat.compare_eq_eq.mpr rfl, Ordering.then, Ordering.then]
    cases b.rank <;> cases a.userDefined <;> cases b.userDefined <;>
      try exact compareDetail_swap a b
    rename_i f g
    by_cases hsame : f = g
    · simp only [hsame, if_true]
      exact compareDetail_swap a b
    · simp only [hsame, Ne.symm hsame, if_false, Ordering.swap]
  · have horder : b.rank.order ≠ a.rank.order := fun same => hrank (Rank.order_injective same.symm)
    have hcompare : Ord.compare b.rank.order a.rank.order ≠ .eq := mt Nat.compare_eq_eq.mp horder
    cases hfirst : Ord.compare b.rank.order a.rank.order with
    | eq => exact absurd hfirst hcompare
    | lt | gt => rfl

end Cost

section

variable {a b : List Cost}

theorem contains_outcomes_iff {outcome : Ordering} :
    ((a.zip b).map fun (x, y) => x.compare y).contains outcome = true ↔
      ∃ pair ∈ a.zip b, pair.1.compare pair.2 = outcome := by
  simp

theorem compareCosts_eq_lt_iff :
    compareCosts a b = some .lt ↔
      (∀ pair ∈ a.zip b, pair.1.compare pair.2 ≠ .gt) ∧
        ∃ pair ∈ a.zip b, pair.1.compare pair.2 = .lt := by
  have hnotWorse : (∀ pair ∈ a.zip b, pair.1.compare pair.2 ≠ .gt) ↔
      ¬ ∃ pair ∈ a.zip b, pair.1.compare pair.2 = .gt := by simp
  rw [hnotWorse, ← contains_outcomes_iff, ← contains_outcomes_iff]
  simp only [compareCosts]
  split <;> simp_all

theorem compareCosts_eq_eq_iff :
    compareCosts a b = some .eq ↔ ∀ pair ∈ a.zip b, pair.1.compare pair.2 = .eq := by
  have hequal : (∀ pair ∈ a.zip b, pair.1.compare pair.2 = .eq) ↔
      (¬ ∃ pair ∈ a.zip b, pair.1.compare pair.2 = .lt) ∧
        ¬ ∃ pair ∈ a.zip b, pair.1.compare pair.2 = .gt := by
    constructor
    · intro equal
      constructor
      · rintro ⟨pair, member, better⟩
        exact absurd ((equal pair member).symm.trans better) (by decide)
      · rintro ⟨pair, member, worse⟩
        exact absurd ((equal pair member).symm.trans worse) (by decide)
    · rintro ⟨notBetter, notWorse⟩ pair member
      cases hcompare : pair.1.compare pair.2 with
      | lt => exact absurd ⟨pair, member, hcompare⟩ notBetter
      | eq => rfl
      | gt => exact absurd ⟨pair, member, hcompare⟩ notWorse
  rw [hequal, ← contains_outcomes_iff, ← contains_outcomes_iff]
  simp only [compareCosts]
  split <;> simp_all

theorem mem_zip_swap {pair : Cost × Cost} (member : pair ∈ a.zip b) : pair.swap ∈ b.zip a := by
  rw [← List.zip_swap]
  exact List.mem_map_of_mem member

end

namespace Table

/-- `a` beats `b`: no argument converts worse and one converts better, or all arguments convert
equally well and `a` wins the tie. -/
def Beats (table : Table) (a b : Viable) : Prop :=
  ((∀ pair ∈ a.costs.zip b.costs, pair.1.compare pair.2 ≠ .gt) ∧
      ∃ pair ∈ a.costs.zip b.costs, pair.1.compare pair.2 = .lt) ∨
    ((∀ pair ∈ a.costs.zip b.costs, pair.1.compare pair.2 = .eq) ∧
      table.winsTie a.function b.function = true)

variable {table : Table} {a b : Viable}

theorem isBetter_iff : table.isBetter a b = true ↔ table.Beats a b := by
  rw [Beats, ← compareCosts_eq_lt_iff, ← compareCosts_eq_eq_iff, isBetter]
  cases compareCosts a.costs b.costs with
  | none => simp
  | some ordering => cases ordering <;> simp

theorem winsTie_asymm {f g : SymbolId} (wins : table.winsTie f g = true) :
    table.winsTie g f = false := by
  unfold winsTie at wins ⊢
  cases hf : table.functionTemplateOf? f <;> cases hg : table.functionTemplateOf? g <;>
    simp_all

/-- A candidate is not beaten by one that it beats. -/
theorem Beats.asymm (beats : table.Beats a b) : ¬ table.Beats b a := by
  rcases beats with ⟨-, pair, member, better⟩ | ⟨equal, wins⟩
  · -- What converts better in one direction converts worse in the other.
    have hworse : pair.2.compare pair.1 = .gt := by rw [Cost.compare_swap, better, Ordering.swap]
    rintro (⟨notWorse, -⟩ | ⟨equal, -⟩)
    · exact notWorse _ (mem_zip_swap member) hworse
    · exact absurd ((equal _ (mem_zip_swap member)).symm.trans hworse) (by decide)
  · rintro (⟨-, pair, member, better⟩ | ⟨-, wins'⟩)
    · have hequal : pair.2.compare pair.1 = .eq := equal _ (mem_zip_swap member)
      rw [Cost.compare_swap, better, Ordering.swap] at hequal
      cases hequal
    · rw [winsTie_asymm wins] at wins'
      cases wins'

theorem isBetter_asymm (better : table.isBetter a b = true) : table.isBetter b a = false := by
  rw [isBetter_iff] at better
  rw [Bool.eq_false_iff, ne_eq, isBetter_iff]
  exact better.asymm

end Table

/-! ## Functions under other numbers -/

/-- The user-defined step with its function renamed. -/
def UserDefined.map (rename : SymbolId → SymbolId) : UserDefined → UserDefined
  | .function id => .function (rename id)
  | .none => .none
  | .ambiguous => .ambiguous

/-- What is compared is the same in both costs, but for the number of a user-defined function. -/
structure Cost.Alike (rename : SymbolId → SymbolId) (a b : Cost) : Prop where
  rank : b.rank = a.rank
  detail : b.detail = a.detail
  qualification : b.qualification = a.qualification
  userDefined : b.userDefined = a.userDefined.map rename

/-- The function is renamed, and its costs are alike. -/
structure Viable.Alike (rename : SymbolId → SymbolId) (a b : Viable) : Prop where
  function : b.function = rename a.function
  costs : List.Forall₂ (Cost.Alike rename) a.costs b.costs

section Renaming

variable {rename : SymbolId → SymbolId} (injective : Function.Injective rename)

theorem Cost.Alike.ambiguous_iff {a b : Cost} (alike : a.Alike rename b) :
    b.userDefined = .ambiguous ↔ a.userDefined = .ambiguous := by
  rw [alike.userDefined]
  cases a.userDefined <;> simp [UserDefined.map]

include injective

theorem Cost.Alike.compare_eq {a a' b b' : Cost} (first : a.Alike rename a') (second : b.Alike rename b') :
    a'.compare b' = a.compare b := by
  have hdetail : a'.compareDetail b' = a.compareDetail b := by
    rw [compareDetail, compareDetail, first.detail, first.qualification, second.detail, second.qualification]
  rw [compare, compare, first.rank, second.rank, first.userDefined, second.userDefined, hdetail]
  cases a.rank <;> cases a.userDefined <;> cases b.userDefined <;>
    simp only [UserDefined.map, injective.eq_iff]

theorem compareCosts_alike {a a' b b' : List Cost} (first : List.Forall₂ (Cost.Alike rename) a a')
    (second : List.Forall₂ (Cost.Alike rename) b b') : compareCosts a' b' = compareCosts a b := by
  have houtcomes : (a'.zip b').map (fun pair => pair.1.compare pair.2) =
      (a.zip b).map fun pair => pair.1.compare pair.2 := by
    induction first generalizing b b' with
    | nil => simp
    | cons head _ ih =>
        cases second with
        | nil => simp
        | cons head' rest' => simp [head.compare_eq injective head', ih rest']
  rw [compareCosts, compareCosts, houtcomes]

theorem Viable.Alike.beats_iff {table other : Table} {a a' b b' : Viable} (first : a.Alike rename a')
    (second : b.Alike rename b')
    (ties : compareCosts a.costs b.costs = some .eq →
      other.winsTie (rename a.function) (rename b.function) = table.winsTie a.function b.function) :
    table.Beats a b ↔ other.Beats a' b' := by
  rw [Table.Beats, Table.Beats, ← compareCosts_eq_lt_iff, ← compareCosts_eq_lt_iff, ← compareCosts_eq_eq_iff,
    ← compareCosts_eq_eq_iff, compareCosts_alike injective first.costs second.costs, first.function,
    second.function]
  refine or_congr_right (and_congr_right fun equal => ?_)
  rw [ties equal]

end Renaming

/-! ## One pass with the best in hand -/

section Champion

variable {α : Type} {beats : α → α → Bool}

/-- The element in hand after a pass that takes up whatever beats it. -/
def champion (beats : α → α → Bool) (first : α) (rest : List α) : α :=
  rest.foldl (fun best next => if beats next best then next else best) first

theorem champion_mem (beats : α → α → Bool) (first : α) (rest : List α) :
    champion beats first rest ∈ first :: rest := by
  induction rest generalizing first with
  | nil => exact List.mem_cons_self
  | cons next rest ih =>
      have hstep : champion beats first (next :: rest) =
          champion beats (if beats next first then next else first) rest := rfl
      rw [hstep]
      rcases List.mem_cons.mp (ih (if beats next first then next else first)) with hhead | hrest
      · rw [hhead]
        split
        · exact List.mem_cons_of_mem _ List.mem_cons_self
        · exact List.mem_cons_self
      · exact List.mem_cons_of_mem _ (List.mem_cons_of_mem _ hrest)

/-- An element that beats all others is in hand at the end. -/
theorem champion_eq (asymm : ∀ a b, beats a b = true → beats b a = false) {winner first : α}
    {rest : List α} (member : winner ∈ first :: rest)
    (all : ∀ other ∈ first :: rest, other ≠ winner → beats winner other = true) :
    champion beats first rest = winner := by
  induction rest generalizing first with
  | nil => exact (List.mem_singleton.mp member).symm
  | cons next rest ih =>
      -- Whichever of the first two is kept, the winner is among those left.
      have hkept : winner = first ∨ winner = next →
          (if beats next first then next else first) = winner := by
        rintro (rfl | rfl)
        · split
          · rename_i hnext
            by_cases hsame : next = winner
            · exact hsame
            · have hbeaten := asymm _ _ (all next (by simp) hsame)
              rw [hbeaten] at hnext
              cases hnext
          · rfl
        · split
          · rfl
          · rename_i hnext
            by_cases hsame : first = winner
            · exact hsame
            · exact absurd (all first (by simp) hsame) hnext
      refine ih ?_ fun other hother => all other ?_
      · rcases List.mem_cons.mp member with hfirst | hlater
        · exact hkept (.inl hfirst) ▸ List.mem_cons_self
        · rcases List.mem_cons.mp hlater with hnext | hrest
          · exact hkept (.inr hnext) ▸ List.mem_cons_self
          · exact List.mem_cons_of_mem _ hrest
      · rcases List.mem_cons.mp hother with rfl | hrest
        · show (if beats next first then next else first) ∈ first :: next :: rest
          split <;> simp
        · simp [hrest]

end Champion

namespace Table

variable {table other : Table} {viable renamed : List Viable} {rename : SymbolId → SymbolId}

theorem bestViable_cons (table : Table) (first : Viable) (rest : List Viable) :
    table.bestViable (first :: rest) =
      if (first :: rest).all fun entry =>
          entry.function == (champion table.isBetter first rest).function
            || table.isBetter (champion table.isBetter first rest) entry then
        some (champion table.isBetter first rest)
      else none := rfl

/-- The pass finds the candidate that beats every other one, if there is one. -/
theorem bestViable_eq_some_iff (distinct : (viable.map Viable.function).Nodup) {winner : Viable} :
    table.bestViable viable = some winner ↔
      winner ∈ viable ∧ ∀ entry ∈ viable, entry ≠ winner → table.Beats winner entry := by
  cases viable with
  | nil => simp [bestViable]
  | cons first rest =>
      have hinjective := List.inj_on_of_nodup_map distinct
      rw [bestViable_cons]
      constructor
      · intro found
        split at found
        · rename_i hall
          cases found
          have hmember := champion_mem table.isBetter first rest
          refine ⟨hmember, fun entry member hother => ?_⟩
          have hentry := List.all_eq_true.mp hall entry member
          rw [Bool.or_eq_true, beq_iff_eq, isBetter_iff] at hentry
          exact hentry.resolve_left fun same => hother (hinjective member hmember same)
        · cases found
      · rintro ⟨hmember, hbeats⟩
        have hwinner : champion table.isBetter first rest = winner :=
          champion_eq (fun _ _ => isBetter_asymm) hmember fun entry member hother =>
            isBetter_iff.mpr (hbeats entry member hother)
        rw [hwinner, if_pos]
        refine List.all_eq_true.mpr fun entry member => ?_
        rw [Bool.or_eq_true, beq_iff_eq, isBetter_iff]
        by_cases hsame : entry = winner
        · exact .inl (congrArg Viable.function hsame)
        · exact .inr (hbeats entry member hsame)

/-- No two candidates beat all others. -/
theorem dominating_unique {first second : Viable} (memberFirst : first ∈ viable)
    (memberSecond : second ∈ viable)
    (dominatesFirst : ∀ entry ∈ viable, entry ≠ first → table.Beats first entry)
    (dominatesSecond : ∀ entry ∈ viable, entry ≠ second → table.Beats second entry) :
    first = second := by
  apply Classical.byContradiction
  intro hdiffer
  have hfirst := dominatesFirst second memberSecond (Ne.symm hdiffer)
  exact hfirst.asymm (dominatesSecond first memberFirst hdiffer)

/-- The answer depends on which candidates there are, whatever their functions are called, and on the outcomes of
ties only. -/
theorem bestViable_alike (injective : Function.Injective rename)
    (distinct : (viable.map Viable.function).Nodup) (distinctToo : (renamed.map Viable.function).Nodup)
    (forth : ∀ a ∈ viable, ∃ b ∈ renamed, a.Alike rename b)
    (back : ∀ b ∈ renamed, ∃ a ∈ viable, a.Alike rename b)
    (ties : ∀ a ∈ viable, ∀ b ∈ viable, compareCosts a.costs b.costs = some .eq →
      other.winsTie (rename a.function) (rename b.function) = table.winsTie a.function b.function) :
    Option.Rel (Viable.Alike rename) (table.bestViable viable) (other.bestViable renamed) := by
  have hdistinct := List.inj_on_of_nodup_map distinct
  have hdistinctToo := List.inj_on_of_nodup_map distinctToo
  have hbeats : ∀ {a a' b b'}, a ∈ viable → b ∈ viable → a.Alike rename a' → b.Alike rename b' →
      (table.Beats a b ↔ other.Beats a' b') := fun memberA memberB alikeA alikeB =>
    alikeA.beats_iff injective alikeB (ties _ memberA _ memberB)
  cases hbest : table.bestViable viable with
  | some winner =>
      obtain ⟨hmember, hall⟩ := (bestViable_eq_some_iff distinct).mp hbest
      obtain ⟨winner', hmember', halike⟩ := forth winner hmember
      have hbest' : other.bestViable renamed = some winner' := by
        refine (bestViable_eq_some_iff distinctToo).mpr ⟨hmember', fun entry' member' differs => ?_⟩
        obtain ⟨entry, member, alike⟩ := back entry' member'
        refine (hbeats hmember member halike alike).mp (hall entry member ?_)
        rintro rfl
        exact differs (hdistinctToo member' hmember' (alike.function.trans halike.function.symm))
      rw [hbest']
      exact .some halike
  | none =>
      cases hbest' : other.bestViable renamed with
      | none => exact .none
      | some winner' =>
          obtain ⟨hmember', hall'⟩ := (bestViable_eq_some_iff distinctToo).mp hbest'
          obtain ⟨winner, hmember, halike⟩ := back winner' hmember'
          have hfound : table.bestViable viable = some winner := by
            refine (bestViable_eq_some_iff distinct).mpr ⟨hmember, fun entry member differs => ?_⟩
            obtain ⟨entry', member', alike⟩ := forth entry member
            refine (hbeats hmember member halike alike).mpr (hall' entry' member' ?_)
            rintro rfl
            exact differs (hdistinct member hmember (injective (alike.function.symm.trans halike.function)))
          rw [hbest] at hfound
          cases hfound

/-- The answer is the same for every order of the candidates. -/
theorem bestViable_perm (distinct : (viable.map Viable.function).Nodup) (perm : viable.Perm renamed) :
    table.bestViable renamed = table.bestViable viable := by
  have hdistinct := (perm.map Viable.function).nodup_iff.mp distinct
  apply Option.ext
  intro winner
  rw [bestViable_eq_some_iff hdistinct, bestViable_eq_some_iff distinct, perm.mem_iff]
  simp only [perm.mem_iff]

end Table

end NameBinding
