import NameBinding.Conversion.Qualification
import NameBinding.Proofs.Table.Signatures

/-!
# The ladder of qualifiers

A qualification conversion goes over the levels of a type once, from the top to the base, and remembers
whether all levels below the top have been const so far.  The rule that it checks compares levels in pairs:
where a level below the top gains a qualifier, every level between it and the top is const afterwards.

* `Descriptor.level`: the qualifiers of one level.
* `Descriptor.Qualifies` and `Descriptor.gained`: the rule, and the number of qualifiers that are added.
* `ladder_eq_some_iff`: what one pass over the levels checks.

The main statement is `qualification_is_ladder`: the pass agrees with the rule, and so conversions compose.
-/

namespace NameBinding

/-! ## Sets of qualifiers -/

namespace Cv

variable {a b c : Cv}

theorem includes_refl (a : Cv) : a.includes a = true := by
  obtain ⟨isConst, isVolatile⟩ := a
  cases isConst <;> cases isVolatile <;> rfl

theorem includes_trans (first : b.includes a = true) (second : c.includes b = true) :
    c.includes a = true := by
  simp only [includes, Bool.and_eq_true, Bool.or_eq_true, Bool.not_eq_true'] at *
  obtain ⟨hconst, hvolatile⟩ := first
  obtain ⟨hconst', hvolatile'⟩ := second
  constructor
  · rcases hconst with none | some
    · exact .inl none
    · exact .inr (hconst'.resolve_left (by simp [some]))
  · rcases hvolatile with none | some
    · exact .inl none
    · exact .inr (hvolatile'.resolve_left (by simp [some]))

theorem isConst_of_includes (more : b.includes a = true) (isConst : a.isConst = true) :
    b.isConst = true := by
  simp only [includes, Bool.and_eq_true, Bool.or_eq_true, Bool.not_eq_true'] at more
  exact more.1.resolve_left (by simp [isConst])

@[simp]
theorem count_diff_self (a : Cv) : (a.diff a).count = 0 := by
  simp [diff, count]

/-- What is added on the way is added in all. -/
theorem count_diff_add (first : b.includes a = true) (second : c.includes b = true) :
    (b.diff a).count + (c.diff b).count = (c.diff a).count := by
  obtain ⟨constA, volatileA⟩ := a
  obtain ⟨constB, volatileB⟩ := b
  obtain ⟨constC, volatileC⟩ := c
  revert first second
  cases constA <;> cases constB <;> cases constC <;> cases volatileA <;> cases volatileB <;>
    cases volatileC <;> decide

end Cv

namespace Descriptor

variable {source middle target : Descriptor} {added : Nat}

/-! ## Shapes and bases -/

theorem samePtrShape_iff : source.samePtrShape target = true ↔
    source.ops.map (fun op => (op.kind, op.memberOf)) = target.ops.map fun op => (op.kind, op.memberOf) := by
  obtain ⟨-, -, ops, -, -, -, -, -⟩ := source
  obtain ⟨-, -, ops', -, -, -, -, -⟩ := target
  simp only [samePtrShape]
  induction ops generalizing ops' with
  | nil => cases ops' <;> simp
  | cons op rest ih =>
      cases ops' with
      | nil => simp
      | cons op' rest' =>
          have hrest := ih rest'
          simp only [Bool.and_eq_true, beq_iff_eq] at hrest
          simp [PtrOp.sameShape, ← hrest, and_left_comm]

theorem sameBase_iff : source.sameBase target = true ↔
    source.kind = target.kind ∧ source.link = target.link ∧ source.flags.sizeSign = target.flags.sizeSign ∧
      bareAll source.templateArgs = bareAll target.templateArgs ∧ source.constant = target.constant := by
  simp [sameBase, sameAll_iff, and_assoc]

/-! ## Levels -/

/-- The qualifiers of one level, counted from the top.  There are none behind the base. -/
def level (type : Descriptor) (depth : Nat) : Cv := type.levels.getD depth Cv.none

theorem length_levels (type : Descriptor) : type.levels.length = type.ops.length + 1 := by
  simp [levels]

theorem level_behind (type : Descriptor) {depth : Nat} (behind : type.ops.length < depth) :
    type.level depth = Cv.none := by
  rw [level, List.getD_eq_default _ _ (by rw [length_levels]; omega)]

/-- The levels of two types side by side. -/
theorem zip_levels (same : source.ops.length = target.ops.length) :
    source.levels.zip target.levels =
      (List.range (source.ops.length + 1)).map fun depth => (source.level depth, target.level depth) := by
  refine List.ext_getElem (by simp [length_levels, same]) fun depth lt _ => ?_
  simp only [List.length_zip, length_levels, ← same, Nat.min_self] at lt
  have hsource : depth < source.levels.length := by rwa [length_levels]
  have htarget : depth < target.levels.length := by rwa [length_levels, ← same]
  simp [level, hsource, htarget]

/-! ## One pass over the levels -/

/-- What one pass checks: no level loses a qualifier, and one that gains some stands below const levels
only. -/
theorem ladder_eq_some_iff {constSoFar : Bool} {pairs : List (Cv × Cv)} :
    ladder constSoFar pairs = some added ↔
      (∀ pair ∈ pairs, pair.2.includes pair.1 = true ∧ (pair.1 = pair.2 ∨ constSoFar = true)) ∧
        pairs.Pairwise (fun upper lower => lower.1 = lower.2 ∨ upper.2.isConst = true) ∧
          (pairs.map fun pair => (pair.2.diff pair.1).count).sum = added := by
  induction pairs generalizing constSoFar added with
  | nil => simp [ladder]
  | cons pair rest ih =>
      obtain ⟨top, goal⟩ := pair
      simp only [ladder, List.forall_mem_cons, List.pairwise_cons, List.map_cons, List.sum_cons]
      constructor
      · intro climbed
        split at climbed
        · rename_i step
          rw [Bool.and_eq_true, Bool.or_eq_true, beq_iff_eq] at step
          obtain ⟨below, hrest, rfl⟩ := Option.map_eq_some_iff.mp climbed
          obtain ⟨hkeeps, hpairwise, rfl⟩ := ih.mp hrest
          have hconst : ∀ pair ∈ rest, pair.1 = pair.2 ∨ constSoFar = true ∧ goal.isConst = true :=
            fun pair member => by simpa using (hkeeps pair member).2
          exact ⟨⟨step, fun pair member => ⟨(hkeeps pair member).1, (hconst pair member).imp_right And.left⟩⟩,
            ⟨fun pair member => (hconst pair member).imp_right And.right, hpairwise⟩, rfl⟩
        · cases climbed
      · rintro ⟨⟨step, hkeeps⟩, ⟨hconst, hpairwise⟩, rfl⟩
        rw [if_pos (by rw [Bool.and_eq_true, Bool.or_eq_true, beq_iff_eq]; exact step)]
        refine Option.map_eq_some_iff.mpr ⟨_, ih.mpr ⟨fun pair member => ?_, hpairwise, rfl⟩, rfl⟩
        refine ⟨(hkeeps pair member).1, ?_⟩
        rcases (hkeeps pair member).2 with same | soFar
        · exact .inl same
        · exact (hconst pair member).imp_right fun isConst => by rw [soFar, isConst]; rfl

/-! ## The rule -/

/-- The rule for qualification conversions.  The types differ in qualifiers only, no level loses one, and
where a level below the top gains one, every level between it and the top is const in the target. -/
structure Qualifies (source target : Descriptor) : Prop where
  shape : source.samePtrShape target = true
  base : source.sameBase target = true
  keeps : ∀ depth, (target.level depth).includes (source.level depth) = true
  between : ∀ upper lower, 0 < upper → upper < lower → source.level lower ≠ target.level lower →
    (target.level upper).isConst = true

/-- The number of qualifiers that the target has more than the source, over all levels of the source. -/
def gained (source target : Descriptor) : Nat :=
  ∑ depth ∈ Finset.range (source.ops.length + 1), ((target.level depth).diff (source.level depth)).count

theorem length_ops_of_samePtrShape (shape : source.samePtrShape target = true) :
    source.ops.length = target.ops.length := by
  simpa using congrArg List.length (samePtrShape_iff.mp shape)

/-- The levels below the top are climbed as the rule demands. -/
theorem ladder_levels_iff (same : source.ops.length = target.ops.length) :
    ladder true ((List.range source.ops.length).map fun depth =>
        (source.level (depth + 1), target.level (depth + 1))) = some added ↔
      (∀ depth, (target.level (depth + 1)).includes (source.level (depth + 1)) = true) ∧
        (∀ upper lower, 0 < upper → upper < lower → source.level lower ≠ target.level lower →
          (target.level upper).isConst = true) ∧
          ∑ depth ∈ Finset.range source.ops.length,
            ((target.level (depth + 1)).diff (source.level (depth + 1))).count = added := by
  have hbehind : ∀ depth, source.ops.length < depth → source.level depth = target.level depth :=
    fun depth behind => (source.level_behind behind).trans (target.level_behind (same ▸ behind)).symm
  have hsum : ((List.range source.ops.length).map fun depth =>
      ((target.level (depth + 1)).diff (source.level (depth + 1))).count).sum =
        ∑ depth ∈ Finset.range source.ops.length,
          ((target.level (depth + 1)).diff (source.level (depth + 1))).count := rfl
  rw [ladder_eq_some_iff, List.pairwise_map, List.map_map, Function.comp_def, hsum]
  refine and_congr ?_ (and_congr ?_ Iff.rfl)
  · simp only [List.mem_map, List.mem_range, forall_exists_index, and_imp, or_true, and_true]
    constructor
    · intro keeps depth
      by_cases inside : depth < source.ops.length
      · exact keeps _ depth inside rfl
      · rw [hbehind (depth + 1) (by omega)]
        exact Cv.includes_refl _
    · rintro keeps _ depth - rfl
      exact keeps depth
  · rw [List.pairwise_iff_getElem]
    simp only [List.length_range, List.getElem_range]
    constructor
    · intro climbs upper lower below_top above differ
      have hinside : lower - 1 < source.ops.length := by
        by_contra behind
        exact differ (hbehind lower (by omega))
      have hstep := climbs (upper - 1) (lower - 1) (by omega) hinside (by omega)
      rw [Nat.sub_add_cancel (by omega), Nat.sub_add_cancel (by omega)] at hstep
      exact hstep.resolve_left differ
    · intro between upper lower _ _ above
      by_cases same : source.level (lower + 1) = target.level (lower + 1)
      · exact .inl same
      · exact .inr (between (upper + 1) (lower + 1) (by omega) (by omega) same)

/-- There is a qualification conversion exactly if the rule holds, and then it counts what is gained. -/
theorem qualificationAdjustment_eq_some_iff :
    source.qualificationAdjustment target = some added ↔
      source.Qualifies target ∧ source.gained target = added := by
  unfold qualificationAdjustment
  split
  · rename_i alike
    obtain ⟨shape, base⟩ := Bool.and_eq_true_iff.mp alike
    have hsame := length_ops_of_samePtrShape shape
    rw [zip_levels hsame, List.range_succ_eq_map, List.map_cons, List.map_map]
    have hgained : source.gained target = ((target.level 0).diff (source.level 0)).count +
        ∑ depth ∈ Finset.range source.ops.length,
          ((target.level (depth + 1)).diff (source.level (depth + 1))).count := by
      rw [gained, Finset.sum_range_succ', Nat.add_comm]
    dsimp only [Function.comp_def]
    constructor
    · intro found
      split at found
      · rename_i top
        obtain ⟨below, hladder, rfl⟩ := Option.map_eq_some_iff.mp found
        obtain ⟨hkeeps, hbetween, rfl⟩ := (ladder_levels_iff hsame).mp hladder
        refine ⟨⟨shape, base, fun depth => ?_, hbetween⟩, hgained⟩
        cases depth with
        | zero => exact top
        | succ depth => exact hkeeps depth
      · cases found
    · rintro ⟨qualifies, rfl⟩
      rw [if_pos (qualifies.keeps 0), hgained]
      refine Option.map_eq_some_iff.mpr ⟨_, (ladder_levels_iff hsame).mpr ?_, rfl⟩
      exact ⟨fun depth => qualifies.keeps (depth + 1), qualifies.between, rfl⟩
  · rename_i differ
    refine iff_of_false (fun impossible => nomatch impossible) ?_
    rintro ⟨qualifies, -⟩
    exact differ (Bool.and_eq_true_iff.mpr ⟨qualifies.shape, qualifies.base⟩)

/-! ## Conversions one after another -/

namespace Qualifies

theorem refl (type : Descriptor) : type.Qualifies type where
  shape := samePtrShape_iff.mpr rfl
  base := sameBase_iff.mpr ⟨rfl, rfl, rfl, rfl, rfl⟩
  keeps := fun depth => Cv.includes_refl (type.level depth)
  between := fun _ _ _ _ differ => absurd rfl differ

theorem trans (first : source.Qualifies middle) (second : middle.Qualifies target) :
    source.Qualifies target where
  shape := samePtrShape_iff.mpr
    ((samePtrShape_iff.mp first.shape).trans (samePtrShape_iff.mp second.shape))
  base := by
    obtain ⟨hkind, hlink, hsize, hargs, hconstant⟩ := sameBase_iff.mp first.base
    obtain ⟨hkind', hlink', hsize', hargs', hconstant'⟩ := sameBase_iff.mp second.base
    exact sameBase_iff.mpr ⟨hkind.trans hkind', hlink.trans hlink', hsize.trans hsize', hargs.trans hargs',
      hconstant.trans hconstant'⟩
  keeps := fun depth => Cv.includes_trans (first.keeps depth) (second.keeps depth)
  between := by
    -- The level gains its qualifiers in the first conversion or in the second one.
    intro upper lower below above differ
    by_cases same : source.level lower = middle.level lower
    · exact second.between upper lower below above (same ▸ differ)
    · exact Cv.isConst_of_includes (second.keeps upper) (first.between upper lower below above same)

end Qualifies

theorem gained_self (type : Descriptor) : type.gained type = 0 := by
  simp [gained]

theorem gained_add (first : source.Qualifies middle) (second : middle.Qualifies target) :
    source.gained middle + middle.gained target = source.gained target := by
  unfold gained
  rw [← length_ops_of_samePtrShape first.shape, ← Finset.sum_add_distrib]
  exact Finset.sum_congr rfl fun depth _ => Cv.count_diff_add (first.keeps depth) (second.keeps depth)

/-- A qualification conversion exists exactly if the two types have the same operators and the same base, no
level loses a qualifier, and all levels between the top and a level that gains one are const in the target; it
counts the qualifiers that all levels gain.  So every type converts to itself and nothing is added, and of two
conversions one after another the counts add up. -/
theorem qualification_is_ladder :
    (∀ (source target : Descriptor) (added : Nat),
      source.qualificationAdjustment target = some added ↔
        (source.samePtrShape target = true ∧ source.sameBase target = true ∧
          (∀ depth, (target.level depth).includes (source.level depth) = true) ∧
          ∀ lower, 0 < lower → source.level lower ≠ target.level lower →
            ∀ upper, 0 < upper → upper < lower → (target.level upper).isConst = true) ∧
        added = ∑ depth ∈ Finset.range (source.ops.length + 1),
          ((target.level depth).diff (source.level depth)).count) ∧
    (∀ type : Descriptor, type.qualificationAdjustment type = some 0) ∧
    ∀ (source middle target : Descriptor) (added more : Nat),
      source.qualificationAdjustment middle = some added →
        middle.qualificationAdjustment target = some more →
          source.qualificationAdjustment target = some (added + more) := by
  refine ⟨fun source target added => ?_, fun type => ?_, fun source middle target added more => ?_⟩
  · rw [qualificationAdjustment_eq_some_iff]
    constructor
    · rintro ⟨qualifies, rfl⟩
      refine ⟨⟨qualifies.shape, qualifies.base, qualifies.keeps, ?_⟩, rfl⟩
      exact fun lower _ differ upper below above => qualifies.between upper lower below above differ
    · rintro ⟨⟨shape, base, keeps, between⟩, rfl⟩
      refine ⟨⟨shape, base, keeps, ?_⟩, rfl⟩
      exact fun upper lower below above differ =>
        between lower (Nat.zero_lt_of_lt above) differ upper below above
  · exact qualificationAdjustment_eq_some_iff.mpr ⟨.refl type, gained_self type⟩
  · simp only [qualificationAdjustment_eq_some_iff]
    rintro ⟨first, rfl⟩ ⟨second, rfl⟩
    exact ⟨first.trans second, (gained_add first second).symm⟩

/-- A pointer to a pointer to int becomes a constant one to a constant pointer, and then one to a constant
pointer to constant int. -/
theorem pointers_qualified_in_turn :
    let int := Descriptor.ofKind .int
    let constPointer : PtrOp := { kind := .pointer, cv := ⟨true, false⟩ }
    let middle := (int.withOp constPointer).withOp constPointer
    let target := ((int.withTopCv ⟨true, false⟩).withOp constPointer).withOp constPointer
    int.pointer.pointer.qualificationAdjustment middle = some 2 ∧
      middle.qualificationAdjustment target = some 1 ∧
      int.pointer.pointer.qualificationAdjustment target = some (2 + 1) ∧
      int.pointer.pointer.qualificationAdjustment (int.withTopCv ⟨true, false⟩).pointer.pointer = none := by
  intro int constPointer middle target
  have hfirst : int.pointer.pointer.qualificationAdjustment middle = some 2 := by decide +kernel
  have hsecond : middle.qualificationAdjustment target = some 1 := by decide +kernel
  exact ⟨hfirst, hsecond, qualification_is_ladder.2.2 _ _ _ _ _ hfirst hsecond, by decide +kernel⟩

end Descriptor

end NameBinding
