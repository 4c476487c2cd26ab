import NameBinding.Inheritance.Visibility
import NameBinding.Proofs.Inheritance.Acyclic
import NameBinding.Proofs.Inheritance.Subobjects

/-!
# The ways up to a base

The access of an inherited member depends on all the ways from a class up to the class of the member.  Each
way leads to a base subobject, and different ways lead to different ones, unless both go through a virtual
link.

* `Table.ways`: the ways from a class up to a base, each with the subobject that it leads to.
* `inheritancePathsFrom_eq`: these are the paths that access looks at.

The main statement is `pairwise_ways`.
-/

namespace NameBinding

open Relation

/-- A step that gives a result for every element gives all of them. -/
theorem mapM_eq_ok {α β : Type} {error : Type} {step : α → Except error β} {result : α → β} {list : List α}
    (each : ∀ element ∈ list, step element = .ok (result element)) :
    list.mapM step = .ok (list.map result) := by
  induction list with
  | nil => rfl
  | cons first rest ih =>
      rw [List.mapM_cons, each first List.mem_cons_self,
        ih fun element member => each element (List.mem_cons_of_mem first member)]
      rfl

namespace Table

variable {table : Table} {owner origin id : SymbolId} {link : BaseLink}

/-! ## Links -/

/-- The base that a link leads to, and whether the link is virtual. -/
def baseOf (table : Table) (link : BaseLink) : SymbolId × Bool :=
  (table.classOf link.parent, link.isVirtual)

/-- The links, each with how often its base was listed before, where `before` comes first. -/
def numbered (table : Table) : List (SymbolId × Bool) → List BaseLink → List (BaseLink × Nat)
  | _, [] => []
  | before, link :: rest =>
      (link, before.count (table.baseOf link)) :: numbered table (before ++ [table.baseOf link]) rest

@[simp]
theorem map_fst_numbered (before : List (SymbolId × Bool)) (links : List BaseLink) :
    (table.numbered before links).map (·.1) = links := by
  induction links generalizing before with
  | nil => rfl
  | cons link rest ih => rw [numbered, List.map_cons, ih]

theorem mem_of_mem_numbered {before : List (SymbolId × Bool)} {links : List BaseLink}
    {entry : BaseLink × Nat} (member : entry ∈ table.numbered before links) : entry.1 ∈ links := by
  rw [← table.map_fst_numbered before links]
  exact List.mem_map_of_mem member

/-- A base is numbered as often as it is listed. -/
theorem exists_mem_numbered {before : List (SymbolId × Bool)} {links : List BaseLink}
    {base : SymbolId × Bool} {occurrence : Nat} :
    (∃ entry ∈ table.numbered before links, table.baseOf entry.1 = base ∧ entry.2 = occurrence) ↔
      before.count base ≤ occurrence ∧ occurrence < (before ++ links.map table.baseOf).count base := by
  induction links generalizing before with
  | nil => simp [numbered]
  | cons link rest ih =>
      simp only [numbered, List.mem_cons, exists_eq_or_imp, ih, List.map_cons, List.count_append,
        List.count_cons, List.count_nil, beq_iff_eq, Nat.zero_add]
      by_cases same : table.baseOf link = base
      · subst same
        simp only [if_true, true_and]
        omega
      · simp only [same, if_false, false_and, false_or, Nat.add_zero]

/-- No two links are numbered in the same way. -/
theorem pairwise_numbered (before : List (SymbolId × Bool)) (links : List BaseLink) :
    (table.numbered before links).Pairwise fun a b =>
      table.baseOf a.1 = table.baseOf b.1 → a.2 ≠ b.2 := by
  induction links generalizing before with
  | nil => exact .nil
  | cons link rest ih =>
      refine List.pairwise_cons.mpr ⟨fun entry member same => ?_, ih _⟩
      have hlate := (exists_mem_numbered.mp ⟨entry, member, rfl, rfl⟩).1
      rw [← same, List.count_append, List.count_singleton_self] at hlate
      exact Nat.ne_of_lt hlate

/-! ## Ways -/

/-- The ways from a class up to `owner`, each with the subobject that it leads to; `here` and `path` are what
leads to the class itself. -/
def waysFrom (table : Table) (owner : SymbolId) :
    Nat → Subobject → InheritancePath → SymbolId → List (Subobject × InheritancePath)
  | 0, _, _, _ => []
  | depth + 1, here, path, id =>
      (table.numbered [] (table.symbol id).parents).flatMap fun entry =>
        let sub := here.along (table.baseOf entry.1) entry.2
        if table.classOf entry.1.parent = owner then [(sub, path.step entry.1)]
        else waysFrom table owner depth sub (path.step entry.1) (table.classOf entry.1.parent)

/-- The ways from a class up to `owner`. -/
def ways (table : Table) (owner origin : SymbolId) : List (Subobject × InheritancePath) :=
  table.waysFrom owner (table.size + 1) {} {} origin

/-- Without circles, the paths that access looks at are these ways. -/
theorem inheritancePathsFrom_eq (owner : SymbolId) {depth : Nat} {visited : List SymbolId}
    (acyclic : table.AcyclicBases id) (came : CameBy table.Derives visited id)
    (enough : depth + visited.length = table.size + 1) (here : Subobject) (path : InheritancePath) :
    table.inheritancePathsFrom owner depth (id :: visited) path id =
      .ok ((table.waysFrom owner depth here path id).map (·.2)) := by
  induction depth generalizing visited here path id with
  | zero =>
      have hlength := came.length_le Derives.lt_size
      omega
  | succ depth ih =>
      have hlink : ∀ entry ∈ table.numbered [] (table.symbol id).parents,
          (if table.classOf entry.1.parent = owner then .ok [path.step entry.1]
            else if table.classOf entry.1.parent ∈ id :: visited then
              .error (table.circular (table.classOf entry.1.parent))
            else table.inheritancePathsFrom owner depth (table.classOf entry.1.parent :: id :: visited)
              (path.step entry.1) (table.classOf entry.1.parent)) =
          Except.ok ((if table.classOf entry.1.parent = owner then
              [(here.along (table.baseOf entry.1) entry.2, path.step entry.1)]
            else table.waysFrom owner depth (here.along (table.baseOf entry.1) entry.2)
              (path.step entry.1) (table.classOf entry.1.parent)).map (·.2)) := by
        intro entry member
        have hderives : table.Derives id (table.classOf entry.1.parent) :=
          List.mem_map_of_mem (mem_of_mem_numbered member)
        have hcame := came.step (acyclic id .refl) hderives
        split
        · rfl
        · rw [if_neg (hcame.not_mem (acyclic.of_derives hderives _ .refl))]
          refine ih (acyclic.of_derives hderives) hcame ?_ _ _
          rw [List.length_cons]
          omega
      rw [inheritancePathsFrom, waysFrom, List.map_flatMap]
      conv_lhs => rw [← table.map_fst_numbered [] (table.symbol id).parents, List.mapM_map]
      exact congrArg (· >>= fun found => pure found.flatten) (mapM_eq_ok hlink)

/-! ## The subobjects that the ways lead to -/

/-- A way goes through a virtual link exactly if it leads into a virtual base. -/
theorem isSome_root_of_mem_waysFrom {depth : Nat} {here : Subobject} {path : InheritancePath}
    (marked : here.root.isSome = path.isVirtual) :
    ∀ way ∈ table.waysFrom owner depth here path id, way.1.root.isSome = way.2.isVirtual := by
  induction depth generalizing here path id with
  | zero => exact fun way member => absurd member List.not_mem_nil
  | succ depth ih =>
      intro way member
      obtain ⟨entry, -, hway⟩ := List.mem_flatMap.mp member
      have hstep : (here.along (table.baseOf entry.1) entry.2).root.isSome =
          (path.step entry.1).isVirtual := by
        unfold Subobject.along baseOf InheritancePath.step
        cases entry.1.isVirtual <;> simp [marked]
      dsimp only at hway
      split at hway
      · cases List.mem_singleton.mp hway
        exact hstep
      · exact ih hstep way hway

/-- A way without virtual links goes on from where it is. -/
theorem prefix_of_mem_waysFrom {depth : Nat} {here : Subobject} {path : InheritancePath} :
    ∀ way ∈ table.waysFrom owner depth here path id, way.1.root = none →
      here.root = none ∧ here.links <+: way.1.links := by
  induction depth generalizing here path id with
  | zero => exact fun way member => absurd member List.not_mem_nil
  | succ depth ih =>
      intro way member plain
      obtain ⟨entry, -, hway⟩ := List.mem_flatMap.mp member
      have hplain : (here.along (table.baseOf entry.1) entry.2).root = none ∧
          (here.along (table.baseOf entry.1) entry.2).links <+: way.1.links := by
        dsimp only at hway
        split at hway
        · cases List.mem_singleton.mp hway
          exact ⟨plain, List.prefix_refl _⟩
        · exact ih way hway plain
      unfold Subobject.along at hplain
      split at hplain
      · exact absurd hplain.1 (by simp)
      · exact ⟨hplain.1, (List.prefix_append _ _).trans hplain.2⟩

/-- The first link of a way without virtual links is part of the subobject that the way leads to. -/
theorem links_of_mem_step {depth : Nat} {here : Subobject} {path : InheritancePath}
    {entry : BaseLink × Nat} {way : Subobject × InheritancePath}
    (member : way ∈ (if table.classOf entry.1.parent = owner then
        [(here.along (table.baseOf entry.1) entry.2, path.step entry.1)]
      else table.waysFrom owner depth (here.along (table.baseOf entry.1) entry.2) (path.step entry.1)
        (table.classOf entry.1.parent)))
    (plain : way.1.root = none) :
    entry.1.isVirtual = false ∧
      here.links ++ [(table.classOf entry.1.parent, entry.2)] <+: way.1.links := by
  have hplain : (here.along (table.baseOf entry.1) entry.2).root = none ∧
      (here.along (table.baseOf entry.1) entry.2).links <+: way.1.links := by
    split at member
    · cases List.mem_singleton.mp member
      exact ⟨plain, List.prefix_refl _⟩
    · exact prefix_of_mem_waysFrom way member plain
  unfold Subobject.along baseOf at hplain
  cases hvirtual : entry.1.isVirtual with
  | true => simp [hvirtual] at hplain
  | false => exact ⟨rfl, by simpa [hvirtual] using hplain.2⟩

/-- Different ways lead to different subobjects, unless both go through a virtual link. -/
theorem pairwise_waysFrom (owner : SymbolId) (depth : Nat) (here : Subobject) (path : InheritancePath)
    (id : SymbolId) :
    (table.waysFrom owner depth here path id).Pairwise fun a b => a.1 = b.1 → a.1.root ≠ none := by
  induction depth generalizing here path id with
  | zero => exact .nil
  | succ depth ih =>
      refine List.pairwise_flatMap.mpr ⟨fun entry _ => ?_, ?_⟩
      · dsimp only
        split
        · exact List.pairwise_singleton _ _
        · exact ih _ _ _
      · -- Two ways part at the first link, and a plain link stays part of the subobject.
        refine (table.pairwise_numbered [] (table.symbol id).parents).imp ?_
        intro first second differ a ha b hb same plain
        obtain ⟨hfirst, hlinks⟩ := links_of_mem_step ha plain
        obtain ⟨hsecond, hlinks'⟩ := links_of_mem_step hb (same ▸ plain)
        rw [← same] at hlinks'
        have hequal := (List.prefix_of_prefix_length_le hlinks hlinks' (by simp)).eq_of_length (by simp)
        obtain ⟨hclass, hcount⟩ := Prod.mk.inj (List.singleton_inj.mp (List.append_cancel_left hequal))
        exact differ (Prod.ext hclass (hfirst.trans hsecond.symm)) hcount

/-- Different ways from a class lead to different subobjects, unless both go through a virtual link. -/
theorem pairwise_ways (table : Table) (owner origin : SymbolId) :
    (table.ways owner origin).Pairwise fun a b => a.1 = b.1 → a.2.isVirtual = true ∧ b.2.isVirtual = true := by
  refine (pairwise_waysFrom owner _ _ _ _).imp_of_mem fun {a b} ha hb differ same => ?_
  have hfirst := isSome_root_of_mem_waysFrom rfl a ha
  have hsecond := isSome_root_of_mem_waysFrom rfl b hb
  have hroot := Option.isSome_iff_ne_none.mpr (differ same)
  exact ⟨hfirst ▸ hroot, hsecond ▸ same ▸ hroot⟩

end Table

end NameBinding
