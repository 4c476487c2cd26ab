import Mathlib.Data.List.Nodup
import NameBinding.Traversal

/-!
# What a traversal visits

Both traversals visit exactly the nodes that a path of fresh nodes leads to, and each of them once.  So
the order of the work, and that in which a node lists what it leads to, change the order of the visits and
nothing else.

* `ReachedWithin`: the nodes that paths of fresh nodes lead to.
* `mem_breadthFirst`, `mem_depthFirst`: these are the nodes that are visited.
* `perm_breadthFirst`: traversals of two graphs with the same edges visit the same nodes.
-/

namespace NameBinding

variable {α : Type} {next other : α → List α} {fresh work : List α} {x : α}

/-- A path of fresh nodes leads to a node from a node of `work`. -/
inductive ReachedWithin (next : α → List α) (fresh work : List α) : α → Prop where
  | start {x : α} (given : x ∈ work) (isFresh : x ∈ fresh) : ReachedWithin next fresh work x
  | step {x y : α} (before : ReachedWithin next fresh work y) (edge : x ∈ next y)
      (isFresh : x ∈ fresh) : ReachedWithin next fresh work x

namespace ReachedWithin

theorem isFresh (reached : ReachedWithin next fresh work x) : x ∈ fresh := by
  cases reached with
  | start _ isFresh => exact isFresh
  | step _ _ isFresh => exact isFresh

/-- Where a path leads whose nodes are fresh among more nodes, and whose start is one of more, or
follows such a path. -/
theorem mono {fresh' work' : List α} (reached : ReachedWithin next fresh work x)
    (more : ∀ y ∈ fresh, y ∈ fresh')
    (starts : ∀ y ∈ work, y ∈ fresh → ReachedWithin next fresh' work' y) :
    ReachedWithin next fresh' work' x := by
  induction reached with
  | start given isFresh => exact starts _ given isFresh
  | step _ edge isFresh ih => exact .step ih edge (more _ isFresh)

/-- Only what the edges are matters, not their order. -/
theorem congr {work' : List α} (reached : ReachedWithin next fresh work x)
    (edges : ∀ y z, z ∈ next y → z ∈ other y) (starts : ∀ y ∈ work, y ∈ work') :
    ReachedWithin other fresh work' x := by
  induction reached with
  | start given isFresh => exact .start (starts _ given) isFresh
  | step _ edge isFresh ih => exact .step ih (edges _ _ edge) isFresh

end ReachedWithin

variable [DecidableEq α]

/-- Once a node is visited, whatever was reached is that node, or is reached from the rest of the work
and from what the node leads to, without coming back to it. -/
theorem reachedWithin_visit {node : α} {rest : List α} (member : node ∈ fresh) :
    ReachedWithin next fresh (node :: rest) x ↔
      x = node ∨ ReachedWithin next (fresh.erase node) (rest ++ next node) x := by
  have hkept : ∀ {y}, y ∈ fresh → y ≠ node → y ∈ fresh.erase node := fun isFresh differs =>
    (List.mem_erase_of_ne differs).mpr isFresh
  constructor
  · intro reached
    induction reached with
    | @start y given isFresh =>
        by_cases hy : y = node
        · exact .inl hy
        · have hrest : y ∈ rest := (List.mem_cons.mp given).resolve_left hy
          exact .inr (.start (List.mem_append_left _ hrest) (hkept isFresh hy))
    | @step y z _ edge isFresh ih =>
        by_cases hy : y = node
        · exact .inl hy
        · rcases ih with rfl | hbefore
          · exact .inr (.start (List.mem_append_right _ edge) (hkept isFresh hy))
          · exact .inr (.step hbefore edge (hkept isFresh hy))
  · have hnode : ReachedWithin next fresh (node :: rest) node := .start List.mem_cons_self member
    rintro (rfl | reached)
    · exact hnode
    · refine reached.mono (fun y kept => List.mem_of_mem_erase kept) fun y given kept => ?_
      have isFresh := List.mem_of_mem_erase kept
      rcases List.mem_append.mp given with waiting | edge
      · exact .start (List.mem_cons_of_mem node waiting) isFresh
      · exact .step hnode edge isFresh

omit [DecidableEq α] in
/-- Without work nothing is reached. -/
theorem not_reachedWithin_nil : ¬ ReachedWithin next fresh [] x := by
  intro reached
  induction reached with
  | start given => exact absurd given List.not_mem_nil
  | step _ _ _ ih => exact ih

omit [DecidableEq α] in
/-- A node that is not fresh is passed over. -/
theorem reachedWithin_skip {node : α} {rest : List α} (old : node ∉ fresh) :
    ReachedWithin next fresh (node :: rest) x ↔ ReachedWithin next fresh rest x := by
  constructor
  · refine fun reached => reached.mono (fun _ isFresh => isFresh) fun y given isFresh => ?_
    rcases List.mem_cons.mp given with rfl | waiting
    · exact absurd isFresh old
    · exact .start waiting isFresh
  · exact fun reached => reached.congr (fun _ _ edge => edge) fun _ given => List.mem_cons_of_mem node given

/-- A breadth-first traversal visits what paths of fresh nodes lead to. -/
theorem mem_breadthFirst : x ∈ breadthFirst next fresh work ↔ ReachedWithin next fresh work x := by
  fun_induction breadthFirst next fresh work with
  | case1 fresh => exact iff_of_false List.not_mem_nil not_reachedWithin_nil
  | case2 fresh node rest member ih => rw [List.mem_cons, ih, reachedWithin_visit member]
  | case3 fresh node rest old ih => rw [ih, reachedWithin_skip old]

/-- So does a depth-first one. -/
theorem mem_depthFirst : x ∈ depthFirst next fresh work ↔ ReachedWithin next fresh work x := by
  fun_induction depthFirst next fresh work with
  | case1 fresh => exact iff_of_false List.not_mem_nil not_reachedWithin_nil
  | case2 fresh node rest member ih =>
      rw [List.mem_cons, ih, reachedWithin_visit member]
      -- The two differ in the order of the work.
      have hwork : ∀ y, y ∈ next node ++ rest ↔ y ∈ rest ++ next node := fun y => by
        rw [List.mem_append, List.mem_append, or_comm]
      exact or_congr_right ⟨fun reached => reached.congr (fun _ _ edge => edge) fun y => (hwork y).mp,
        fun reached => reached.congr (fun _ _ edge => edge) fun y => (hwork y).mpr⟩
  | case3 fresh node rest old ih => rw [ih, reachedWithin_skip old]

/-- No node is visited twice. -/
theorem nodup_breadthFirst (distinct : fresh.Nodup) : (breadthFirst next fresh work).Nodup := by
  fun_induction breadthFirst next fresh work with
  | case1 => exact List.nodup_nil
  | case2 fresh node rest member ih =>
      refine List.nodup_cons.mpr ⟨fun again => ?_, ih (distinct.erase node)⟩
      exact distinct.not_mem_erase (mem_breadthFirst.mp again).isFresh
  | case3 fresh node rest old ih => exact ih distinct

theorem nodup_depthFirst (distinct : fresh.Nodup) : (depthFirst next fresh work).Nodup := by
  fun_induction depthFirst next fresh work with
  | case1 => exact List.nodup_nil
  | case2 fresh node rest member ih =>
      refine List.nodup_cons.mpr ⟨fun again => ?_, ih (distinct.erase node)⟩
      exact distinct.not_mem_erase (mem_depthFirst.mp again).isFresh
  | case3 fresh node rest old ih => exact ih distinct

/-- Traversals of graphs with the same edges, from the same nodes, visit the same nodes. -/
theorem perm_breadthFirst {work' : List α} (distinct : fresh.Nodup)
    (edges : ∀ y z, z ∈ next y ↔ z ∈ other y) (starts : ∀ y, y ∈ work ↔ y ∈ work') :
    (breadthFirst next fresh work).Perm (breadthFirst other fresh work') := by
  rw [List.perm_ext_iff_of_nodup (nodup_breadthFirst distinct) (nodup_breadthFirst distinct)]
  intro x
  rw [mem_breadthFirst, mem_breadthFirst]
  exact ⟨fun reached => reached.congr (fun y z => (edges y z).mp) fun y => (starts y).mp,
    fun reached => reached.congr (fun y z => (edges y z).mpr) fun y => (starts y).mpr⟩

end NameBinding
