/-!
# Traversals that visit every node once

The graphs of the engine (bases, using-directives, associated classes) may be cyclic.  Both
traversals keep a list of `fresh` nodes, those that may still be visited; visiting a node takes it
off that list, so they end on every graph.  The result lists the visited nodes in the order of the
visits.
-/

namespace NameBinding

variable {α : Type} [DecidableEq α]

/-- Visit the nodes of `work` and what they lead to, going down from each node before turning to the
next one. -/
def depthFirst (next : α → List α) (fresh : List α) : (work : List α) → List α
  | [] => []
  | node :: rest =>
      if node ∈ fresh then node :: depthFirst next (fresh.erase node) (next node ++ rest)
      else depthFirst next fresh rest
termination_by work => (fresh.length, work.length)
decreasing_by
  · apply Prod.Lex.left
    have member : node ∈ fresh := by assumption
    rw [List.length_erase_of_mem member]
    have := List.length_pos_of_mem member
    omega
  · apply Prod.Lex.right
    simp

/-- Visit the nodes of `work` and what they lead to, in the order in which they come up. -/
def breadthFirst (next : α → List α) (fresh : List α) : (work : List α) → List α
  | [] => []
  | node :: rest =>
      if node ∈ fresh then node :: breadthFirst next (fresh.erase node) (rest ++ next node)
      else breadthFirst next fresh rest
termination_by work => (fresh.length, work.length)
decreasing_by
  · apply Prod.Lex.left
    have member : node ∈ fresh := by assumption
    rw [List.length_erase_of_mem member]
    have := List.length_pos_of_mem member
    omega
  · apply Prod.Lex.right
    simp

end NameBinding
