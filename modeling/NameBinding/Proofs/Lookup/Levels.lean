import NameBinding.Proofs.Lookup.Outcome
import NameBinding.Proofs.Table.Enclosing
import NameBinding.Proofs.Traversal

/-!
# What an outward walk searches

At each scope of its chain a walk searches the scope and the namespaces that become visible there.  A
directive that is anchored further out waits, and is never lost, because its anchor lies on the chain.

* `Table.levels`: the scopes that are searched at each step of the walk.
* `Table.VisibleFrom`: the least set that holds the chain of a scope and what its members nominate.
* `Table.Offered`: the directives that are considered at a scope of the chain.

The main statement is `searched_iff`: what the walk searches is visible, and all visible scopes of the
table are searched.
-/

namespace NameBinding.Table

open Relation

variable {table : Table} {start scope id anchor : SymbolId} {chain outer fresh : List SymbolId}
  {pending : List (SymbolId × SymbolId)}

/-- The scopes that are searched when a walk reaches `scope`: the scope itself and the namespaces that become
visible there. -/
def level (table : Table) (fresh : List SymbolId) (pending : List (SymbolId × SymbolId))
    (scope : SymbolId) : List SymbolId :=
  scope :: (table.activateDirectives fresh pending scope).namespaces

/-- The namespaces that are fresh when the walk leaves `scope`. -/
def freshAfter (table : Table) (fresh : List SymbolId) (pending : List (SymbolId × SymbolId))
    (scope : SymbolId) : List SymbolId :=
  fresh.filter (· ∉ (table.activateDirectives fresh pending scope).namespaces)

/-- The scopes that are searched at each scope of a chain. -/
def levels (table : Table) : (chain : List SymbolId) → (fresh : List SymbolId) →
    (pending : List (SymbolId × SymbolId)) → List (List SymbolId)
  | [], _, _ => []
  | scope :: outer, fresh, pending =>
      table.level fresh pending scope ::
        levels table outer (table.freshAfter fresh pending scope)
          (table.activateDirectives fresh pending scope).pending

theorem mem_level : id ∈ table.level fresh pending scope ↔
    id = scope ∨ id ∈ (table.activateDirectives fresh pending scope).namespaces :=
  List.mem_cons

/-- The least set that holds the chain of `start` and whatever a member of it nominates. -/
inductive VisibleFrom (table : Table) (start : SymbolId) : SymbolId → Prop where
  | enclosing {id : SymbolId} (member : id ∈ table.scopeChain start) : VisibleFrom table start id
  | nominated {scope id : SymbolId} (visible : VisibleFrom table start scope)
      (nominates : id ∈ table.nominated scope) : VisibleFrom table start id

/-! ## One scope of the chain -/

theorem mem_anchored : (anchor, id) ∈ table.anchored start scope ↔
    id ∈ table.nominated scope ∧ anchor = table.nearestCommonEnclosing start id := by
  simp only [anchored, List.mem_map, Prod.mk.injEq]
  constructor
  · rintro ⟨other, hmember, rfl, rfl⟩
    exact ⟨hmember, rfl⟩
  · rintro ⟨hmember, rfl⟩
    exact ⟨id, hmember, rfl, rfl⟩

/-- The directives considered when the walk reaches `scope`: those that waited, those of the scope, and
those of the namespaces that become visible, each with where it is anchored. -/
def Offered (table : Table) (fresh : List SymbolId) (pending : List (SymbolId × SymbolId))
    (scope anchor id : SymbolId) : Prop :=
  (anchor, id) ∈ pending ∨
    ∃ source, (source = scope ∨ source ∈ (table.activateDirectives fresh pending scope).namespaces) ∧
      id ∈ table.nominated source ∧ anchor = table.nearestCommonEnclosing scope id

/-- The directives of `list` that are anchored at `scope`. -/
theorem mem_ready {list : List (SymbolId × SymbolId)} :
    id ∈ (list.filter (·.1 = scope)).map (·.2) ↔ (scope, id) ∈ list := by
  simp only [List.mem_map, List.mem_filter, decide_eq_true_eq]
  constructor
  · rintro ⟨⟨anchor, other⟩, ⟨hlisted, rfl⟩, rfl⟩
    exact hlisted
  · exact fun hlisted => ⟨(scope, id), ⟨hlisted, rfl⟩, rfl⟩

theorem mem_activated : id ∈ (table.activateDirectives fresh pending scope).namespaces ↔
    ReachedWithin (fun source => ((table.anchored scope source).filter (·.1 = scope)).map (·.2)) fresh
      (((pending ++ table.anchored scope scope).filter (·.1 = scope)).map (·.2)) id :=
  mem_breadthFirst

/-- A namespace becomes visible if it is fresh and a directive that is anchored here nominates it. -/
theorem mem_activated_iff : id ∈ (table.activateDirectives fresh pending scope).namespaces ↔
    id ∈ fresh ∧ table.Offered fresh pending scope scope id := by
  constructor
  · intro active
    refine ⟨(mem_activated.mp active).isFresh, ?_⟩
    cases mem_activated.mp active with
    | start given _ =>
        rcases List.mem_append.mp (mem_ready.mp given) with waited | own
        · exact .inl waited
        · exact .inr ⟨scope, .inl rfl, mem_anchored.mp own⟩
    | @step _ source before edge _ =>
        exact .inr ⟨source, .inr (mem_activated.mpr before), mem_anchored.mp (mem_ready.mp edge)⟩
  · rintro ⟨isFresh, waited | ⟨source, rfl | hsource, hnominates⟩⟩
    · exact mem_activated.mpr (.start (mem_ready.mpr (List.mem_append_left _ waited)) isFresh)
    · have hown := List.mem_append_right pending (mem_anchored.mpr hnominates)
      exact mem_activated.mpr (.start (mem_ready.mpr hown) isFresh)
    · have hedge := mem_ready.mpr (mem_anchored.mpr hnominates)
      exact mem_activated.mpr (.step (mem_activated.mp hsource) hedge isFresh)

/-- Where nothing is nominated, a scope is searched alone. -/
theorem level_of_undirected (none : ∀ id, table.nominated id = []) : table.level fresh [] scope = [scope] := by
  refine congrArg (List.cons scope) (List.eq_nil_iff_forall_not_mem.mpr fun id active => ?_)
  obtain ⟨-, waited | ⟨source, -, nominates, -⟩⟩ := mem_activated_iff.mp active
  · exact List.not_mem_nil waited
  · rw [none] at nominates
    exact List.not_mem_nil nominates

/-- A directive waits if it is anchored elsewhere. -/
theorem mem_pending_iff : (anchor, id) ∈ (table.activateDirectives fresh pending scope).pending ↔
    anchor ≠ scope ∧ table.Offered fresh pending scope anchor id := by
  simp only [activateDirectives, List.mem_append, List.mem_filter, List.mem_flatMap, mem_anchored,
    decide_eq_true_eq]
  constructor
  · rintro (⟨waited | own, differs⟩ | ⟨source, hsource, hnominates, differs⟩)
    · exact ⟨differs, .inl waited⟩
    · exact ⟨differs, .inr ⟨scope, .inl rfl, own⟩⟩
    · exact ⟨differs, .inr ⟨source, .inr hsource, hnominates⟩⟩
  · rintro ⟨differs, waited | ⟨source, rfl | hsource, hnominates⟩⟩
    · exact .inl ⟨.inl waited, differs⟩
    · exact .inl ⟨.inr hnominates, differs⟩
    · exact .inr ⟨source, hsource, hnominates, differs⟩

/-! ## The whole walk -/

/-- What is searched is visible. -/
theorem visible_of_mem_levels (enclosing : ∀ id ∈ chain, table.VisibleFrom start id)
    (waiting : ∀ entry ∈ pending, table.VisibleFrom start entry.2) :
    ∀ level ∈ table.levels chain fresh pending, ∀ id ∈ level, table.VisibleFrom start id := by
  induction chain generalizing fresh pending with
  | nil => exact fun level member => absurd member List.not_mem_nil
  | cons scope outer ih =>
      have hscope := enclosing scope List.mem_cons_self
      have hactive : ∀ id ∈ (table.activateDirectives fresh pending scope).namespaces,
          table.VisibleFrom start id := by
        intro id active
        induction mem_activated.mp active with
        | start given _ =>
            rcases List.mem_append.mp (mem_ready.mp given) with waited | own
            · exact waiting _ waited
            · exact .nominated hscope (mem_anchored.mp own).1
        | step before edge _ ihBefore =>
            exact .nominated (ihBefore (mem_activated.mpr before)) (mem_anchored.mp (mem_ready.mp edge)).1
      have hpending : ∀ entry ∈ (table.activateDirectives fresh pending scope).pending,
          table.VisibleFrom start entry.2 := by
        intro entry member
        rcases (mem_pending_iff.mp member).2 with waited | ⟨source, rfl | hsource, nominates, -⟩
        · exact waiting _ waited
        · exact .nominated hscope nominates
        · exact .nominated (hactive source hsource) nominates
      intro level member
      rcases List.mem_cons.mp member with rfl | later
      · exact List.forall_mem_cons.mpr ⟨hscope, hactive⟩
      · exact ih (fun id inner => enclosing id (List.mem_cons_of_mem scope inner)) hpending level later

/-- The scope is searched at one of the levels. -/
def Searched (table : Table) (chain fresh : List SymbolId) (pending : List (SymbolId × SymbolId))
    (id : SymbolId) : Prop :=
  ∃ level ∈ table.levels chain fresh pending, id ∈ level

theorem searched_cons : table.Searched (scope :: outer) fresh pending id ↔
    id ∈ table.level fresh pending scope ∨
      table.Searched outer (table.freshAfter fresh pending scope)
        (table.activateDirectives fresh pending scope).pending id := by
  simp [Searched, levels]

/-- Directives are anchored on the chain of a walk. -/
def AnchorsOn (table : Table) (chain : List SymbolId) : Prop :=
  ∀ scope outer, scope :: outer <:+ chain → ∀ id, table.nearestCommonEnclosing scope id ∈ scope :: outer

theorem AnchorsOn.tail (anchors : table.AnchorsOn (scope :: outer)) : table.AnchorsOn outer :=
  fun inner rest suffix => anchors inner rest (suffix.trans (List.suffix_cons scope outer))

/-- What is offered at a scope is searched there or waits for a scope further out. -/
theorem Offered.cases (offered : table.Offered fresh pending scope anchor id) (isFresh : id ∈ fresh) :
    id ∈ (table.activateDirectives fresh pending scope).namespaces ∨
      (anchor, id) ∈ (table.activateDirectives fresh pending scope).pending := by
  by_cases hanchor : anchor = scope
  · exact .inl (mem_activated_iff.mpr ⟨isFresh, hanchor ▸ offered⟩)
  · exact .inr (mem_pending_iff.mpr ⟨hanchor, offered⟩)

/-- Nothing is lost: fresh namespaces that wait, or that a searched scope nominates, are searched. -/
theorem searched_closed (anchors : table.AnchorsOn chain)
    (waiting : ∀ entry ∈ pending, entry.1 ∈ chain) :
    (∀ entry ∈ pending, entry.2 ∈ fresh → table.Searched chain fresh pending entry.2) ∧
      ∀ source, table.Searched chain fresh pending source →
        ∀ id ∈ table.nominated source, id ∈ fresh → table.Searched chain fresh pending id := by
  induction chain generalizing fresh pending with
  | nil =>
      refine ⟨fun entry member => absurd (waiting entry member) List.not_mem_nil, ?_⟩
      rintro source ⟨level, member, -⟩
      exact absurd member List.not_mem_nil
  | cons scope outer ih =>
      have hanchor := anchors scope outer (List.suffix_refl _)
      -- What goes on waiting is anchored on the rest of the chain.
      have hwaiting : ∀ entry ∈ (table.activateDirectives fresh pending scope).pending,
          entry.1 ∈ outer := by
        intro entry member
        obtain ⟨differs, offered⟩ := mem_pending_iff.mp member
        have hchain : entry.1 ∈ scope :: outer := by
          rcases offered with waited | ⟨source, -, -, same⟩
          · exact waiting entry waited
          · exact same ▸ hanchor entry.2
        exact (List.mem_cons.mp hchain).resolve_left differs
      obtain ⟨hpending, hclosed⟩ := @ih (table.freshAfter fresh pending scope) _ anchors.tail hwaiting
      have hfresh : ∀ {id}, id ∈ fresh →
          id ∈ (table.activateDirectives fresh pending scope).namespaces ∨
            id ∈ table.freshAfter fresh pending scope := by
        intro id isFresh
        by_cases active : id ∈ (table.activateDirectives fresh pending scope).namespaces
        · exact .inl active
        · exact .inr (List.mem_filter.mpr ⟨isFresh, by simpa using active⟩)
      have hoffered : ∀ {anchor id}, table.Offered fresh pending scope anchor id → id ∈ fresh →
          table.Searched (scope :: outer) fresh pending id := by
        intro anchor id offered isFresh
        rcases hfresh isFresh with active | stillFresh
        · exact searched_cons.mpr (.inl (mem_level.mpr (.inr active)))
        · rcases offered.cases isFresh with active | waits
          · exact searched_cons.mpr (.inl (mem_level.mpr (.inr active)))
          · exact searched_cons.mpr (.inr (hpending (anchor, id) waits stillFresh))
      refine ⟨fun entry member => hoffered (.inl member), fun source searched id nominates isFresh => ?_⟩
      rcases searched_cons.mp searched with hsource | outerSearched
      · exact hoffered (.inr ⟨source, mem_level.mp hsource, nominates, rfl⟩) isFresh
      · rcases hfresh isFresh with active | stillFresh
        · exact searched_cons.mpr (.inl (mem_level.mpr (.inr active)))
        · exact searched_cons.mpr (.inr (hclosed source outerSearched id nominates stillFresh))

/-- All scopes of the chain are searched. -/
theorem searched_of_mem (member : id ∈ chain) : table.Searched chain fresh pending id := by
  induction chain generalizing fresh pending with
  | nil => exact absurd member List.not_mem_nil
  | cons scope outer ih =>
      rcases List.mem_cons.mp member with rfl | later
      · exact searched_cons.mpr (.inl (mem_level.mpr (.inl rfl)))
      · exact searched_cons.mpr (.inr (ih later))

/-- A walk outward from a scope searches what is visible from there, and nothing else. -/
theorem searched_iff (acyclic : ∀ id, ¬ TransGen table.InsideOf id id)
    (ends : (table.scopeChain start).getLast? = some globalScope) (known : id.index < table.size) :
    table.Searched (table.scopeChain start) table.ids [] id ↔ table.VisibleFrom start id := by
  constructor
  · rintro ⟨level, hlevel, member⟩
    exact visible_of_mem_levels (fun id member => .enclosing member)
      (fun entry member => absurd member List.not_mem_nil) level hlevel id member
  · intro visible
    have hclosed := (@searched_closed table (table.scopeChain start) table.ids []
      (fun scope outer suffix => nearestCommonEnclosing_mem acyclic suffix ends)
      fun entry member => absurd member List.not_mem_nil).2
    induction visible with
    | enclosing member => exact searched_of_mem member
    | nominated _ nominates ih =>
        exact hclosed _ (ih (lt_size_of_nominated nominates)) _ nominates (mem_ids.mpr known)

end NameBinding.Table
