import NameBinding.Proofs.Table.Rejected

/-!
# Chains of links

An alias and a linked declaration stand for another declaration, which may itself stand for a
further one.  Following the links gives a chain, and `canonical` gives up after as many links as the
table has symbols.

* `ChainTo table root steps id`: following `steps` links leads from `id` to `root`, where the chain
  ends.  No symbol occurs twice on such a chain, so that it is shorter than the table
  (`ChainTo.steps_le`) and `canonical` finds its end (`Stands.canonical_eq`).
* `Reaches table a b`: `b` lies on the chain of `a`, whether or not the chain ends.
* `canonical_link_of_not_reaches` and `stands_link`: a new link moves the chains that pass its
  source, and no others.
-/

namespace NameBinding.Table

/-- Following `steps` links leads from a symbol to `root`, where the chain ends. -/
inductive ChainTo (table : Table) (root : SymbolId) : Nat → SymbolId → Prop where
  | last (ends : table.nextLink root = none) : ChainTo table root 0 root
  | link {steps : Nat} {id next : SymbolId} (linked : table.nextLink id = some next)
      (rest : ChainTo table root steps next) : ChainTo table root (steps + 1) id

/-- The chain of `id` ends at `root`. -/
def Stands (table : Table) (id root : SymbolId) : Prop := ∃ steps, table.ChainTo root steps id

/-- `b` lies on the chain of `a`. -/
def Reaches (table : Table) : SymbolId → SymbolId → Prop :=
  Relation.ReflTransGen fun a b => table.nextLink a = some b

variable {table other : Table} {id next target root x y : SymbolId} {steps : Nat}

/-- Only a symbol of the table has a link. -/
theorem lt_size_of_nextLink (linked : table.nextLink id = some next) : id.index < table.size := by
  by_contra behind
  have hmissing := symbol_of_getElem?_none (Array.getElem?_eq_none (Nat.le_of_not_lt behind))
  rw [nextLink, hmissing] at linked
  cases linked

theorem ne_of_nextLink (linked : table.nextLink id = some next) : next ≠ id := by
  have hfilter := Option.filter_eq_some_iff.mp linked
  simpa using hfilter.2

/-! ## Chains that end -/

namespace ChainTo

/-- A chain has one length and one end. -/
theorem unique {root' : SymbolId} {steps' : Nat} (chain : table.ChainTo root steps id)
    (chain' : table.ChainTo root' steps' id) : steps = steps' ∧ root = root' := by
  induction chain generalizing steps' with
  | last ends =>
      cases chain' with
      | last => exact ⟨rfl, rfl⟩
      | link linked => simp [ends] at linked
  | link linked rest ih =>
      cases chain' with
      | last ends => simp [ends] at linked
      | link linked' rest' =>
          rw [linked, Option.some.injEq] at linked'
          subst linked'
          obtain ⟨hsteps, hroot⟩ := ih rest'
          exact ⟨congrArg (· + 1) hsteps, hroot⟩

theorem ends_root (chain : table.ChainTo root steps id) : table.nextLink root = none := by
  induction chain with
  | last ends => exact ends
  | link _ _ ih => exact ih

/-- Further steps stay at the end. -/
theorem followLinks_eq (chain : table.ChainTo root steps id) {bound : Nat} (enough : steps ≤ bound) :
    table.followLinks bound id = root := by
  induction chain generalizing bound with
  | last ends =>
      cases bound with
      | zero => rfl
      | succ bound => simp [followLinks, ends]
  | link linked rest ih =>
      cases bound with
      | zero => omega
      | succ bound =>
          simp only [followLinks, linked]
          exact ih (by omega)

/-- On the way to the end, every smaller number of remaining steps occurs. -/
theorem exists_remaining (chain : table.ChainTo root steps id) {remaining : Nat}
    (fewer : remaining ≤ steps) : ∃ y, table.ChainTo root remaining y ∧ table.Reaches id y := by
  induction chain with
  | last ends =>
      obtain rfl : remaining = 0 := by omega
      exact ⟨root, .last ends, .refl⟩
  | @link steps id next linked rest ih =>
      by_cases hall : remaining = steps + 1
      · subst hall
        exact ⟨id, .link linked rest, .refl⟩
      · obtain ⟨y, hy, hreaches⟩ := ih (by omega)
        exact ⟨y, hy, .head linked hreaches⟩

/-- Symbols with different numbers of steps to go are different, so that there are no more of them
than the table has. -/
theorem card_le {bound : Nat} {offset : Nat} (visited : Fin bound → SymbolId)
    (chains : ∀ i : Fin bound, table.ChainTo root (i + offset) (visited i))
    (lt : ∀ i, (visited i).index < table.size) : bound ≤ table.size := by
  have hinjective :
      Function.Injective fun i => (⟨(visited i).index, lt i⟩ : Fin table.size) := by
    intro i j hsame
    have hvisited : visited i = visited j := by
      cases hi : visited i
      cases hj : visited j
      simpa [hi, hj] using hsame
    have hsteps := (chains i).unique (hvisited ▸ chains j)
    exact Fin.ext (by omega)
  simpa using Fintype.card_le_of_injective _ hinjective

/-- A chain has no more links than the table has symbols. -/
theorem steps_le (chain : table.ChainTo root steps id) : steps ≤ table.size := by
  -- Whatever still has a step to go has a link, and so is a symbol of the table.
  have hvisited : ∀ i : Fin steps, ∃ y : SymbolId,
      table.ChainTo root (i + 1) y ∧ y.index < table.size := by
    intro i
    obtain ⟨y, hy, -⟩ := chain.exists_remaining (Nat.succ_le_of_lt i.isLt)
    cases hy with
    | link linked rest => exact ⟨y, .link linked rest, lt_size_of_nextLink linked⟩
  choose visited hchain hlt using hvisited
  exact card_le visited hchain hlt

/-- A chain that ends at a symbol of the table has fewer links than the table has symbols. -/
theorem steps_lt (chain : table.ChainTo root steps id) (lt : root.index < table.size) :
    steps < table.size := by
  have hvisited : ∀ i : Fin (steps + 1), ∃ y : SymbolId,
      table.ChainTo root (i + 0) y ∧ y.index < table.size := by
    rintro ⟨remaining, hremaining⟩
    obtain ⟨y, hy, -⟩ := chain.exists_remaining (Nat.le_of_lt_succ hremaining)
    refine ⟨y, hy, ?_⟩
    cases hy with
    | last => exact lt
    | link linked _ => exact lt_size_of_nextLink linked
  choose visited hchain hlt using hvisited
  have hcard := card_le visited hchain hlt
  omega

/-- A chain that the other table has too. -/
theorem congr (chain : table.ChainTo root steps id)
    (same : ∀ y, table.Reaches id y → other.nextLink y = table.nextLink y) :
    other.ChainTo root steps id := by
  induction chain with
  | last ends => exact .last ((same root .refl).trans ends)
  | @link steps id next linked rest ih =>
      refine .link ((same id .refl).trans linked) (ih fun y reaches => ?_)
      exact same y (.head linked reaches)

end ChainTo

namespace Stands

theorem canonical_eq (stands : table.Stands id root) : table.canonical id = root := by
  obtain ⟨steps, chain⟩ := stands
  exact chain.followLinks_eq chain.steps_le

theorem unique {root' : SymbolId} (stands : table.Stands id root) (stands' : table.Stands id root') :
    root = root' := by
  rw [← stands.canonical_eq, ← stands'.canonical_eq]

theorem refl (ends : table.nextLink id = none) : table.Stands id id := ⟨0, .last ends⟩

theorem ends_root (stands : table.Stands id root) : table.nextLink root = none := by
  obtain ⟨steps, chain⟩ := stands
  exact chain.ends_root

theorem head (linked : table.nextLink id = some next) (stands : table.Stands next root) :
    table.Stands id root := by
  obtain ⟨steps, chain⟩ := stands
  exact ⟨steps + 1, .link linked chain⟩

theorem of_reached (stands : table.Stands y root) (reaches : table.Reaches x y) :
    table.Stands x root := by
  induction reaches using Relation.ReflTransGen.head_induction_on with
  | refl => exact stands
  | head linked _ ih => exact .head linked ih

/-- The end of a chain lies on it. -/
theorem reaches (stands : table.Stands id root) : table.Reaches id root := by
  obtain ⟨steps, chain⟩ := stands
  induction chain with
  | last => exact .refl
  | link linked _ ih => exact .head linked ih

theorem congr (stands : table.Stands id root)
    (same : ∀ y, table.Reaches id y → other.nextLink y = table.nextLink y) :
    other.Stands id root := by
  obtain ⟨steps, chain⟩ := stands
  exact ⟨steps, chain.congr same⟩

end Stands

/-- A chain stays inside a set of symbols that all their links stay inside. -/
theorem Reaches.mem_of_closed {closed : SymbolId → Prop} (reaches : table.Reaches x y)
    (member : closed x)
    (links : ∀ a b, closed a → table.nextLink a = some b → closed b) : closed y := by
  induction reaches with
  | refl => exact member
  | tail _ linked ih => exact links _ _ ih linked

/-- A symbol without a link leads nowhere else. -/
theorem eq_of_reaches (ends : table.nextLink x = none) (reaches : table.Reaches x y) : y = x := by
  cases Relation.ReflTransGen.cases_head reaches with
  | inl same => exact same.symm
  | inr further =>
      obtain ⟨z, hlinked, -⟩ := further
      simp [ends] at hlinked

/-- Nothing stands for a symbol. -/
def Untargeted (table : Table) (id : SymbolId) : Prop := ∀ x, table.nextLink x ≠ some id

theorem Untargeted.not_reaches (untargeted : table.Untargeted id) (differs : x ≠ id) :
    ¬ table.Reaches x id := by
  intro reaches
  rcases Relation.ReflTransGen.cases_tail reaches with same | ⟨last, -, hlast⟩
  · exact differs same.symm
  · exact untargeted last hlast

/-- Every chain ends. -/
def LinksEnd (table : Table) : Prop := ∀ id, ∃ root, table.Stands id root

namespace LinksEnd

variable (ends : table.LinksEnd)

include ends

theorem stands (id : SymbolId) : table.Stands id (table.canonical id) := by
  obtain ⟨root, hroot⟩ := ends id
  rwa [hroot.canonical_eq]

theorem nextLink_canonical (id : SymbolId) : table.nextLink (table.canonical id) = none :=
  (ends.stands id).ends_root

theorem canonical_canonical (id : SymbolId) :
    table.canonical (table.canonical id) = table.canonical id :=
  (Stands.refl (ends.nextLink_canonical id)).canonical_eq

theorem canonical_of_nextLink (linked : table.nextLink id = some next) :
    table.canonical id = table.canonical next :=
  (Stands.head linked (ends.stands next)).canonical_eq

theorem canonical_of_reaches (reaches : table.Reaches x y) :
    table.canonical x = table.canonical y :=
  ((ends.stands y).of_reached reaches).canonical_eq

end LinksEnd

theorem canonical_of_nextLink_none (unlinked : table.nextLink id = none) :
    table.canonical id = id :=
  (Stands.refl unlinked).canonical_eq

/-! ## A new link -/

theorem nextLink_of_symbol_eq (aliasOf : (other.symbol id).aliasOf = (table.symbol id).aliasOf)
    (forwardTarget : (other.symbol id).forwardTarget = (table.symbol id).forwardTarget) :
    other.nextLink id = table.nextLink id := by
  rw [nextLink, nextLink, aliasOf, forwardTarget]

/-- A link changes one forward target and nothing else. -/
theorem symbol_link (table : Table) (pair : SymbolId × SymbolId) (x : SymbolId) :
    (table.link pair).symbol x =
      if pair.1 = x ∧ x.index < table.size then
        { table.symbol x with forwardTarget := some pair.2 }
      else table.symbol x :=
  symbol_perform table pair.1 _ x

@[simp]
theorem size_link (table : Table) (pair : SymbolId × SymbolId) :
    (table.link pair).size = table.size :=
  size_perform table pair.1 _

theorem symbol_link_of_ne (table : Table) {pair : SymbolId × SymbolId} (differs : x ≠ pair.1) :
    (table.link pair).symbol x = table.symbol x := by
  rw [symbol_link, if_neg fun same => differs same.1.symm]

theorem nextLink_link_of_ne (differs : x ≠ id) :
    (table.link (id, target)).nextLink x = table.nextLink x := by
  rw [nextLink, nextLink, symbol_link_of_ne table differs]

/-- An alias keeps standing for what it names. -/
theorem nextLink_link_of_alias (isAlias : (table.symbol id).aliasOf.isSome = true) (x : SymbolId) :
    (table.link (id, target)).nextLink x = table.nextLink x := by
  by_cases hx : x = id
  · subst hx
    obtain ⟨named, hnamed⟩ := Option.isSome_iff_exists.mp isAlias
    simp only [nextLink, symbol_link]
    split <;> simp [hnamed]
  · exact nextLink_link_of_ne hx

theorem nextLink_link (lt : id.index < table.size) (noAlias : (table.symbol id).aliasOf = none)
    (differs : target ≠ id) : (table.link (id, target)).nextLink id = some target := by
  simp [nextLink, symbol_link, lt, noAlias, differs]

/-- A chain that does not pass the source of a new link stays as it is. -/
theorem Stands.link_of_not_reaches (stands : table.Stands x root) (misses : ¬ table.Reaches x id) :
    (table.link (id, target)).Stands x root := by
  refine stands.congr fun y reaches => nextLink_link_of_ne ?_
  rintro rfl
  exact misses reaches

/-- A chain that passes the source of a new link ends where the target's chain does. -/
theorem Stands.link_of_reaches (lt : id.index < table.size)
    (noAlias : (table.symbol id).aliasOf = none) (stands : table.Stands target root)
    (misses : ¬ table.Reaches target id) (reaches : table.Reaches x id) :
    (table.link (id, target)).Stands x root := by
  have hdiffers : target ≠ id := by
    rintro rfl
    exact misses .refl
  have htarget : (table.link (id, target)).Stands target root := stands.link_of_not_reaches misses
  have hlinked := nextLink_link lt noAlias hdiffers
  induction reaches using Relation.ReflTransGen.head_induction_on with
  | refl => exact .head hlinked htarget
  | @head x next linked _ ih =>
      -- The source itself has a new link; whatever comes before it keeps its own.
      by_cases hx : x = id
      · subst hx
        exact .head hlinked htarget
      · exact .head ((nextLink_link_of_ne hx).trans linked) ih

/-- A link that changes a chain redirects a symbol of the table that is no alias. -/
theorem linkable_of_changed
    (changed : ¬ ∀ y, (table.link (id, target)).nextLink y = table.nextLink y) :
    id.index < table.size ∧ (table.symbol id).aliasOf = none := by
  constructor
  · by_contra behind
    refine changed fun y => nextLink_of_symbol_eq ?_ ?_
    all_goals
      rw [symbol_link, if_neg]
      rintro ⟨rfl, hlt⟩
      exact behind hlt
  · cases hnamed : (table.symbol id).aliasOf with
    | none => rfl
    | some named => exact absurd (nextLink_link_of_alias (by rw [hnamed]; rfl)) changed

/-- If the chain of the target does not come back to the source, every chain still ends. -/
theorem LinksEnd.link (ends : table.LinksEnd) (misses : ¬ table.Reaches target id) :
    (table.link (id, target)).LinksEnd := by
  intro x
  by_cases hsame : ∀ y, (table.link (id, target)).nextLink y = table.nextLink y
  · obtain ⟨root, hroot⟩ := ends x
    exact ⟨root, hroot.congr fun y _ => hsame y⟩
  · obtain ⟨hlt, hnoAlias⟩ := linkable_of_changed hsame
    by_cases hreaches : table.Reaches x id
    · exact ⟨_, .link_of_reaches hlt hnoAlias (ends.stands target) misses hreaches⟩
    · exact ⟨_, (ends.stands x).link_of_not_reaches hreaches⟩

/-- After a new link, a symbol stands for what it stood for, or for what the target stands for. -/
theorem LinksEnd.canonical_link (ends : table.LinksEnd) (misses : ¬ table.Reaches target id)
    (x : SymbolId) :
    (table.link (id, target)).canonical x = table.canonical x ∨
      (table.link (id, target)).canonical x = table.canonical target := by
  by_cases hsame : ∀ y, (table.link (id, target)).nextLink y = table.nextLink y
  · left
    exact ((ends.stands x).congr fun y _ => hsame y).canonical_eq
  · obtain ⟨hlt, hnoAlias⟩ := linkable_of_changed hsame
    by_cases hreaches : table.Reaches x id
    · right
      exact (Stands.link_of_reaches hlt hnoAlias (ends.stands target) misses hreaches).canonical_eq
    · left
      exact ((ends.stands x).link_of_not_reaches hreaches).canonical_eq

/-- A symbol that is to stand for itself ends its chain, unless it is an alias. -/
theorem LinksEnd.link_self (ends : table.LinksEnd) (id : SymbolId) :
    (table.link (id, id)).LinksEnd := by
  have hself : (table.link (id, id)).nextLink id = none ∨
      (table.link (id, id)).nextLink id = table.nextLink id := by
    simp only [nextLink, symbol_link]
    split
    · cases hnamed : (table.symbol id).aliasOf with
      | none => exact .inl (by simp)
      | some named => exact .inr (by simp)
    · exact .inr rfl
  intro x
  obtain ⟨root, steps, chain⟩ := ends x
  induction chain with
  | last hend =>
      by_cases hroot : root = id
      · subst hroot
        rcases hself with hnone | hsame
        · exact ⟨_, .refl hnone⟩
        · exact ⟨_, .refl (hsame.trans hend)⟩
      · exact ⟨_, .refl ((nextLink_link_of_ne hroot).trans hend)⟩
  | @link steps x next hlink _ ih =>
      obtain ⟨last, hlast⟩ := ih
      by_cases hx : x = id
      · subst hx
        rcases hself with hnone | hsame
        · exact ⟨_, .refl hnone⟩
        · exact ⟨last, .head (hsame.trans hlink) hlast⟩
      · exact ⟨last, .head ((nextLink_link_of_ne hx).trans hlink) hlast⟩

end NameBinding.Table
