import NameBinding.Proofs.Table.ForwardDeclarations
import NameBinding.Proofs.Table.Growth

/-!
# Chains of typedefs

A typedef names another declaration, which may again be a typedef.  As long as such chains end, flattening
a type follows them to the end, however many steps it may take.

* `Table.nextTypedef?`: what a typedef names.
* `Table.TypedefChain` and `Table.TypedefsEnd`: the chain of a declaration, and that all of them end.
  No chain is longer than the table (`TypedefChain.steps_le`), so that `TypedefsEnd` can be decided.
-/

namespace NameBinding.Table

variable {table after last : Table} {id next x y : SymbolId} {steps steps' : Nat}

/-- What the typedef that a declaration stands for names, unless that is the typedef itself. -/
def nextTypedef? (table : Table) (id : SymbolId) : Option SymbolId :=
  let target := table.canonical id
  let aliased := (table.symbol target).type
  if aliased.isTypedef then aliased.link.filter (· ≠ target) else none

/-- Following `steps` typedefs from a declaration leads to the end. -/
inductive TypedefChain (table : Table) : Nat → SymbolId → Prop where
  | last {id : SymbolId} (ends : table.nextTypedef? id = none) : TypedefChain table 0 id
  | next {steps : Nat} {id next : SymbolId} (named : table.nextTypedef? id = some next)
      (rest : TypedefChain table steps next) : TypedefChain table (steps + 1) id

/-- The chains of typedefs end. -/
def TypedefsEnd (table : Table) : Prop :=
  ∀ id : SymbolId, id.index < table.size → ∃ steps, table.TypedefChain steps id

theorem nextTypedef?_eq_some (named : table.nextTypedef? id = some next) :
    (table.symbol (table.canonical id)).type.isTypedef = true ∧
      (table.symbol (table.canonical id)).type.link = some next ∧ next ≠ table.canonical id := by
  unfold nextTypedef? at named
  dsimp only at named
  split at named
  · rename_i htypedef
    obtain ⟨hlink, hdiffers⟩ := Option.filter_eq_some_iff.mp named
    exact ⟨htypedef, hlink, by simpa using hdiffers⟩
  · cases named

/-- A type that names nothing is flat. -/
theorem flattenSteps_of_unlinked {type : Descriptor} (unlinked : type.link = none) (steps : Nat) :
    table.flattenSteps steps type = type := by
  cases steps with
  | zero => rfl
  | succ steps => simp only [flattenSteps, unlinked]

/-- A type that names an entity other than a typedef is flat. -/
theorem flattenSteps_of_named {type : Descriptor} {link : SymbolId} (linked : type.link = some link)
    (canonical : table.canonical link = link) (named : (table.symbol link).type.isTypedef = false)
    (steps : Nat) : table.flattenSteps steps type = type := by
  cases steps with
  | zero => rfl
  | succ steps =>
      simp only [flattenSteps, linked, canonical, named, Bool.not_false, if_true]
      cases type
      cases linked
      rfl

namespace TypedefChain

/-- Declarations of one entity have chains of one length. -/
theorem unique (chain : table.TypedefChain steps x) (chain' : table.TypedefChain steps' y)
    (same : table.canonical x = table.canonical y) : steps = steps' := by
  have hnext : ∀ {x y}, table.canonical x = table.canonical y →
      table.nextTypedef? x = table.nextTypedef? y := by
    intro x y same
    rw [nextTypedef?, nextTypedef?, same]
  induction chain generalizing y steps' with
  | last ends =>
      cases chain' with
      | last => rfl
      | next named => rw [← hnext same, ends] at named; cases named
  | next named rest ih =>
      cases chain' with
      | last ends => rw [hnext same, ends] at named; cases named
      | next named' rest' =>
          rw [hnext same, named'] at named
          cases named
          exact congrArg (· + 1) (ih rest' rfl)

/-- On the way to the end, every smaller number of remaining steps occurs. -/
theorem exists_remaining (chain : table.TypedefChain steps id) {remaining : Nat}
    (fewer : remaining ≤ steps) : ∃ y, table.TypedefChain remaining y := by
  induction chain with
  | @last id ends =>
      obtain rfl : remaining = 0 := by omega
      exact ⟨id, .last ends⟩
  | @next steps id next named rest ih =>
      by_cases hall : remaining = steps + 1
      · subst hall
        exact ⟨id, .next named rest⟩
      · exact ih (by omega)

/-- A chain follows no more typedefs than the table has symbols. -/
theorem steps_le (chain : table.TypedefChain steps id) : steps ≤ table.size := by
  have hvisited : ∀ i : Fin steps, ∃ y : SymbolId,
      table.TypedefChain (i + 1) y ∧ (table.canonical y).index < table.size := by
    intro i
    obtain ⟨y, hy⟩ := chain.exists_remaining (Nat.succ_le_of_lt i.isLt)
    cases hy with
    | next named rest =>
        refine ⟨y, .next named rest, ?_⟩
        exact lt_size_of_symbol (·.type.isTypedef) rfl (nextTypedef?_eq_some named).1
  choose visited hchain hlt using hvisited
  have hinjective : Function.Injective fun i =>
      (⟨(table.canonical (visited i)).index, hlt i⟩ : Fin table.size) := by
    intro i j hsame
    have hvisited : table.canonical (visited i) = table.canonical (visited j) := by
      cases hi : table.canonical (visited i)
      cases hj : table.canonical (visited j)
      simpa [hi, hj] using hsame
    have hsteps := (hchain i).unique (hchain j) hvisited
    exact Fin.ext (by omega)
  simpa using Fintype.card_le_of_injective _ hinjective

/-- Where a chain of typedefs ends, more steps come to the same type. -/
theorem flattenSteps_eq {type : Descriptor} {link : SymbolId} {bound bound' : Nat}
    (chain : table.TypedefChain steps link) (linked : type.link = some link) (enough : steps < bound)
    (enough' : steps < bound') :
    table.flattenSteps bound type = table.flattenSteps bound' type := by
  induction chain generalizing type bound bound' with
  | @last link ends =>
      obtain ⟨bound, rfl⟩ := Nat.exists_eq_add_one_of_ne_zero (Nat.ne_of_gt enough)
      obtain ⟨bound', rfl⟩ := Nat.exists_eq_add_one_of_ne_zero (Nat.ne_of_gt enough')
      simp only [flattenSteps, linked]
      split
      · rfl
      · split
        · rfl
        · rename_i typedef differs
          -- The typedef names nothing, or the chain would go on.
          have hnone : (table.symbol (table.canonical link)).type.link = none := by
            cases hlink : (table.symbol (table.canonical link)).type.link with
            | none => rfl
            | some other =>
                rw [hlink, Option.some.injEq] at differs
                simp_all [nextTypedef?]
          rw [flattenSteps_of_unlinked, flattenSteps_of_unlinked]
          · rw [Descriptor.link_substituteBase, hnone]
          · rw [Descriptor.link_substituteBase, hnone]
  | @next steps link next named rest ih =>
      obtain ⟨bound, rfl⟩ := Nat.exists_eq_add_one_of_ne_zero (Nat.ne_of_gt (Nat.zero_lt_of_lt enough))
      obtain ⟨bound', rfl⟩ := Nat.exists_eq_add_one_of_ne_zero (Nat.ne_of_gt (Nat.zero_lt_of_lt enough'))
      obtain ⟨htypedef, hnext, hdiffers⟩ := nextTypedef?_eq_some named
      simp only [flattenSteps, linked, htypedef, hnext, Bool.not_true, Bool.false_eq_true, if_false,
        Option.some.injEq, if_neg hdiffers]
      exact ih ((Descriptor.link_substituteBase _ _).trans hnext) (by omega) (by omega)

/-- Where a chain of typedefs ends, a flattened type is flat. -/
theorem flattenSteps_flat (ends : table.LinksEnd) {type : Descriptor} {link : SymbolId} {bound : Nat}
    (chain : table.TypedefChain steps link) (linked : type.link = some link) (enough : steps < bound)
    (more : Nat) : table.flattenSteps more (table.flattenSteps bound type) = table.flattenSteps bound type := by
  induction chain generalizing type bound with
  | @last link last =>
      obtain ⟨bound, rfl⟩ := Nat.exists_eq_add_one_of_ne_zero (Nat.ne_of_gt enough)
      simp only [flattenSteps, linked]
      split
      · rename_i named
        rw [Bool.not_eq_true'] at named
        exact flattenSteps_of_named rfl (ends.canonical_canonical link) named more
      · rename_i typedef
        rw [Bool.not_eq_true', Bool.not_eq_false] at typedef
        split
        · rename_i itself
          -- A typedef that is built on itself stays as it is.
          cases more with
          | zero => rfl
          | succ more => simp [flattenSteps, linked, typedef, itself]
        · rename_i differs
          have hnone : (table.symbol (table.canonical link)).type.link = none := by
            by_contra some
            obtain ⟨other, hother⟩ := Option.ne_none_iff_exists'.mp some
            simp_all [nextTypedef?]
          have hunlinked := (Descriptor.link_substituteBase type _).trans hnone
          rw [flattenSteps_of_unlinked hunlinked, flattenSteps_of_unlinked hunlinked]
  | @next steps link next named rest ih =>
      obtain ⟨bound, rfl⟩ := Nat.exists_eq_add_one_of_ne_zero (Nat.ne_of_gt (Nat.zero_lt_of_lt enough))
      obtain ⟨htypedef, hnext, hdiffers⟩ := nextTypedef?_eq_some named
      simp only [flattenSteps, linked, htypedef, hnext, Bool.not_true, Bool.false_eq_true, if_false,
        Option.some.injEq, if_neg hdiffers]
      exact ih ((Descriptor.link_substituteBase _ _).trans hnext) (by omega)

end TypedefChain

/-! ## Finding the end -/

/-- Does the chain end after at most `bound` typedefs? -/
def typedefsEndWithin (table : Table) : Nat → SymbolId → Bool
  | 0, id => (table.nextTypedef? id).isNone
  | bound + 1, id =>
      match table.nextTypedef? id with
      | none => true
      | some next => table.typedefsEndWithin bound next

theorem typedefsEndWithin_iff (bound : Nat) (id : SymbolId) :
    table.typedefsEndWithin bound id = true ↔ ∃ steps ≤ bound, table.TypedefChain steps id := by
  induction bound generalizing id with
  | zero =>
      rw [typedefsEndWithin, Option.isNone_iff_eq_none]
      constructor
      · exact fun ends => ⟨0, Nat.le_refl _, .last ends⟩
      · rintro ⟨steps, le, chain⟩
        obtain rfl := Nat.le_zero.mp le
        cases chain
        assumption
  | succ bound ih =>
      cases hnext : table.nextTypedef? id with
      | none =>
          simp only [typedefsEndWithin, hnext, true_iff]
          exact ⟨0, Nat.zero_le _, .last hnext⟩
      | some next =>
          simp only [typedefsEndWithin, hnext, ih]
          constructor
          · rintro ⟨steps, le, chain⟩
            exact ⟨steps + 1, Nat.succ_le_succ le, .next hnext chain⟩
          · rintro ⟨steps, le, chain⟩
            cases chain with
            | last ends => rw [hnext] at ends; cases ends
            | next named rest =>
                rw [hnext, Option.some.injEq] at named
                subst named
                exact ⟨_, Nat.le_of_succ_le_succ le, rest⟩

instance : Decidable table.TypedefsEnd :=
  decidable_of_iff (∀ i : Fin table.size, table.typedefsEndWithin table.size ⟨i⟩ = true) <| by
    constructor
    · intro ends id lt
      obtain ⟨steps, -, chain⟩ := (typedefsEndWithin_iff _ _).mp (ends ⟨id.index, lt⟩)
      exact ⟨steps, chain⟩
    · intro ends i
      obtain ⟨steps, chain⟩ := ends ⟨i⟩ i.isLt
      exact (typedefsEndWithin_iff _ _).mpr ⟨steps, chain.steps_le, chain⟩

end NameBinding.Table
