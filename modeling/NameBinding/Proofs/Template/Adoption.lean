import NameBinding.Proofs.Lookup.Keeps
import NameBinding.Proofs.Template.FoundInstances

/-!
# What outlasts an instantiation

An instantiation is made of the steps of copies and of adoptions, in which a primary template takes over the instance
of its partial specialization.  What all of these keep is kept by any instantiation, whether it succeeds or fails.

* `Table.adopting`: the table after an adoption.
* `Outlasts`: what the steps of a copy and adoptions keep.

The main statement is `Outlasts.instantiationKeeps`.
-/

namespace NameBinding

/-- The table after the instance of a partial specialization was adopted. -/
def Table.adopting (table : Table) (template : SymbolId) (args : List Descriptor) (made : SymbolId) : Table :=
  (table.perform template (.append (.cached { args, symbol := made }))).perform made
    (.assign (.origin (some { template, args })))

/-- What is kept by the steps of a copy, where the symbols from `size` on are new, and by adoption: a partial
specialization was selected, instantiating it gave the symbol, which it therefore remembers, and the primary template
takes the symbol over. -/
structure Outlasts (size : Nat) (holds : Table → Prop) : Prop where
  size_le : ∀ table, holds table → size ≤ table.size
  steps : Survives size holds
  of_symbols : ∀ after last : Table, last.symbols = after.symbols → last.config = after.config →
    holds after → holds last
  adopt : ∀ bound (table last : Table) template args chosen made, holds table →
    table.selectSpecialization template args = .ok (some chosen) →
    Analysis.instantiateWithin bound chosen.1 chosen.2 table = .ok made last →
    last.Knows (table.canonical chosen.1) made → holds last → holds (last.adopting template args made)

/-- Fewer symbols may count as new. -/
theorem Survives.mono {small large : Nat} {holds : Table → Prop} (survives : Survives small holds)
    (le : small ≤ large) : Survives large holds where
  create := survives.create
  addInstance := survives.addInstance
  addPlaceholder := survives.addPlaceholder
  perform := fun table id edit fresh => survives.perform table id edit (Nat.le_trans le fresh)
  write := fun table id edit fresh => survives.write table id edit (Nat.le_trans le fresh)
  instantiations := survives.instantiations

namespace Analysis

variable {inv : Table → Prop} {evidence : Evidence} {inst : Instantiator} {table : Table}
  {template : SymbolId} {args : List Descriptor} {chosen : SymbolId × List Descriptor}

/-- Adoption keeps what is kept by making the instance, and then by remembering it under its new origin. -/
theorem yieldsAt_adoptInstance
    (makes : YieldsAt inv evidence (inst chosen.1 chosen.2) (inst chosen.1 chosen.2) (fun _ => True) table)
    (keeps : ∀ made last, inst chosen.1 chosen.2 table = .ok made last → inv last →
      inv (last.adopting template args made))
    (stays : ∀ made last, inst chosen.1 chosen.2 table = .ok made last → evidence.holds table →
      evidence.holds last → evidence.holds (last.adopting template args made)) :
    YieldsAt inv evidence (adoptInstance inst template args chosen) (adoptInstance inst template args chosen)
      (fun _ => True) table := by
  obtain ⟨hends, hevidence⟩ := makes
  cases hmade : inst chosen.1 chosen.2 table with
  | ok made last =>
      have hadopted : adoptInstance inst template args chosen table =
          .ok made (last.adopting template args made) := bind_ok hmade
      rw [hmade] at hends hevidence
      rw [YieldsAt, hadopted]
      refine ⟨⟨keeps made last hmade hends.1, trivial⟩, fun cause => ?_⟩
      have held : evidence.holds table := cause.resolve_right fun differs => differs rfl
      exact ⟨stays made last hmade held (hevidence (.inl held)).1, trivial⟩
  | error interrupt last =>
      have hfailed : adoptInstance inst template args chosen table = .error interrupt last :=
        bind_error hmade
      rw [hmade] at hends hevidence
      rw [YieldsAt, hfailed]
      cases interrupt with
      | error error => exact ⟨hends, fun cause => hevidence (cause.imp_right fun differs => absurd rfl differs)⟩
      | fault fault => exact ⟨trivial, fun _ => trivial⟩

end Analysis

namespace Outlasts

open Analysis

variable {size : Nat} {holds : Table → Prop} (outlasts : Outlasts size holds)

include outlasts

/-- In the middle of a copy. -/
theorem adopts_copying {start depth bound : Nat}
    (follows : Follows (Copying start (depth + 1)) (.lasting holds) (instantiateWithin bound)
      (instantiateWithin bound)) :
    AdmitsAdoption (Copying start (depth + 1)) (.lasting holds) (instantiateWithin bound)
      (instantiateWithin bound) := by
  intro template args chosen table copying hselected
  refine yieldsAt_adoptInstance (follows _ _ table copying)
    (fun made last _ copied => (copied.perform _ _).perform _ _) fun made last hmade held heldLast => ?_
  exact outlasts.adopt bound table last template args chosen made held hselected hmade
    (knows_instantiateWithin_copying copying hmade) heldLast

/-- Where no instantiation is running. -/
theorem adopts_idle {bound : Nat}
    (follows : Follows (fun table => table.Idle ∧ holds table) .none (instantiateWithin bound)
      (instantiateWithin bound)) :
    AdmitsAdoption (fun table => table.Idle ∧ holds table) .none (instantiateWithin bound)
      (instantiateWithin bound) := by
  intro template args chosen table both hselected
  refine yieldsAt_adoptInstance (follows _ _ table both) (fun made last hmade ended => ⟨ended.1, ?_⟩)
    fun _ _ _ _ _ => trivial
  exact outlasts.adopt bound table last template args chosen made both.2 hselected hmade
    (knows_instantiateWithin_idle both.1 hmade) ended.2

theorem admitsMemory : AdmitsMemory (fun table => table.Idle ∧ holds table) .none where
  addInstance := fun template args symbol blank origin => Yields.keeps_of_ends fun table both =>
    ⟨⟨both.1, outlasts.steps.addInstance table template args symbol blank origin both.2⟩, trivial⟩
  addPlaceholder := fun template args symbol stands => Yields.keeps_of_ends fun table both =>
    ⟨⟨both.1, outlasts.steps.addPlaceholder table template args symbol stands both.2⟩, trivial⟩

/-- A copy keeps it as far as the copy gets, and what is left of a copy that fails is nothing. -/
theorem follows_instantiateUncached (bound : Nat) :
    Follows (fun table => table.Idle ∧ holds table) .none
      (instantiateUncached (instantiateWithin bound) bound)
      (instantiateUncached (instantiateWithin bound) bound) := by
  intro template args
  refine Yields.keeps_of_ends fun table both => ?_
  rw [instantiateUncached_idle both.1]
  have hsurvives := outlasts.steps.mono (outlasts.size_le table both.2)
  have hinst := Copying.follows_of_adoption hsurvives (fun _ _ => outlasts.adopts_copying) bound 0
  have hcopy := follow_completeCopy hsurvives hinst bound template args (table.symbol template).name
    table.config.passLimit table.copyBegun both.1.copying
  have hbegun : holds table.copyBegun := outlasts.of_symbols table table.copyBegun rfl rfl both.2
  have hends := outermostCopy_ends (copiesFrom_completeCopy bound template args table _ _) both.1
    outlasts.of_symbols both.2 (hcopy.2 (.inl hbegun))
  exact hends.weaken (fun _ _ ended _ => ⟨⟨ended.1, ended.2⟩, trivial⟩) fun _ ended => ⟨ended.1, ended.2⟩

/-- Instantiation keeps it, however deeply it nests and whether or not it succeeds. -/
theorem instantiationKeeps : InstantiationKeeps fun table => table.Idle ∧ holds table := by
  intro bound
  induction bound with
  | zero =>
      intro template args
      exact Yields.violated _ _
  | succ bound ih =>
      exact tracks_adoptingStep outlasts.admitsMemory ih (outlasts.adopts_idle ih)
        (outlasts.follows_instantiateUncached bound) bound

theorem keeps_intern (text : String) :
    Keeps (fun table => table.Idle ∧ holds table) (modifyGet (·.intern text) : Analysis Name) :=
  Yields.updateGet
    (fun table both => ⟨⟨both.1, outlasts.of_symbols table _ rfl rfl both.2⟩, trivial⟩)
    fun _ _ _ => trivial

end Outlasts

end NameBinding
