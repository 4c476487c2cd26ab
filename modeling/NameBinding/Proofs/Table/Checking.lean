import NameBinding.Proofs.Table.Unambiguous

/-!
# Checking a new declaration

A new declaration is checked against the earlier ones of its name, one after another, and linked with those
that declare the same entity.

* `Table.Ready`: what must be in place before a declaration is added.
* `Table.Checking`: what holds while it is checked.  Links never join two earlier entities: they lead from
  the new declaration to an earlier one, or from the one earlier entity that it completes to the new one.
* `Checking.step`: one more earlier declaration is checked; `Checking.run`: all of them.

The main statement is `Checking.declared`: wherever the check ends, the new declaration counts as passed.
-/

namespace NameBinding

namespace Table

variable {careful : Prop} {table after : Table} {passed done merged olds : List SymbolId}
  {a b c new old scope target x y : SymbolId}

/-! ## Links only -/

/-- The tables differ in forward targets only. -/
structure SameButLinks (table after : Table) : Prop where
  size_eq : after.size = table.size
  symbols : ∀ x, after.symbol x =
    { table.symbol x with forwardTarget := (after.symbol x).forwardTarget }

namespace SameButLinks

theorem refl (table : Table) : table.SameButLinks table := ⟨rfl, fun _ => rfl⟩

theorem link (same : table.SameButLinks after) (pair : SymbolId × SymbolId) :
    table.SameButLinks (after.link pair) := by
  refine ⟨(size_link after pair).trans same.size_eq, fun x => ?_⟩
  rw [symbol_link]
  split
  · rw [same.symbols x]
  · exact same.symbols x

variable (same : table.SameButLinks after)

include same

theorem head (x : SymbolId) : (after.symbol x).SameHead (table.symbol x) := by
  rw [same.symbols x]
  exact ⟨rfl, rfl, rfl, rfl, rfl, rfl, rfl, rfl⟩

theorem scope_eq (x : SymbolId) : (after.symbol x).scope = (table.symbol x).scope := by
  rw [same.symbols x]

theorem bare (x : SymbolId) (bare : (table.symbol x).Bare) : (after.symbol x).Bare := by
  rw [same.symbols x]
  exact ⟨bare.aliasOf, bare.parents, bare.renamed, bare.specializations⟩

theorem members_eq (scope : SymbolId) (name : Name) :
    after.members scope name = table.members scope name := by
  rw [members, members, same.symbols scope]
  rfl

theorem templated?_eq (x : SymbolId) : after.templated? x = table.templated? x := by
  rw [Table.templated?_eq, Table.templated?_eq, (same.head x).isTemplate, (same.head x).name,
    same.members_eq]

theorem entityClass_eq (x : SymbolId) : after.entityClass x = table.entityClass x :=
  entityClass_congr (fun y => (same.head y).type) (same.templated?_eq x)

theorem isForwardDeclaration_eq (x : SymbolId) :
    after.isForwardDeclaration x = table.isForwardDeclaration x :=
  isForwardDeclaration_congr (fun y => (same.head y).type) (same.head x).isTemplate
    (same.templated?_eq x)

theorem isCompletable_eq (x : SymbolId) : after.isCompletable x = table.isCompletable x := by
  rw [isCompletable, isCompletable, same.isForwardDeclaration_eq, (same.head x).type]

end SameButLinks

/-! ## Verdicts -/

/-- Only rivals are linked. -/
theorem rival_of_redeclare_link (linked : table.redeclare old new = .link a b) :
    table.Rival True old new := by
  unfold redeclare at linked
  split at linked
  · rename_i hold hnew
    exact ⟨hold.trans hnew.symm, fun hfunction => by simp [hold] at hfunction⟩
  · rename_i hold hnew
    refine ⟨hold.trans hnew.symm, fun _ => ?_⟩
    simp only [redeclareFunction] at linked
    split at linked
    · cases linked
    · rename_i hsame
      simp only [Bool.or_eq_true, not_or, Bool.not_eq_true, Bool.not_eq_false'] at hsame
      exact ⟨trivial, hsame.1.1.1, hsame.1.1.2, hsame.2⟩
  · rename_i hold hnew
    exact ⟨hold.trans hnew.symm, fun hfunction => by simp [hold] at hfunction⟩
  all_goals cases linked

/-- An earlier declaration that is redirected to the new one is one that can be completed. -/
theorem isCompletable_of_redeclare_link (linked : table.redeclare old new = .link old new)
    (differs : old ≠ new) : table.isCompletable old = true := by
  have hforward : table.completeForward old new = .link old new →
      table.isCompletable old = true := by
    intro complete
    unfold completeForward at complete
    split at complete
    · simp only [Verdict.link.injEq] at complete
      exact absurd complete.1.symm differs
    · split at complete
      · rename_i hcompletes
        rw [Bool.and_eq_true] at hcompletes
        simp [isCompletable, hcompletes.1]
      · cases complete
  rcases class_of_redeclare_link linked with ⟨hold, hnew, -⟩ | ⟨-, hcomplete⟩
  · simp only [redeclare, hold, hnew, redeclareObject] at linked
    split at linked
    · cases linked
    · split at linked
      · split at linked
        · simp only [Verdict.link.injEq] at linked
          exact absurd linked.1.symm differs
        · cases linked
      · split at linked
        · simp only [Verdict.link.injEq] at linked
          exact absurd linked.1.symm differs
        · split at linked
          · rename_i hextern
            rw [Bool.and_eq_true] at hextern
            simp [isCompletable, hextern.1]
          · cases linked
  · exact hforward hcomplete

theorem completeForward_ne_separate (old new : SymbolId) :
    table.completeForward old new ≠ .separate := by
  unfold completeForward
  split
  · simp
  · split <;> simp

/-- Rivals that are left beside each other are one entity already. -/
theorem canonical_of_redeclare_separate (separate : table.redeclare old new = .separate)
    (noAlias : ∀ x, (table.symbol x).aliasOf = none)
    (templates : table.declClass old = .function →
      (table.symbol (table.canonical old)).isTemplate = (table.symbol old).isTemplate)
    (rival : table.Rival careful old new) :
    table.canonical old = table.canonical new := by
  have hclass := rival.declClass
  unfold redeclare at separate
  split at separate
  · simp only [redeclareTag, noAlias, Option.isSome_none, Bool.or_self, Bool.false_eq_true,
      if_false] at separate
    split at separate
    · exact absurd separate (completeForward_ne_separate old new)
    · cases separate
  · rename_i hold hnew
    obtain ⟨-, ha, hb, hsame⟩ := rival.function hold
    have hcanonical := (templates hold).trans ha
    simp only [redeclareFunction, ha, hb, hsame, hcanonical, Bool.or_self, Bool.not_true,
      Bool.false_eq_true, if_false] at separate
    split at separate
    · split at separate
      · exact absurd separate (completeForward_ne_separate old new)
      · cases separate
    · exact absurd separate (completeForward_ne_separate old new)
  · simp only [redeclareObject] at separate
    split at separate
    · assumption
    · split at separate
      · split at separate <;> cases separate
      · split at separate
        · cases separate
        · split at separate <;> cases separate
  all_goals simp_all

/-- An object and a function exclude each other. -/
theorem apart_of_redeclare (accepted : table.redeclare old new ≠ .conflict) :
    (table.declClass old = .object → table.declClass new ≠ .function) ∧
      (table.declClass new = .object → table.declClass old ≠ .function) := by
  constructor
  · intro hold hnew
    exact accepted (by simp [redeclare, hold, hnew])
  · intro hnew hold
    exact accepted (by simp [redeclare, hold, hnew])

/-! ## The state of a check -/

/-- What must be in place before a declaration is added beside `olds`: if it is a template, its templated
declaration, and every declaration that the types of its parameters name.  Care with typedefs means that a
typedef names passed declarations only, is neither forward nor extern, and does not come after a forward or
extern declaration of its class. -/
structure Ready (careful : Prop) (passed olds : List SymbolId) (new : SymbolId) (table : Table) :
    Prop where
  fresh : new ∉ passed
  lt_size : new.index < table.size
  templated : (table.symbol new).isTemplate = true → (table.templated? new).isSome = true
  parameters : ∀ parameter ∈ (table.symbol new).parameters,
    ∀ link, (table.symbol parameter).type.link = some link → link ∈ passed
  names : careful → (table.symbol new).type.isTypedef = true →
    ∀ link, (table.symbol new).type.link = some link → link ∈ passed
  final : careful → (table.symbol new).type.isTypedef = true → table.isCompletable new = false
  first : careful → (table.symbol new).type.isTypedef = true → ∀ old ∈ olds,
    table.declClass old = table.declClass new → table.isCompletable old = false

/-- The earlier declaration declares the same entity as the new one. -/
structure Akin (careful : Prop) (table : Table) (old new : SymbolId) : Prop where
  declClass : table.declClass old = table.declClass new
  plain : table.declClass new = .function →
    (table.symbol old).isTemplate = false ∧ (table.symbol new).isTemplate = false
  rival : careful → table.Rival careful old new

theorem Akin.rival_of (akin : table.Akin careful old new)
    (functions : table.declClass new = .function → careful) : table.Rival careful old new := by
  by_cases hcareful : careful
  · exact akin.rival hcareful
  · refine ⟨akin.declClass, fun hfunction => ?_⟩
    exact absurd (functions (akin.declClass.symm.trans hfunction)) hcareful

/-- A new declaration that is to be checked against `olds`. -/
structure Entering (careful : Prop) (passed olds : List SymbolId) (new : SymbolId) (table : Table) :
    Prop where
  declared : table.Declared careful passed
  ready : table.Ready careful passed olds new
  sub : ∀ old ∈ olds, old ∈ passed
  unambiguous : table.Unambiguous careful olds

namespace Entering

variable (entering : table.Entering careful passed olds new)

include entering

theorem ne_new (member : x ∈ passed) : x ≠ new := by
  rintro rfl
  exact entering.ready.fresh member

theorem canonical_new : table.canonical new = new :=
  entering.declared.canonical_of_fresh entering.ready.fresh

/-- The rivals of the new declaration are one entity. -/
theorem canonical_rivals (memberA : a ∈ olds) (memberB : b ∈ olds)
    (rivalA : table.Rival careful a new) (rivalB : table.Rival careful b new) :
    table.canonical a = table.canonical b :=
  entering.unambiguous.shares a memberA b memberB (rivalA.trans rivalB.symm)

end Entering

/-- The declarations `done` have been checked.  Those in `merged` are entities of `table` that stand for the
new declaration from now on. -/
structure Checking (careful : Prop) (passed olds : List SymbolId) (new : SymbolId)
    (done merged : List SymbolId) (table after : Table) : Prop where
  sub : ∀ old ∈ done, old ∈ olds
  same : table.SameButLinks after
  linksEnd : after.LinksEnd
  may : after.MayJoin new
  others : ∀ x, x ∉ passed → x ≠ new → after.nextLink x = none ∧ after.Untargeted x
  canonical : ∀ x ∈ passed,
    after.canonical x = if table.canonical x ∈ merged then new else table.canonical x
  roots : ∀ m ∈ merged, m ∈ olds ∧ table.canonical m = m
  akin : ∀ m ∈ merged, table.Akin careful m new
  final : careful → ∀ m ∈ merged, (table.symbol m).type.isTypedef = false ∧
    (table.symbol new).type.isTypedef = false
  targeted : ∀ x, after.nextLink x = some new → x ∈ merged
  root : merged ≠ [] → after.nextLink new = none
  collapsed : after.nextLink new = none ∨
    ∃ r ∈ olds, table.Akin careful r new ∧ after.canonical new = after.canonical r
  shares : ∀ old ∈ done, table.Rival careful old new → after.canonical old = after.canonical new
  apart : ∀ old ∈ done, (table.declClass old = .object → table.declClass new ≠ .function) ∧
    (table.declClass new = .object → table.declClass old ≠ .function)

/-- At the beginning nothing is linked. -/
theorem Entering.checking (entering : table.Entering careful passed olds new) :
    table.Checking careful passed olds new [] [] table where
  sub := fun old member => absurd member List.not_mem_nil
  same := .refl table
  linksEnd := entering.declared.linksEnd
  may := by
    obtain ⟨hunlinked, huntargeted⟩ := entering.declared.alone new entering.ready.fresh
    exact .of_alone hunlinked huntargeted
  others := fun x fresh _ => entering.declared.alone x fresh
  canonical := fun x _ => by simp
  roots := fun m member => absurd member List.not_mem_nil
  akin := fun m member => absurd member List.not_mem_nil
  final := fun _ m member => absurd member List.not_mem_nil
  targeted := fun x linked =>
    absurd linked ((entering.declared.alone new entering.ready.fresh).2 x)
  root := fun nonempty => absurd rfl nonempty
  collapsed := .inl (entering.declared.alone new entering.ready.fresh).1
  shares := fun old member => absurd member List.not_mem_nil
  apart := fun old member => absurd member List.not_mem_nil

namespace Checking

variable (checking : table.Checking careful passed olds new done merged after)
  (entering : table.Entering careful passed olds new)

include checking entering

/-! ### What links leave alone -/

omit entering in
/-- What the new declaration stands for: itself, or what an earlier declaration of its entity stands for. -/
theorem canonical_cases : after.canonical new = new ∨
    ∃ r ∈ olds, table.Akin careful r new ∧ after.canonical new = after.canonical r := by
  rcases checking.collapsed with hunlinked | hcollapsed
  · exact .inl (canonical_of_nextLink_none hunlinked)
  · exact .inr hcollapsed

theorem canonical_mem (member : x ∈ passed ∨ x = new) :
    after.canonical x ∈ passed ∨ after.canonical x = new := by
  have hpassed : ∀ y ∈ passed, after.canonical y ∈ passed ∨ after.canonical y = new := by
    intro y hy
    rw [checking.canonical y hy]
    split
    · exact .inr rfl
    · exact .inl (entering.declared.canonical_mem hy)
  rcases member with hx | rfl
  · exact hpassed x hx
  · rcases checking.canonical_cases with hself | ⟨r, hr, -, hsame⟩
    · exact .inr hself
    · rw [hsame]
      exact hpassed r (entering.sub r hr)

/-- Links do not change classes. -/
theorem declClass_eq (member : x ∈ passed ∨ x = new) :
    after.declClass x = table.declClass x := by
  have hpassed : ∀ y ∈ passed, after.declClass y = table.declClass y := by
    intro y hy
    rw [Table.declClass_eq, Table.declClass_eq, checking.same.entityClass_eq,
      checking.canonical y hy]
    split
    · rename_i hmerged
      have hclass := (checking.akin _ hmerged).declClass
      rw [Table.declClass_eq, Table.declClass_eq, entering.canonical_new,
        (checking.roots _ hmerged).2] at hclass
      exact hclass.symm
    · rfl
  rcases member with hx | rfl
  · exact hpassed x hx
  · rcases checking.canonical_cases with hself | ⟨r, hr, hakin, hsame⟩
    · rw [Table.declClass_eq, Table.declClass_eq, checking.same.entityClass_eq, hself,
        entering.canonical_new]
    · have hclass := hpassed r (entering.sub r hr)
      rw [Table.declClass_eq, ← hsame, ← Table.declClass_eq] at hclass
      exact hclass.trans hakin.declClass

/-- Where typedefs are declared with care, links only rename entities. -/
theorem renames (hcareful : careful) :
    table.Renames passed (fun x => if x ∈ merged then new else x) after where
  canonical := checking.canonical
  typedef := by
    intro x _ typedef
    have hkept : x ∉ merged := fun hmerged => by
      have hplain := (checking.final hcareful x hmerged).1
      rw [typedef] at hplain
      cases hplain
    exact ⟨if_neg hkept, (checking.same.head x).type⟩
  plain := by
    intro x _ plain
    split
    · rename_i hmerged
      rw [(checking.same.head new).type]
      exact (checking.final hcareful x hmerged).2
    · rw [(checking.same.head x).type]
      exact plain
  injective := by
    intro x hx y hy hsame
    split at hsame
    · rename_i hxmerged
      split at hsame
      · rename_i hymerged
        -- Both are the entity of which the new declaration is a rival.
        have hcanonical := entering.canonical_rivals (checking.roots x hxmerged).1
          (checking.roots y hymerged).1 ((checking.akin x hxmerged).rival hcareful)
          ((checking.akin y hymerged).rival hcareful)
        rwa [(checking.roots x hxmerged).2, (checking.roots y hymerged).2] at hcanonical
      · exact absurd hsame.symm (entering.ne_new hy)
    · split at hsame
      · exact absurd hsame (entering.ne_new hx)
      · exact hsame

theorem keepsCall (member : x ∈ passed ∨ x = new) : KeepsCall passed table after x := by
  have hhead := checking.same.head x
  rcases member with hx | rfl
  · exact entering.declared.keepsCall hx hhead fun y _ => (checking.same.head y).type
  · exact ⟨hhead.type, hhead.varargs, hhead.parameters, fun y _ => (checking.same.head y).type,
      entering.ready.parameters⟩

/-- A function stands for one with the same parameters as before. -/
theorem sameCall_canonical (hcareful : careful) (member : x ∈ passed ∨ x = new)
    (function : table.declClass x = .function) :
    table.SameCall (table.canonical x) (after.canonical x) := by
  have hrival : ∀ r ∈ passed, table.Rival careful r new → table.declClass new = .function →
      table.SameCall (table.canonical r) new := by
    intro r hr rival hfunction
    obtain ⟨-, -, -, hsame⟩ := rival.function (rival.declClass.trans hfunction)
    rw [hasSameParameters_iff, entering.canonical_new] at hsame
    rcases hsame with hone | hcall
    · exact absurd hone (entering.ne_new (entering.declared.canonical_mem hr))
    · exact hcall
  have hpassed : ∀ y ∈ passed, table.declClass y = .function →
      table.SameCall (table.canonical y) (after.canonical y) := by
    intro y hy hfunction
    rw [checking.canonical y hy]
    split
    · rename_i hmerged
      obtain ⟨hold, hroot⟩ := checking.roots _ hmerged
      have hakin := checking.akin _ hmerged
      have hclass : table.declClass (table.canonical y) = .function := by
        rw [Table.declClass_eq, hroot, ← Table.declClass_eq]
        exact hfunction
      have hcall := hrival _ (entering.sub _ hold) (hakin.rival hcareful)
        (hakin.declClass.symm.trans hclass)
      rwa [hroot] at hcall
    · exact .refl table _
  rcases member with hx | rfl
  · exact hpassed x hx function
  · rw [entering.canonical_new]
    rcases checking.canonical_cases with hself | ⟨r, hr, hakin, hsame⟩
    · rw [hself]
      exact .refl table _
    · rw [hsame]
      have hcall := hrival r (entering.sub r hr) (hakin.rival hcareful) function
      exact hcall.symm.trans (hpassed r (entering.sub r hr) (hakin.declClass.trans function))

theorem hasSameParameters_eq (hcareful : careful) (memberA : a ∈ passed ∨ a = new)
    (memberB : b ∈ passed ∨ b = new) (functionA : table.declClass a = .function)
    (functionB : table.declClass b = .function) :
    after.hasSameParameters a b = table.hasSameParameters a b := by
  have hsize := checking.same.size_eq
  have hrenamed := (checking.renames entering hcareful).sameCall_iff
    (entering.declared.typedefs hcareful) entering.declared.length_le (by omega)
    (checking.keepsCall entering (checking.canonical_mem entering memberA))
    (checking.keepsCall entering (checking.canonical_mem entering memberB))
  have hcallA := checking.sameCall_canonical entering hcareful memberA functionA
  have hcallB := checking.sameCall_canonical entering hcareful memberB functionB
  rw [Bool.eq_iff_iff, hasSameParameters_iff, hasSameParameters_iff, hrenamed]
  constructor
  · rintro (one | call)
    · rw [← one] at hcallB
      exact .inr (hcallA.trans hcallB.symm)
    · exact .inr (hcallA.trans (call.trans hcallB.symm))
  · rintro (one | call)
    · rw [one] at hcallA
      exact .inr (hcallA.symm.trans hcallB)
    · exact .inr (hcallA.symm.trans (call.trans hcallB))

/-- The same declarations are rivals as at the beginning. -/
theorem rival_iff (memberA : a ∈ passed ∨ a = new) (memberB : b ∈ passed ∨ b = new) :
    after.Rival careful a b ↔ table.Rival careful a b := by
  have hclassA := checking.declClass_eq entering memberA
  have hclassB := checking.declClass_eq entering memberB
  have htemplateA := (checking.same.head a).isTemplate
  have htemplateB := (checking.same.head b).isTemplate
  constructor
  · rintro ⟨hclass, hfunction⟩
    rw [hclassA, hclassB] at hclass
    rw [hclassA, htemplateA, htemplateB] at hfunction
    refine ⟨hclass, fun hclassFunction => ?_⟩
    obtain ⟨hcareful, ha, hb, hsame⟩ := hfunction hclassFunction
    rw [checking.hasSameParameters_eq entering hcareful memberA memberB hclassFunction
      (hclass.symm.trans hclassFunction)] at hsame
    exact ⟨hcareful, ha, hb, hsame⟩
  · rintro ⟨hclass, hfunction⟩
    constructor
    · rw [hclassA, hclassB]
      exact hclass
    · rw [hclassA, htemplateA, htemplateB]
      intro hclassFunction
      obtain ⟨hcareful, ha, hb, hsame⟩ := hfunction hclassFunction
      rw [checking.hasSameParameters_eq entering hcareful memberA memberB hclassFunction
        (hclass.symm.trans hclassFunction)]
      exact ⟨hcareful, ha, hb, hsame⟩

/-- Only functions that are no templates are linked. -/
theorem templates_eq (member : x ∈ passed ∨ x = new) (function : table.declClass x = .function) :
    (after.symbol (after.canonical x)).isTemplate = (after.symbol x).isTemplate := by
  have hpassed : ∀ y ∈ passed, table.declClass y = .function →
      (table.symbol (after.canonical y)).isTemplate = (table.symbol y).isTemplate := by
    intro y hy hfunction
    rw [checking.canonical y hy, ← entering.declared.templates y hy hfunction]
    split
    · rename_i hmerged
      have hakin := checking.akin _ hmerged
      have hclass : table.declClass new = .function := by
        rw [← hakin.declClass, Table.declClass_eq, (checking.roots _ hmerged).2,
          ← Table.declClass_eq]
        exact hfunction
      obtain ⟨hold, hnew⟩ := hakin.plain hclass
      rw [hold, hnew]
    · rfl
  rw [(checking.same.head _).isTemplate, (checking.same.head x).isTemplate]
  rcases member with hx | rfl
  · exact hpassed x hx function
  · rcases checking.canonical_cases with hself | ⟨r, hr, hakin, hsame⟩
    · rw [hself]
    · obtain ⟨hold, hnew⟩ := hakin.plain function
      rw [hsame, hpassed r (entering.sub r hr) (hakin.declClass.trans function), hold, hnew]

/-- A function template is not linked to anything. -/
theorem canonical_template (member : x ∈ passed ∨ x = new)
    (function : table.declClass x = .function) (template : (table.symbol x).isTemplate = true) :
    after.canonical x = x := by
  rcases member with hx | rfl
  · have hself := entering.declared.unlinked x hx function template
    rw [checking.canonical x hx, hself]
    refine if_neg fun hmerged => ?_
    have hakin := checking.akin x hmerged
    have hplain := (hakin.plain (hakin.declClass.symm.trans function)).1
    rw [template] at hplain
    cases hplain
  · rcases checking.canonical_cases with hself | ⟨r, hr, hakin, -⟩
    · exact hself
    · have hplain := (hakin.plain function).2
      rw [template] at hplain
      cases hplain

/-! ### One more check -/

section Step

variable (member : old ∈ olds)

include member

theorem akin_of_link (linked : after.redeclare old new = .link a b) :
    table.Akin careful old new := by
  have hold : old ∈ passed ∨ old = new := .inl (entering.sub old member)
  have hnew : new ∈ passed ∨ new = new := .inr rfl
  have hrival := rival_of_redeclare_link linked
  have hclass := hrival.declClass
  rw [checking.declClass_eq entering hold, checking.declClass_eq entering hnew] at hclass
  refine ⟨hclass, fun hfunction => ?_, fun hcareful => ?_⟩
  · have hbefore : after.declClass old = .function := by
      rw [checking.declClass_eq entering hold, hclass]
      exact hfunction
    obtain ⟨-, ha, hb, -⟩ := hrival.function hbefore
    rw [(checking.same.head old).isTemplate] at ha
    rw [(checking.same.head new).isTemplate] at hb
    exact ⟨ha, hb⟩
  · refine (checking.rival_iff entering hold hnew).mp ⟨hrival.declClass, fun hfunction => ?_⟩
    exact ⟨hcareful, (hrival.function hfunction).2⟩

/-- The new declaration collapses onto an earlier one only if it completes none. -/
theorem merged_eq_nil (linked : after.redeclare old new = .link new old) : merged = [] := by
  have hpassed := entering.sub old member
  have hdiffers := entering.ne_new hpassed
  by_contra nonempty
  obtain ⟨m, hm⟩ := List.exists_mem_of_ne_nil merged nonempty
  obtain ⟨hmold, hmroot⟩ := checking.roots m hm
  have hmnew : after.canonical m = new := by
    rw [checking.canonical m (entering.sub m hmold), hmroot, if_pos hm]
  rcases class_of_redeclare_link linked with ⟨-, hobject, hdistinct⟩ | ⟨hclass, hcomplete⟩
  · rw [checking.declClass_eq entering (.inr rfl)] at hobject
    have hfunctions : table.declClass new = .function → careful := by simp [hobject]
    have hrivals := entering.canonical_rivals member hmold
      ((checking.akin_of_link entering member linked).rival_of hfunctions)
      ((checking.akin m hm).rival_of hfunctions)
    rw [hmroot] at hrivals
    refine hdistinct ?_
    rw [checking.canonical old hpassed, hrivals, if_pos hm,
      canonical_of_nextLink_none (checking.root nonempty)]
  · unfold completeForward at hcomplete
    rcases checking.may with object | ⟨-, huntargeted⟩ | ⟨hdefinition, -⟩
    · exact hclass object
    · have hreaches := (checking.linksEnd.stands m).reaches
      rw [hmnew] at hreaches
      exact huntargeted.not_reaches (entering.ne_new (entering.sub m hmold)) hreaches
    · rw [if_neg (by simp [hdefinition])] at hcomplete
      split at hcomplete
      · simp only [Verdict.link.injEq] at hcomplete
        exact hdiffers hcomplete.1
      · cases hcomplete

/-- The new declaration completes an earlier one only if it stands for itself. -/
theorem nextLink_new (linked : after.redeclare old new = .link old new) :
    after.nextLink new = none := by
  have hpassed := entering.sub old member
  have hdiffers := entering.ne_new hpassed
  rcases class_of_redeclare_link linked with ⟨-, hobject, hdistinct⟩ | ⟨hclass, hcomplete⟩
  · rcases checking.collapsed with hunlinked | ⟨r, hr, hakin, hsame⟩
    · exact hunlinked
    · exfalso
      rw [checking.declClass_eq entering (.inr rfl)] at hobject
      have hfunctions : table.declClass new = .function → careful := by simp [hobject]
      have hrivals := entering.canonical_rivals member hr
        ((checking.akin_of_link entering member linked).rival_of hfunctions)
        (hakin.rival_of hfunctions)
      refine hdistinct ?_
      rw [hsame, checking.canonical old hpassed, checking.canonical r (entering.sub r hr), hrivals]
  · unfold completeForward at hcomplete
    rcases checking.may with object | ⟨hforward, -⟩ | ⟨-, hunlinked⟩
    · exact absurd object hclass
    · rw [if_pos hforward] at hcomplete
      simp only [Verdict.link.injEq] at hcomplete
      exact absurd hcomplete.1.symm hdiffers
    · exact hunlinked

theorem apart_append (accepted : after.redeclare old new ≠ .conflict) :
    ∀ x ∈ done ++ [old], (table.declClass x = .object → table.declClass new ≠ .function) ∧
      (table.declClass new = .object → table.declClass x ≠ .function) := by
  intro x hx
  rcases List.mem_append.mp hx with before | last
  · exact checking.apart x before
  · rw [List.mem_singleton.mp last]
    have hapart := apart_of_redeclare accepted
    rwa [checking.declClass_eq entering (.inl (entering.sub old member)),
      checking.declClass_eq entering (.inr rfl)] at hapart

omit entering in
theorem sub_append : ∀ x ∈ done ++ [old], x ∈ olds := by
  intro x hx
  rcases List.mem_append.mp hx with before | last
  · exact checking.sub x before
  · rwa [List.mem_singleton.mp last]

omit member in
theorem noAlias (x : SymbolId) : (after.symbol x).aliasOf = none :=
  (checking.same.bare x (entering.declared.bare x)).aliasOf

/-- The earlier declaration and the new one stand beside each other. -/
theorem separate (verdict : after.redeclare old new = .separate) :
    table.Checking careful passed olds new (done ++ [old]) merged after := by
  have hold : old ∈ passed ∨ old = new := .inl (entering.sub old member)
  have hshares : table.Rival careful old new → after.canonical old = after.canonical new := by
    intro rival
    refine canonical_of_redeclare_separate verdict (checking.noAlias entering) ?_
      ((checking.rival_iff entering hold (.inr rfl)).mpr rival)
    intro hfunction
    rw [checking.declClass_eq entering hold] at hfunction
    exact checking.templates_eq entering hold hfunction
  have haccepted : after.redeclare old new ≠ .conflict := by simp [verdict]
  refine { checking with
    sub := checking.sub_append member
    shares := ?_
    apart := checking.apart_append entering member haccepted }
  intro x hx
  rcases List.mem_append.mp hx with before | last
  · exact checking.shares x before
  · rw [List.mem_singleton.mp last]
    exact hshares

/-- The new declaration collapses onto the earlier one. -/
theorem link_new (linked : after.redeclare old new = .link new old) :
    table.Checking careful passed olds new (done ++ [old]) merged (after.link (new, old)) := by
  have hpassed := entering.sub old member
  have hdiffers := entering.ne_new hpassed
  obtain rfl := checking.merged_eq_nil entering member linked
  have hakin := checking.akin_of_link entering member linked
  have huntargeted : after.Untargeted new := fun x hx =>
    absurd (checking.targeted x hx) List.not_mem_nil
  have hmisses := checking.may.not_reaches checking.linksEnd hdiffers linked
  have hends := checking.linksEnd.link hmisses
  have hlt : new.index < after.size := by
    rw [checking.same.size_eq]
    exact entering.ready.lt_size
  have hnext : (after.link (new, old)).nextLink new = some old :=
    nextLink_link hlt (checking.noAlias entering new) hdiffers
  have hnew := hends.canonical_of_nextLink hnext
  -- No other chain passes the new declaration.
  have hcanonical : ∀ x, x ≠ new → (after.link (new, old)).canonical x = after.canonical x := by
    intro x hx
    exact ((checking.linksEnd.stands x).link_of_not_reaches
      (huntargeted.not_reaches hx)).canonical_eq
  have haccepted : after.redeclare old new ≠ .conflict := by simp [linked]
  exact
    { sub := checking.sub_append member
      same := checking.same.link _
      linksEnd := hends
      may := checking.may.link checking.linksEnd hdiffers linked
      others := by
        intro x fresh hx
        obtain ⟨hunlinked, huntargetedx⟩ := checking.others x fresh hx
        refine ⟨(nextLink_link_of_ne hx).trans hunlinked, fun y hy => ?_⟩
        by_cases hynew : y = new
        · rw [hynew, hnext, Option.some.injEq] at hy
          exact fresh (hy ▸ hpassed)
        · rw [nextLink_link_of_ne hynew] at hy
          exact huntargetedx y hy
      canonical := by
        intro x hx
        rw [hcanonical x (entering.ne_new hx)]
        exact checking.canonical x hx
      roots := checking.roots
      akin := checking.akin
      final := checking.final
      targeted := by
        intro x hx
        by_cases hxnew : x = new
        · exact absurd hxnew.symm (ne_of_nextLink hx)
        · rw [nextLink_link_of_ne hxnew] at hx
          exact checking.targeted x hx
      root := fun nonempty => absurd rfl nonempty
      collapsed := .inr ⟨old, member, hakin, hnew⟩
      shares := by
        intro x hx rival
        have hxold := checking.sub_append member x hx
        have hfunctions : table.declClass new = .function → careful := fun hfunction =>
          (rival.function (rival.declClass.trans hfunction)).1
        have hrivals := entering.canonical_rivals hxold member rival (hakin.rival_of hfunctions)
        have hxpassed := entering.sub x hxold
        rw [hnew, hcanonical x (entering.ne_new hxpassed), hcanonical old hdiffers,
          checking.canonical x hxpassed, checking.canonical old hpassed, hrivals]
      apart := checking.apart_append entering member haccepted }

/-- The new declaration completes the earlier one. -/
theorem link_old (linked : after.redeclare old new = .link old new) :
    table.Checking careful passed olds new (done ++ [old]) (old :: merged)
      (after.link (old, new)) := by
  have hpassed := entering.sub old member
  have hdiffers := entering.ne_new hpassed
  have hakin := checking.akin_of_link entering member linked
  have hunlinkedNew := checking.nextLink_new entering member linked
  have hlink := isLink_redeclare linked
  have hunlinked : after.nextLink old = none := by
    simp [nextLink, checking.noAlias entering old, hlink.unlinked hdiffers]
  have hmisses := checking.may.not_reaches checking.linksEnd hdiffers linked
  have hroot := canonical_of_nextLink_none hunlinked
  have hnewRoot := canonical_of_nextLink_none hunlinkedNew
  obtain ⟨htableRoot, hkept⟩ : table.canonical old = old ∧ old ∉ merged := by
    have hformula := checking.canonical old hpassed
    rw [hroot] at hformula
    split at hformula
    · exact absurd hformula hdiffers
    · rename_i hfree
      rw [← hformula] at hfree
      exact ⟨hformula.symm, hfree⟩
  -- The chains that ended at the earlier declaration end at the new one.
  have hcanonical : ∀ x, (after.link (old, new)).canonical x =
      if after.canonical x = old then new else after.canonical x := by
    intro x
    by_cases hreaches : after.Reaches x old
    · have hsame := checking.linksEnd.canonical_of_reaches hreaches
      rw [hroot] at hsame
      rw [if_pos hsame]
      exact (Stands.link_of_reaches hlink.lt_size (checking.noAlias entering old)
        (.refl hunlinkedNew) hmisses hreaches).canonical_eq
    · have hother : after.canonical x ≠ old := by
        intro hsame
        have hstands := (checking.linksEnd.stands x).reaches
        rw [hsame] at hstands
        exact hreaches hstands
      rw [if_neg hother]
      exact ((checking.linksEnd.stands x).link_of_not_reaches hreaches).canonical_eq
  have hnewCanonical : (after.link (old, new)).canonical new = new := by
    rw [hcanonical, hnewRoot, if_neg hdiffers.symm]
  have hnextNew : (after.link (old, new)).nextLink new = none :=
    (nextLink_link_of_ne hdiffers.symm).trans hunlinkedNew
  have haccepted : after.redeclare old new ≠ .conflict := by simp [linked]
  exact
    { sub := checking.sub_append member
      same := checking.same.link _
      linksEnd := checking.linksEnd.link hmisses
      may := checking.may.link checking.linksEnd hdiffers linked
      others := by
        intro x fresh hx
        obtain ⟨hunlinkedx, huntargetedx⟩ := checking.others x fresh hx
        have hxold : x ≠ old := by
          rintro rfl
          exact fresh hpassed
        refine ⟨(nextLink_link_of_ne hxold).trans hunlinkedx, fun y hy => ?_⟩
        by_cases hyold : y = old
        · rw [hyold, nextLink_link hlink.lt_size (checking.noAlias entering old) hdiffers.symm,
            Option.some.injEq] at hy
          exact hx hy.symm
        · rw [nextLink_link_of_ne hyold] at hy
          exact huntargetedx y hy
      canonical := by
        intro x hx
        rw [hcanonical, checking.canonical x hx]
        by_cases hxold : table.canonical x = old
        · simp [hxold, hkept]
        · by_cases hmerged : table.canonical x ∈ merged
          · simp [hmerged]
          · simp [hmerged, hxold]
      roots := by
        intro m hm
        rcases List.mem_cons.mp hm with rfl | before
        · exact ⟨member, htableRoot⟩
        · exact checking.roots m before
      akin := by
        intro m hm
        rcases List.mem_cons.mp hm with rfl | before
        · exact hakin
        · exact checking.akin m before
      final := by
        intro hcareful m hm
        rcases List.mem_cons.mp hm with rfl | before
        · have hcompletable := isCompletable_of_redeclare_link linked hdiffers
          rw [checking.same.isCompletable_eq] at hcompletable
          constructor
          · by_contra htypedef
            have hfinal := entering.declared.final hcareful m hpassed (by simpa using htypedef)
            simp [hfinal] at hcompletable
          · by_contra htypedef
            have hfirst := entering.ready.first hcareful (by simpa using htypedef) m member
              hakin.declClass
            simp [hfirst] at hcompletable
        · exact checking.final hcareful m before
      targeted := by
        intro x hx
        by_cases hxold : x = old
        · exact hxold ▸ List.mem_cons_self
        · rw [nextLink_link_of_ne hxold] at hx
          exact List.mem_cons_of_mem old (checking.targeted x hx)
      root := fun _ => hnextNew
      collapsed := .inl hnextNew
      shares := by
        intro x hx rival
        rw [hnewCanonical, hcanonical]
        rcases List.mem_append.mp hx with before | last
        · rw [checking.shares x before rival, hnewRoot, if_neg hdiffers.symm]
        · rw [List.mem_singleton.mp last, hroot, if_pos rfl]
      apart := checking.apart_append entering member haccepted }

end Step

omit checking in
/-- Whatever earlier declarations are left to check. -/
theorem run (name : Name) {rest : List SymbolId} :
    ∀ {after : Table} {done merged : List SymbolId},
      table.Checking careful passed olds new done merged after → (∀ old ∈ rest, old ∈ olds) →
      match (rest.forM fun old =>
        if old = new then pure () else Analysis.redeclare old new name) after with
      | .ok _ last => ∃ merged, table.Checking careful passed olds new (done ++ rest) merged last
      | .error (.error _) last =>
          ∃ done merged, table.Checking careful passed olds new done merged last
      | .error (.fault _) _ => False := by
  induction rest with
  | nil =>
      intro after done merged checking _
      exact ⟨merged, by simpa using checking⟩
  | cons old rest ih =>
      intro after done merged checking sub
      have hmember := sub old List.mem_cons_self
      have hrest : ∀ x ∈ rest, x ∈ olds := fun x hx => sub x (List.mem_cons_of_mem old hx)
      have hdiffers := entering.ne_new (entering.sub old hmember)
      have hsplit : done ++ old :: rest = (done ++ [old]) ++ rest := by simp
      rw [Analysis.forM_cons, if_neg hdiffers, hsplit]
      have hstep := Analysis.redeclare_apply old new name after
      cases hverdict : after.redeclare old new with
      | conflict =>
          rw [hverdict] at hstep
          rw [Analysis.bind_error hstep]
          exact ⟨done, merged, checking⟩
      | separate =>
          rw [hverdict] at hstep
          rw [Analysis.bind_ok hstep]
          exact ih (checking.separate entering hmember hverdict) hrest
      | link source target =>
          rw [hverdict] at hstep
          rw [Analysis.bind_ok hstep]
          rcases (isLink_redeclare hverdict).ends with ⟨rfl, rfl⟩ | ⟨rfl, rfl⟩
          · exact ih (checking.link_new entering hmember hverdict) hrest
          · exact ih (checking.link_old entering hmember hverdict) hrest

/-- Typedefs name declarations that were passed before. -/
theorem typedefsDescend (hcareful : careful) : after.TypedefsDescend (passed ++ [new]) := by
  have hdescends := entering.declared.typedefs hcareful
  have hold : ∀ x ∈ passed, (passed ++ [new]).idxOf x = passed.idxOf x := fun x hx =>
    List.idxOf_append_of_mem hx
  have hlast : (passed ++ [new]).idxOf new = passed.length := by
    rw [List.idxOf_append_of_notMem entering.ready.fresh]
    simp
  have hlt : ∀ x ∈ passed, passed.idxOf x < passed.length := fun x hx =>
    List.idxOf_lt_length_iff.mpr hx
  constructor
  · intro x hx typedef link hlink
    rw [(checking.same.head x).type] at typedef hlink
    rcases List.mem_append.mp hx with hpassed | hnew
    · have hnames := hdescends.names x hpassed typedef link hlink
      have hlinkPassed : link ∈ passed := by
        have hxlt := hlt x hpassed
        exact List.idxOf_lt_length_iff.mp (by omega)
      rw [hold x hpassed, hold link hlinkPassed]
      exact hnames
    · rw [List.mem_singleton.mp hnew] at typedef hlink ⊢
      have hlinkPassed := entering.ready.names hcareful typedef link hlink
      rw [hlast, hold link hlinkPassed]
      exact hlt link hlinkPassed
  · intro x hx
    simpa using checking.canonical_mem entering (by simpa using hx)
  · intro x hx typedef
    rcases List.mem_append.mp hx with hpassed | hnew
    · rw [(checking.same.head _).type] at typedef
      have hformula := checking.canonical x hpassed
      split at hformula
      · -- Nothing that a new declaration completes is a typedef, nor is the new one.
        rename_i hmerged
        rw [hformula, (checking.final hcareful _ hmerged).2] at typedef
        cases typedef
      · rw [hformula] at typedef ⊢
        rw [hold x hpassed, hold _ (entering.declared.canonical_mem hpassed)]
        exact hdescends.stands x hpassed typedef
    · rw [List.mem_singleton.mp hnew, hlast]
      rcases checking.canonical_mem entering (.inr rfl) with hpassed | hself
      · rw [hold _ hpassed]
        exact Nat.le_of_lt (hlt _ hpassed)
      · rw [hself, hlast]

/-- Once the check has ended, the new declaration counts as passed. -/
theorem declared : after.Declared careful (passed ++ [new]) where
  nodup := by
    refine entering.declared.nodup.append (List.nodup_singleton new) fun x hx hnew => ?_
    rw [List.mem_singleton.mp hnew] at hx
    exact entering.ready.fresh hx
  within := by
    rw [checking.same.size_eq]
    exact Within.append.mpr ⟨entering.declared.within, by simpa using entering.ready.lt_size⟩
  linksEnd := checking.linksEnd
  bare := fun x => checking.same.bare x (entering.declared.bare x)
  alone := by
    intro x fresh
    simp only [List.mem_append, List.mem_singleton, not_or] at fresh
    exact checking.others x fresh.1 fresh.2
  members := by
    intro scope name x hx
    rw [checking.same.members_eq] at hx
    obtain ⟨hpassed, hscope⟩ := entering.declared.members scope name x hx
    exact ⟨List.mem_append_left _ hpassed, (checking.same.scope_eq x).trans hscope⟩
  templated := by
    intro x hx
    rw [(checking.same.head x).isTemplate, checking.same.templated?_eq]
    rcases List.mem_append.mp hx with hpassed | hnew
    · exact entering.declared.templated x hpassed
    · rw [List.mem_singleton.mp hnew]
      exact entering.ready.templated
  templates := by
    intro x hx function
    have hmember : x ∈ passed ∨ x = new := by simpa using hx
    rw [checking.declClass_eq entering hmember] at function
    exact checking.templates_eq entering hmember function
  unlinked := by
    intro x hx function template
    have hmember : x ∈ passed ∨ x = new := by simpa using hx
    rw [checking.declClass_eq entering hmember] at function
    rw [(checking.same.head x).isTemplate] at template
    exact checking.canonical_template entering hmember function template
  attached := by
    intro x parameter inside
    rw [(checking.same.head x).parameters] at inside
    rw [checking.same.scope_eq]
    exact entering.declared.attached x parameter inside
  parameters := by
    intro x hx parameter inside link hlink
    rw [(checking.same.head x).parameters] at inside
    rw [(checking.same.head parameter).type] at hlink
    apply List.mem_append_left
    rcases List.mem_append.mp hx with hpassed | hnew
    · exact entering.declared.parameters x hpassed parameter inside link hlink
    · rw [List.mem_singleton.mp hnew] at inside
      exact entering.ready.parameters parameter inside link hlink
  typedefs := fun hcareful => checking.typedefsDescend entering hcareful
  final := by
    intro hcareful x hx typedef
    rw [(checking.same.head x).type] at typedef
    rw [checking.same.isCompletable_eq]
    rcases List.mem_append.mp hx with hpassed | hnew
    · exact entering.declared.final hcareful x hpassed typedef
    · rw [List.mem_singleton.mp hnew] at typedef ⊢
      exact entering.ready.final hcareful typedef
  unambiguous := by
    intro scope name named
    rw [checking.same.members_eq]
    have hpassed : ∀ x ∈ table.members scope name, x ∈ passed := fun x hx =>
      (entering.declared.members scope name x hx).1
    have hbefore := entering.declared.unambiguous scope name named
    constructor
    · intro a ha b hb rival
      rw [checking.rival_iff entering (.inl (hpassed a ha)) (.inl (hpassed b hb))] at rival
      rw [checking.canonical a (hpassed a ha), checking.canonical b (hpassed b hb),
        hbefore.shares a ha b hb rival]
    · intro a ha b hb
      rw [checking.declClass_eq entering (.inl (hpassed a ha)),
        checking.declClass_eq entering (.inl (hpassed b hb))]
      exact hbefore.apart a ha b hb

end Checking

end Table

end NameBinding
