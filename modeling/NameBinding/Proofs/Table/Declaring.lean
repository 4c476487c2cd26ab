import NameBinding.Proofs.Table.Checking
import NameBinding.Proofs.Table.Preparing

/-!
# Adding declarations

A declaration is added to a scope: it is checked against the earlier ones of its name and becomes a
member.

* `Declared.enroll`: a passed declaration that meets only what it may stand beside becomes a member.
* `Declared.addSymbol`: adding a declaration keeps the invariant, whether or not it is rejected.
-/

namespace NameBinding

theorem Symbol.Bare.insertMember {symbol : Symbol} (bare : symbol.Bare) (name : Name)
    (member : SymbolId) : ((Edit.insertMember name member).apply symbol).Bare := by
  obtain ⟨_, scope, type, inTemplate, access, target, named, origin, link, payload⟩ := symbol
  obtain ⟨haliasOf, hparents, hrenamed, hspecializations⟩ := bare
  cases payload <;> exact ⟨haliasOf, hparents, hrenamed, hspecializations⟩

namespace Table

variable {careful : Prop} {table after last : Table} {passed : List SymbolId}
  {new old scope x y : SymbolId} {edit : Edit}

/-! ## New members -/

theorem members_enroll_of_ne (table : Table) (differs : x ≠ scope) (name : Name) :
    (table.enroll scope new).members x name = table.members x name := by
  have hother : ∀ edit, ((table.perform new edit).perform scope
      (.insertMember (table.symbol new).name new)).symbol x = (table.perform new edit).symbol x := by
    intro edit
    rw [symbol_perform, if_neg fun same => differs same.1.symm]
  rw [members, members, enroll, hother, symbol_perform]
  split <;> rfl

theorem scope_enroll (table : Table) (scope new x : SymbolId) :
    ((table.enroll scope new).symbol x).scope =
      if new = x ∧ x.index < table.size then some scope else (table.symbol x).scope := by
  have hinsert : ∀ (symbol : Symbol) (name : Name) (member : SymbolId),
      ((Edit.insertMember name member).apply symbol).scope = symbol.scope := by
    intro symbol name member
    obtain ⟨_, scope, type, inTemplate, access, target, named, origin, link, payload⟩ := symbol
    cases payload <;> rfl
  have hassign : ∀ edit, (((table.perform new edit).perform scope
      (.insertMember (table.symbol new).name new)).symbol x).scope =
        ((table.perform new edit).symbol x).scope := by
    intro edit
    rw [symbol_perform]
    split
    · exact hinsert _ _ _
    · rfl
  rw [enroll, hassign, symbol_perform]
  split <;> rfl

theorem bare_enroll (bare : ∀ x, (table.symbol x).Bare) (scope new x : SymbolId) :
    ((table.enroll scope new).symbol x).Bare := by
  have hscope : ∀ inside,
      ((table.perform new (.assign (.scope (some scope) inside))).symbol x).Bare := by
    intro inside
    have hpreparation : (Edit.assign (.scope (some scope) inside)).IsPreparation := rfl
    rw [symbol_perform]
    split
    · exact hpreparation.givesParts.bare _ (bare x)
    · exact bare x
  rw [enroll, symbol_perform]
  split
  · exact (hscope _).insertMember _ _
  · exact hscope _

/-- A new member comes after a templated declaration that is there already. -/
theorem Declared.unmoved_enroll (declared : table.Declared careful passed)
    (holds : (table.symbol scope).holdsMembers = true) (new : SymbolId) :
    table.Unmoved passed (table.enroll scope new) where
  size_le := Nat.le_of_eq (size_enroll table scope new).symm
  nextLink := nextLink_enroll table scope new
  heads := fun x _ => sameHead_enroll table scope new x
  templated := by
    intro x member
    have hhead := sameHead_enroll table scope new x
    have htemplated := declared.templated x member
    rw [templated?_eq] at htemplated
    rw [templated?_eq, templated?_eq, hhead.isTemplate, hhead.name]
    split
    · rename_i htemplate
      rw [if_pos htemplate] at htemplated
      have hnonempty := htemplated htemplate
      by_cases hx : x = scope
      · subst hx
        rw [members_enroll holds]
        split
        · cases hmembers : table.members x (table.symbol x).name with
          | nil => simp [hmembers] at hnonempty
          | cons first rest => rfl
        · rfl
      · rw [members_enroll_of_ne table hx]
    · rfl
  types := fun x _ => (sameHead_enroll table scope new x).type

/-- A passed declaration becomes a member.  If it has a name, it must not meet rivals that are another
entity, nor an object a function. -/
theorem Declared.enroll (declared : table.Declared careful passed) (member : new ∈ passed)
    (unlisted : ∀ scope name, new ∉ table.members scope name)
    (holds : (table.symbol scope).holdsMembers = true)
    (joins : (table.symbol new).name.isEmpty = false →
      ∀ old ∈ table.members scope (table.symbol new).name,
        (table.Rival careful old new → table.canonical old = table.canonical new) ∧
          (table.declClass old = .object → table.declClass new ≠ .function) ∧
          (table.declClass new = .object → table.declClass old ≠ .function)) :
    (table.enroll scope new).Declared careful passed := by
  have hunmoved := declared.unmoved_enroll holds new
  have hnewlt : new.index < table.size := declared.within new member
  have hmembers : ∀ outer name, (table.enroll scope new).members outer name =
      if outer = scope ∧ name = (table.symbol new).name then table.members outer name ++ [new]
      else table.members outer name := by
    intro outer name
    by_cases houter : outer = scope
    · subst houter
      rw [members_enroll holds]
      simp
    · rw [members_enroll_of_ne table houter, if_neg fun both => houter both.1]
  refine declared.unmoved hunmoved (bare_enroll declared.bare scope new) ?_ ?_ ?_
  · intro x parameter inside
    rw [(sameHead_enroll table scope new x).parameters] at inside
    rw [scope_enroll]
    split
    · rfl
    · exact declared.attached x parameter inside
  · intro outer name x hx
    have hkept : x ∈ table.members outer name →
        x ∈ passed ∧ ((table.enroll scope new).symbol x).scope = some outer := by
      intro hold
      obtain ⟨hpassed, hscope⟩ := declared.members outer name x hold
      have hdiffers : new ≠ x := by
        rintro rfl
        exact unlisted outer name hold
      rw [scope_enroll, if_neg fun both => hdiffers both.1]
      exact ⟨hpassed, hscope⟩
    rw [hmembers] at hx
    split at hx
    · rename_i hhere
      rcases List.mem_append.mp hx with hold | hnew
      · exact hkept hold
      · rw [List.mem_singleton.mp hnew, scope_enroll, if_pos ⟨rfl, hnewlt⟩, hhere.1]
        exact ⟨member, rfl⟩
    · exact hkept hx
  · intro outer name named
    have hpassed : ∀ x ∈ table.members outer name, x ∈ passed := fun x hx =>
      (declared.members outer name x hx).1
    have hbefore := hunmoved.unambiguous declared hpassed (declared.unambiguous outer name named)
    rw [hmembers]
    split
    · rename_i hhere
      obtain ⟨rfl, rfl⟩ := hhere
      have hjoins := joins named
      -- The new member meets the earlier ones as they were found by the check.
      have hshares : ∀ old ∈ table.members outer (table.symbol new).name,
          (table.enroll outer new).Rival careful old new →
            (table.enroll outer new).canonical old = (table.enroll outer new).canonical new := by
        intro old hold rival
        rw [hunmoved.canonical_eq declared, hunmoved.canonical_eq declared]
        exact (hjoins old hold).1 (hunmoved.rival_of declared (hpassed old hold) member rival)
      constructor
      · intro a ha b hb rival
        rcases List.mem_append.mp ha with holdA | hnewA
        · rcases List.mem_append.mp hb with holdB | hnewB
          · exact hbefore.shares a holdA b holdB rival
          · rw [List.mem_singleton.mp hnewB] at rival ⊢
            exact hshares a holdA rival
        · rw [List.mem_singleton.mp hnewA] at rival ⊢
          rcases List.mem_append.mp hb with holdB | hnewB
          · exact (hshares b holdB rival.symm).symm
          · rw [List.mem_singleton.mp hnewB]
      · intro a ha b hb
        rcases List.mem_append.mp ha with holdA | hnewA
        · rcases List.mem_append.mp hb with holdB | hnewB
          · exact hbefore.apart a holdA b holdB
          · rw [List.mem_singleton.mp hnewB, hunmoved.declClass_eq declared (hpassed a holdA),
              hunmoved.declClass_eq declared member]
            exact (hjoins a holdA).2.1
        · rw [List.mem_singleton.mp hnewA, hunmoved.declClass_eq declared member]
          rcases List.mem_append.mp hb with holdB | hnewB
          · rw [hunmoved.declClass_eq declared (hpassed b holdB)]
            exact (hjoins b holdB).2.2
          · rw [List.mem_singleton.mp hnewB, hunmoved.declClass_eq declared member]
            intro hobject
            simp [hobject]
    · exact hbefore

/-- Whether a declaration is accepted or rejected, it counts as passed. -/
theorem Declared.addSymbol (declared : table.Declared careful passed)
    (ready : table.Ready careful passed (table.members scope (table.symbol new).name) new) :
    Analysis.EndsWith (fun next => next.Declared careful (passed ++ [new]))
      (fun next => next.Declared careful (passed ++ [new])) (fun _ => True)
      (Analysis.addSymbol scope new table) := by
  have hunlisted : ∀ outer name, new ∉ table.members outer name := fun outer name hnew =>
    ready.fresh (declared.members outer name new hnew).1
  have hmember : new ∈ passed ++ [new] := by simp
  cases hholds : (table.symbol scope).holdsMembers with
  | false =>
      have hfault : Analysis.addSymbol scope new table =
          .error (.fault (.unsupported .addSymbol)) table := by
        simp only [Analysis.addSymbol, bind, EStateM.bind, get, getThe, MonadStateOf.get,
          EStateM.get, hholds]
        rfl
      rw [hfault]
      trivial
  | true =>
      cases hnamed : (table.symbol new).name.isEmpty with
      | true =>
          -- An unnamed declaration is not checked, and stands beside nothing with a name.
          have hadd : Analysis.addSymbol scope new table = .ok () (table.enroll scope new) := by
            rw [← Analysis.insertMember_apply hholds new]
            simp only [Analysis.addSymbol, bind, EStateM.bind, get, getThe, MonadStateOf.get,
              EStateM.get, hholds, hnamed]
            rfl
          have hentering : table.Entering careful passed [] new :=
            { declared
              ready := { ready with first := fun _ _ old hold => absurd hold List.not_mem_nil }
              sub := fun old hold => absurd hold List.not_mem_nil
              unambiguous := ⟨fun a ha => absurd ha List.not_mem_nil,
                fun a ha => absurd ha List.not_mem_nil⟩ }
          rw [hadd]
          refine ⟨?_, trivial⟩
          refine (hentering.checking.declared hentering).enroll hmember hunlisted hholds ?_
          intro hname
          rw [hnamed] at hname
          cases hname
      | false =>
          have hpassed := declared.members scope (table.symbol new).name
          have hentering : table.Entering careful passed
              (table.members scope (table.symbol new).name) new :=
            { declared
              ready
              sub := fun old hold => (hpassed old hold).1
              unambiguous := declared.unambiguous scope _ hnamed }
          have hrun := Checking.run hentering (table.symbol new).name hentering.checking
            fun old hold => hold
          rw [Analysis.addSymbol_apply hholds hnamed]
          rw [← Analysis.checkRedeclaration_apply] at hrun
          cases hcheck : Analysis.checkRedeclaration scope new table with
          | ok value checked =>
              rw [hcheck] at hrun
              obtain ⟨merged, hchecking⟩ := hrun
              have hinside := (hchecking.same.head scope).holdsMembers.trans hholds
              rw [Analysis.bind_ok hcheck, Analysis.insertMember_apply hinside]
              refine ⟨?_, trivial⟩
              refine (hchecking.declared hentering).enroll hmember ?_ hinside ?_
              · intro outer name
                rw [hchecking.same.members_eq]
                exact hunlisted outer name
              · intro _ old hold
                rw [(hchecking.same.head new).name, hchecking.same.members_eq] at hold
                have holdPassed : old ∈ passed ∨ old = new := .inl (hpassed old hold).1
                have hdone : old ∈ [] ++ table.members scope (table.symbol new).name := by
                  simpa using hold
                rw [hchecking.rival_iff hentering holdPassed (.inr rfl),
                  hchecking.declClass_eq hentering holdPassed,
                  hchecking.declClass_eq hentering (.inr rfl)]
                exact ⟨hchecking.shares old hdone, hchecking.apart old hdone⟩
          | error interrupt checked =>
              rw [hcheck] at hrun
              rw [Analysis.bind_error hcheck]
              cases interrupt with
              | error error =>
                  obtain ⟨done, merged, hchecking⟩ := hrun
                  exact hchecking.declared hentering
              | fault fault => exact hrun.elim

end Table

end NameBinding
