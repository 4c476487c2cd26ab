import NameBinding.Proofs.Inheritance.Acyclic
import NameBinding.Table.Scope

/-!
# Chains of enclosing scopes

If the chain of enclosing scopes ends, the list of them is complete, and so the scopes around a scope of a
chain are the rest of the chain.  It always ends if no scope contains itself.

* `Table.InsideOf`: a declaration stands directly in a scope.
* `Table.Enclosed`: a complete chain, each scope directly inside the next one.
* `Table.ScopesEnd`: the scopes around a declaration make up a complete chain.

The main statements are `nearestCommonEnclosing_innermost`, which says which scope two declarations share, and
`nearestCommonEnclosing_mem`: where a directive is anchored lies on the chain of the scope that the walk has
reached, if this chain ends at the global scope.
-/

namespace NameBinding.Table

open Relation

variable {table : Table} {id scope : SymbolId} {chain outer path : List SymbolId}

/-- A declaration stands directly in a scope. -/
def InsideOf (table : Table) (id scope : SymbolId) : Prop := (table.symbol id).scope = some scope

/-- Only symbols of the table stand in a scope. -/
theorem InsideOf.lt_size (inside : table.InsideOf id scope) : id.index < table.size := by
  refine lt_size_of_symbol (·.scope.isSome) rfl ?_
  rw [show (table.symbol id).scope = some scope from inside]
  rfl

/-- Each scope of the list stands directly inside the next one, and the last one stands in no scope. -/
inductive Enclosed (table : Table) : List SymbolId → Prop where
  | last {id : SymbolId} (outermost : (table.symbol id).scope = none) : Enclosed table [id]
  | inside {id scope : SymbolId} {outer : List SymbolId} (inside : table.InsideOf id scope)
      (rest : Enclosed table (scope :: outer)) : Enclosed table (id :: scope :: outer)

namespace Enclosed

/-- The scopes of a complete chain are listed if there are steps enough. -/
theorem scopeChainOf_eq (enclosed : table.Enclosed (id :: outer)) {count : Nat}
    (enough : outer.length < count) : table.scopeChainOf count id = id :: outer := by
  induction outer generalizing id count with
  | nil =>
      cases enclosed with
      | last outermost =>
          obtain ⟨steps, rfl⟩ := Nat.exists_eq_add_one_of_ne_zero (Nat.ne_of_gt enough)
          rw [scopeChainOf, outermost]
  | cons scope outer ih =>
      cases enclosed with
      | inside inside rest =>
          obtain ⟨steps, rfl⟩ := Nat.exists_eq_add_one_of_ne_zero
            (Nat.ne_of_gt (Nat.zero_lt_of_lt enough))
          have hrest := ih rest (Nat.lt_of_succ_lt_succ enough)
          rw [scopeChainOf, show (table.symbol id).scope = some scope from inside]
          exact congrArg _ hrest

theorem unique {outer' : List SymbolId} (enclosed : table.Enclosed (id :: outer))
    (enclosed' : table.Enclosed (id :: outer')) : outer = outer' := by
  induction outer generalizing id outer' with
  | nil =>
      cases enclosed with
      | last outermost =>
          cases enclosed' with
          | last => rfl
          | inside inside _ =>
              rw [InsideOf, outermost] at inside
              cases inside
  | cons scope outer ih =>
      cases enclosed with
      | inside inside rest =>
          cases enclosed' with
          | last outermost =>
              rw [InsideOf, outermost] at inside
              cases inside
          | inside inside' rest' =>
              cases Option.some.inj (inside.symm.trans inside')
              rw [ih rest rest']

/-- The outer part of a complete chain is complete. -/
theorem of_suffix (enclosed : table.Enclosed chain) (suffix : scope :: outer <:+ chain) :
    table.Enclosed (scope :: outer) := by
  induction enclosed with
  | last outermost =>
      rcases List.suffix_cons_iff.mp suffix with heq | hnil
      · rw [heq]
        exact .last outermost
      · exact absurd (List.suffix_nil.mp hnil) (List.cons_ne_nil scope outer)
  | inside inside rest ih =>
      rcases List.suffix_cons_iff.mp suffix with heq | hrest
      · rw [heq]
        exact .inside inside rest
      · exact ih hrest

/-- A complete chain goes on from each of its scopes in one way. -/
theorem suffix_of_mem (enclosed : table.Enclosed (id :: outer)) {inner : List SymbolId}
    (enclosed' : table.Enclosed inner) (member : id ∈ inner) : id :: outer <:+ inner := by
  obtain ⟨before, rest, rfl⟩ := List.append_of_mem member
  have hsuffix : id :: rest <:+ before ++ id :: rest := List.suffix_append before (id :: rest)
  rw [enclosed.unique (enclosed'.of_suffix hsuffix)]
  exact hsuffix

/-- No scope comes twice in a complete chain, for it would go on from there in two ways. -/
theorem nodup (enclosed : table.Enclosed chain) : chain.Nodup := by
  induction enclosed with
  | last => exact List.nodup_singleton _
  | inside stands rest ih =>
      refine List.nodup_cons.mpr ⟨fun again => ?_, ih⟩
      have hlength := ((inside stands rest).suffix_of_mem rest again).length_le
      exact absurd hlength (by simp)

/-- All scopes of a complete chain but the last one are symbols of the table. -/
theorem lt_size_of_mem_dropLast (enclosed : table.Enclosed chain) :
    ∀ id ∈ chain.dropLast, id.index < table.size := by
  induction enclosed with
  | last => exact fun _ member => absurd member List.not_mem_nil
  | inside inside rest ih =>
      rw [List.dropLast_cons_cons]
      exact List.forall_mem_cons.mpr ⟨inside.lt_size, ih⟩

/-- A complete chain is hardly longer than the table. -/
theorem length_le (enclosed : table.Enclosed (id :: outer)) : outer.length ≤ table.size := by
  have hlength := length_le_size (enclosed.nodup.sublist (List.dropLast_sublist _))
    enclosed.lt_size_of_mem_dropLast
  rwa [List.length_dropLast, List.length_cons, Nat.add_sub_cancel] at hlength

/-- A complete chain is the chain of its first scope. -/
theorem scopeChain_eq (enclosed : table.Enclosed (id :: outer)) : table.scopeChain id = id :: outer :=
  enclosed.scopeChainOf_eq (Nat.lt_succ_of_le enclosed.length_le)

end Enclosed

/-- The scopes around a declaration make up a complete chain. -/
def ScopesEnd (table : Table) (id : SymbolId) : Prop := ∃ outer, table.Enclosed (id :: outer)

section Acyclic

variable (acyclic : ∀ id, ¬ TransGen table.InsideOf id id)

include acyclic

/-- If no scope contains itself, every chain is complete. -/
theorem scopesEnd_of_acyclic (id : SymbolId) : table.ScopesEnd id := by
  induction acc_of_acyclic InsideOf.lt_size acyclic id with
  | intro id _ ih =>
      cases hscope : (table.symbol id).scope with
      | none => exact ⟨[], .last hscope⟩
      | some scope =>
          obtain ⟨outer, henclosed⟩ := ih scope hscope
          exact ⟨scope :: outer, .inside hscope henclosed⟩

/-- The chain of a scope is complete. -/
theorem enclosed_scopeChain (id : SymbolId) : table.Enclosed (table.scopeChain id) := by
  obtain ⟨outer, henclosed⟩ := scopesEnd_of_acyclic acyclic id
  rw [henclosed.scopeChain_eq]
  exact henclosed

/-- The scopes around a scope of a chain are the rest of the chain. -/
theorem scopeChain_of_suffix (suffix : scope :: outer <:+ table.scopeChain id) :
    table.scopeChain scope = scope :: outer :=
  ((enclosed_scopeChain acyclic id).of_suffix suffix).scopeChain_eq

end Acyclic

/-! ## The innermost common scope -/

variable {a b other : SymbolId} {chainA chainB : List SymbolId}

/-- On complete chains of one length, the first place where the two agree is the innermost scope of both:
a scope that both hold has as many scopes around it on either. -/
theorem Enclosed.exists_agree (enclosedA : table.Enclosed chainA) (enclosedB : table.Enclosed chainB)
    (same : chainA.length = chainB.length) (memberA : other ∈ chainA) (memberB : other ∈ chainB) :
    ∃ scope outer, (chainA.zip chainB).find? (fun pair => pair.1 = pair.2) = some (scope, scope) ∧
      scope :: outer <:+ chainA ∧ scope :: outer <:+ chainB ∧ other ∈ scope :: outer := by
  induction enclosedA generalizing chainB with
  | @last a outermost =>
      obtain ⟨b, rfl⟩ := List.length_eq_one_iff.mp same.symm
      cases List.mem_singleton.mp memberA
      cases List.mem_singleton.mp memberB
      exact ⟨other, [], by simp, List.suffix_rfl, List.suffix_rfl, List.mem_singleton_self other⟩
  | @inside a scope outer insideA rest ih =>
      cases enclosedB with
      | last => simp at same
      | @inside b scopeB outerB insideB restB =>
          have hA : table.Enclosed (a :: scope :: outer) := .inside insideA rest
          have hB : table.Enclosed (b :: scopeB :: outerB) := .inside insideB restB
          by_cases hsame : a = b
          · subst hsame
            cases hA.unique hB
            exact ⟨a, scope :: outer, by simp, List.suffix_rfl, List.suffix_rfl, memberA⟩
          · have hlater : other ∈ scope :: outer ∧ other ∈ scopeB :: outerB := by
              constructor
              · refine (List.mem_cons.mp memberA).resolve_left ?_
                rintro rfl
                have hlength := (hA.suffix_of_mem restB
                  ((List.mem_cons.mp memberB).resolve_left hsame)).length_le
                simp only [List.length_cons] at same hlength
                omega
              · refine (List.mem_cons.mp memberB).resolve_left ?_
                rintro rfl
                have hlength := (hB.suffix_of_mem rest
                  ((List.mem_cons.mp memberA).resolve_left (Ne.symm hsame))).length_le
                simp only [List.length_cons] at same hlength
                omega
            obtain ⟨common, further, hfound, hsuffixA, hsuffixB, hother⟩ :=
              ih restB (Nat.succ.inj same) hlater.1 hlater.2
            refine ⟨common, further, ?_, hsuffixA.trans (List.suffix_cons a _),
              hsuffixB.trans (List.suffix_cons b _), hother⟩
            rw [List.zip_cons_cons, List.find?_cons_of_neg (by simpa using hsame)]
            exact hfound

/-- A scope that two complete chains hold is left over when the longer one is cut to the length of the shorter
one. -/
theorem Enclosed.drop (enclosedA : table.Enclosed chainA) (enclosedB : table.Enclosed chainB)
    (memberA : other ∈ chainA) (memberB : other ∈ chainB) :
    table.Enclosed (chainA.drop (chainA.length - chainB.length)) ∧
      other ∈ chainA.drop (chainA.length - chainB.length) := by
  obtain ⟨before, outer, rfl⟩ := List.append_of_mem memberB
  have hrest := (enclosedB.of_suffix (List.suffix_append before (other :: outer)))
  have hsuffix := hrest.suffix_of_mem enclosedA memberA
  have hdrop : other :: outer <:+ chainA.drop (chainA.length - (before ++ other :: outer).length) := by
    refine List.suffix_of_suffix_length_le hsuffix (List.drop_suffix _ _) ?_
    have hlength := hsuffix.length_le
    rw [List.length_drop, List.length_append]
    omega
  have hmember := hdrop.subset List.mem_cons_self
  cases hcut : chainA.drop (chainA.length - (before ++ other :: outer).length) with
  | nil =>
      rw [hcut] at hmember
      cases hmember
  | cons scope rest =>
      rw [hcut] at hmember
      exact ⟨enclosedA.of_suffix (hcut ▸ List.drop_suffix _ _), hmember⟩

/-- What is found for two declarations with a common scope. -/
theorem exists_common (enclosedA : table.Enclosed (a :: chainA)) (enclosedB : table.Enclosed (b :: chainB))
    (memberA : other ∈ a :: chainA) (memberB : other ∈ b :: chainB) :
    ∃ outer, table.nearestCommonEnclosing a b :: outer <:+ a :: chainA ∧
      table.nearestCommonEnclosing a b :: outer <:+ b :: chainB ∧
      other ∈ table.nearestCommonEnclosing a b :: outer := by
  obtain ⟨hcutA, hinA⟩ := enclosedA.drop enclosedB memberA memberB
  obtain ⟨hcutB, hinB⟩ := enclosedB.drop enclosedA memberB memberA
  obtain ⟨scope, outer, hfound, hsuffixA, hsuffixB, hother⟩ := hcutA.exists_agree hcutB
    (by rw [List.length_drop, List.length_drop]; omega) hinA hinB
  have hcommon : table.nearestCommonEnclosing a b = scope := by
    simp only [nearestCommonEnclosing, enclosedA.scopeChain_eq, enclosedB.scopeChain_eq, hfound]
  rw [hcommon]
  exact ⟨outer, hsuffixA.trans (List.drop_suffix _ _), hsuffixB.trans (List.drop_suffix _ _), hother⟩

/-- The scope that is found encloses both declarations, or is the global scope. -/
theorem nearestCommonEnclosing_cases (table : Table) (a b : SymbolId) :
    table.nearestCommonEnclosing a b ∈ table.scopeChain a ∧
        table.nearestCommonEnclosing a b ∈ table.scopeChain b ∨
      table.nearestCommonEnclosing a b = globalScope := by
  unfold nearestCommonEnclosing
  dsimp only
  split
  · rename_i pair hfound
    obtain ⟨hfirst, hsecond⟩ := List.of_mem_zip (List.mem_of_find?_eq_some hfound)
    have hagree : pair.1 = pair.2 := by simpa using List.find?_some hfound
    exact .inl ⟨List.mem_of_mem_drop hfirst, hagree ▸ List.mem_of_mem_drop hsecond⟩
  · exact .inr rfl

/-- Which of the two declarations is named first does not matter. -/
theorem nearestCommonEnclosing_comm (table : Table) (a b : SymbolId) :
    table.nearestCommonEnclosing a b = table.nearestCommonEnclosing b a := by
  have hswap : ∀ xs ys : List SymbolId, (ys.zip xs).find? (fun pair => pair.1 = pair.2) =
      ((xs.zip ys).find? fun pair => pair.1 = pair.2).map Prod.swap := by
    intro xs ys
    rw [← List.zip_swap xs ys, List.find?_map]
    congr 2
    funext pair
    exact decide_eq_decide.mpr eq_comm
  rw [nearestCommonEnclosing, nearestCommonEnclosing, hswap]
  split
  · rename_i pair hfound
    obtain ⟨swapped, hswapped, rfl⟩ := Option.map_eq_some_iff.mp hfound
    have hagree : swapped.1 = swapped.2 := by simpa using List.find?_some hswapped
    rw [hswapped]
    exact hagree.symm
  · rename_i hnone
    rw [Option.map_eq_none_iff.mp hnone]

theorem isWithin_iff : table.isWithin a b = true ↔ b ∈ table.scopeChain a := List.contains_iff_mem

/-- The innermost common scope of two declarations whose chains of scopes end.  If they share a scope, they are
both within the one that is found, and every other scope that they share is around it; if they share none, it
is the global scope.  It does not depend on the order of the two, and is the second one if the first one is
within it. -/
theorem nearestCommonEnclosing_innermost (endsA : table.ScopesEnd a) (endsB : table.ScopesEnd b) :
    let common := table.nearestCommonEnclosing a b
    ((∃ scope, table.isWithin a scope = true ∧ table.isWithin b scope = true) →
      table.isWithin a common = true ∧ table.isWithin b common = true ∧
        ∀ scope, table.isWithin a scope = true → table.isWithin b scope = true →
          table.isWithin common scope = true) ∧
    ((¬ ∃ scope, table.isWithin a scope = true ∧ table.isWithin b scope = true) → common = globalScope) ∧
    table.nearestCommonEnclosing b a = common ∧
    (table.isWithin a b = true → common = b) := by
  intro common
  obtain ⟨outerA, henclosedA⟩ := endsA
  obtain ⟨outerB, henclosedB⟩ := endsB
  have hchainA := henclosedA.scopeChain_eq
  have hchainB := henclosedB.scopeChain_eq
  have hshared : ∀ {scope}, table.isWithin a scope = true → table.isWithin b scope = true →
      ∃ outer, common :: outer <:+ a :: outerA ∧ common :: outer <:+ b :: outerB ∧
        scope ∈ common :: outer := by
    intro scope withinA withinB
    rw [isWithin_iff, hchainA] at withinA
    rw [isWithin_iff, hchainB] at withinB
    exact exists_common henclosedA henclosedB withinA withinB
  refine ⟨?_, fun apart => ?_, table.nearestCommonEnclosing_comm b a, fun within => ?_⟩
  · rintro ⟨scope, withinA, withinB⟩
    obtain ⟨outer, hsuffixA, hsuffixB, -⟩ := hshared withinA withinB
    refine ⟨?_, ?_, fun other otherA otherB => ?_⟩
    · rw [isWithin_iff, hchainA]
      exact hsuffixA.subset List.mem_cons_self
    · rw [isWithin_iff, hchainB]
      exact hsuffixB.subset List.mem_cons_self
    · obtain ⟨outer, hsuffix, -, hother⟩ := hshared otherA otherB
      rwa [isWithin_iff, (henclosedA.of_suffix hsuffix).scopeChain_eq]
  · rcases table.nearestCommonEnclosing_cases a b with ⟨hfirst, hsecond⟩ | hglobal
    · exact absurd ⟨common, isWithin_iff.mpr hfirst, isWithin_iff.mpr hsecond⟩ apart
    · exact hglobal
  · -- Both chains hold `b`, and the chain of `b` has no shorter end that begins with it.
    have hself : table.isWithin b b = true := by
      rw [isWithin_iff, hchainB]
      exact List.mem_cons_self
    obtain ⟨outer, -, hsuffix, hmember⟩ := hshared within hself
    have hback := henclosedB.suffix_of_mem (henclosedB.of_suffix hsuffix) hmember
    exact (List.cons.inj (hsuffix.eq_of_length (hsuffix.length_le.antisymm hback.length_le))).1

/-- A declaration that stands in the scope at the position. -/
def standingIn (scope : Nat) : Symbol where
  name := Name.empty
  type := .ofKind .nspace
  scope := some ⟨scope⟩
  payload := .container {}

/-- The global namespace, a namespace 1 in it, a class 2 and a function 4 in that one, and a member 3 of the
class. -/
def nestedScopes : Table :=
  { Table.new {} with
    symbols := #[(Table.new {}).symbol globalScope, standingIn 0, standingIn 1, standingIn 2, standingIn 1] }

/-- The member of the class and the function beside the class share the namespace, which stands in the middle of
both chains. -/
theorem nestedScopes_common :
    (nestedScopes.ScopesEnd ⟨3⟩ ∧ nestedScopes.ScopesEnd ⟨4⟩) ∧
      nestedScopes.nearestCommonEnclosing ⟨3⟩ ⟨4⟩ = ⟨1⟩ ∧ nestedScopes.nearestCommonEnclosing ⟨4⟩ ⟨3⟩ = ⟨1⟩ ∧
      nestedScopes.isWithin ⟨3⟩ ⟨1⟩ = true ∧ nestedScopes.isWithin ⟨4⟩ ⟨1⟩ = true ∧
      ∀ scope, nestedScopes.isWithin ⟨3⟩ scope = true → nestedScopes.isWithin ⟨4⟩ scope = true →
        nestedScopes.isWithin ⟨1⟩ scope = true := by
  have hnamespace : nestedScopes.Enclosed [⟨1⟩, ⟨0⟩] := .inside rfl (.last rfl)
  have hends : nestedScopes.ScopesEnd ⟨3⟩ ∧ nestedScopes.ScopesEnd ⟨4⟩ :=
    ⟨⟨_, .inside rfl (.inside rfl hnamespace)⟩, ⟨_, .inside rfl hnamespace⟩⟩
  have hcommon : nestedScopes.nearestCommonEnclosing ⟨3⟩ ⟨4⟩ = ⟨1⟩ := by decide
  obtain ⟨hshared, -, hswapped, -⟩ := nearestCommonEnclosing_innermost hends.1 hends.2
  obtain ⟨hfirst, hsecond, hinnermost⟩ := hshared ⟨⟨1⟩, by decide, by decide⟩
  rw [hcommon] at hswapped hfirst hsecond hinnermost
  exact ⟨hends, hcommon, hswapped, hfirst, hsecond, hinnermost⟩

/-! ## Where directives are anchored -/

/-- Where a directive is anchored lies on the rest of the chain that the walk has reached. -/
theorem nearestCommonEnclosing_mem (acyclic : ∀ id, ¬ TransGen table.InsideOf id id)
    (suffix : scope :: outer <:+ table.scopeChain id)
    (ends : (table.scopeChain id).getLast? = some globalScope) (other : SymbolId) :
    table.nearestCommonEnclosing scope other ∈ scope :: outer := by
  rcases table.nearestCommonEnclosing_cases scope other with ⟨hmember, -⟩ | hglobal
  · rwa [scopeChain_of_suffix acyclic suffix] at hmember
  · obtain ⟨inner, hchain⟩ := suffix
    rw [← hchain, List.getLast?_append_of_ne_nil _ (List.cons_ne_nil scope outer)] at ends
    rw [hglobal]
    exact List.mem_of_getLast? ends

end NameBinding.Table
