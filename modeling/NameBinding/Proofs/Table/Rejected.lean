import NameBinding.Proofs.Analysis.Tracks
import NameBinding.Proofs.Table.Unwind
import NameBinding.Table.Redeclaration

/-!
# What a rejected declaration leaves behind

A new declaration is checked against the earlier ones of its name one by one, and linked to those
that declare the same entity as the check goes along.  When a later one conflicts, the declaration is
rejected, but the links stay.

* `linksMade` lists the links in the order in which they are made.
* `addSymbol_rejected_keeps_links`: they are all that a rejected declaration changes; an earlier
  declaration is redirected exactly if it was linked; and nothing has changed exactly if only the
  rejected declaration was linked, in the end to what it stood for before.
-/

namespace NameBinding

namespace Table

variable {table : Table} {old new id target : SymbolId}

theorem lt_size_of_isForwardDeclaration (forward : table.isForwardDeclaration id = true) :
    id.index < table.size := by
  apply Decidable.byContradiction
  intro behind
  have hdefault := symbol_of_getElem?_none (Array.getElem?_eq_none (Nat.le_of_not_lt behind))
  simp only [isForwardDeclaration, hdefault] at forward
  cases forward

/-! ## Links -/

/-- A link of a new declaration and an earlier one.  The one that it redirects is a declaration of
the table, and an earlier declaration is redirected only if it stood for itself. -/
structure IsLink (table : Table) (old new id target : SymbolId) : Prop where
  ends : (id = new ∧ target = old) ∨ (id = old ∧ target = new)
  lt_size : id.index < table.size
  unlinked : id ≠ new → (table.symbol id).forwardTarget = none

theorem IsLink.ofNew (lt : new.index < table.size) : table.IsLink old new new old :=
  ⟨.inl ⟨rfl, rfl⟩, lt, fun differs => absurd rfl differs⟩

theorem IsLink.ofOld (lt : old.index < table.size)
    (unlinked : (table.symbol old).forwardTarget.isNone = true) : table.IsLink old new old new :=
  ⟨.inr ⟨rfl, rfl⟩, lt, fun _ => Option.isNone_iff_eq_none.mp unlinked⟩

theorem isLink_completeForward (linked : table.completeForward old new = .link id target) :
    table.IsLink old new id target := by
  unfold completeForward at linked
  split at linked
  · rename_i hforward
    cases linked
    exact .ofNew (lt_size_of_isForwardDeclaration hforward)
  · split at linked
    · rename_i hcompletes
      rw [Bool.and_eq_true] at hcompletes
      cases linked
      exact .ofOld (lt_size_of_isForwardDeclaration hcompletes.1) hcompletes.2
    · cases linked

theorem isLink_redeclareTag (linked : table.redeclareTag old new = .link id target) :
    table.IsLink old new id target := by
  simp only [redeclareTag] at linked
  split at linked
  · split at linked <;> cases linked
  · split at linked
    · exact isLink_completeForward linked
    · cases linked

theorem isLink_redeclareFunction (linked : table.redeclareFunction old new = .link id target) :
    table.IsLink old new id target := by
  simp only [redeclareFunction] at linked
  split at linked
  · cases linked
  · split at linked
    · split at linked
      · exact isLink_completeForward linked
      · cases linked
    · exact isLink_completeForward linked

theorem isLink_redeclareObject (linked : table.redeclareObject old new = .link id target) :
    table.IsLink old new id target := by
  simp only [redeclareObject] at linked
  split at linked
  · cases linked
  · split at linked
    · rename_i htypedef
      rw [Bool.and_eq_true] at htypedef
      split at linked
      · cases linked
        exact .ofNew (lt_size_of_symbol (·.type.isTypedef) rfl htypedef.2)
      · cases linked
    · split at linked
      · rename_i hextern
        cases linked
        exact .ofNew (lt_size_of_symbol (·.type.flags.specifiers.isExtern) rfl hextern)
      · split at linked
        · rename_i hcompletes
          rw [Bool.and_eq_true] at hcompletes
          cases linked
          exact .ofOld
            (lt_size_of_symbol (·.type.flags.specifiers.isExtern) rfl hcompletes.1)
            hcompletes.2
        · cases linked

/-- Every link that a redeclaration makes is one of the two. -/
theorem isLink_redeclare (linked : table.redeclare old new = .link id target) :
    table.IsLink old new id target := by
  unfold redeclare at linked
  split at linked
  · exact isLink_redeclareTag linked
  · exact isLink_redeclareFunction linked
  · exact isLink_redeclareObject linked
  all_goals cases linked

/-- Let one declaration stand for another one. -/
def link (table : Table) (pair : SymbolId × SymbolId) : Table :=
  table.perform pair.1 (.assign (.forwardTarget (some pair.2)))

/-- The links that are made while a new declaration is checked against earlier ones, until one of
them conflicts. -/
def linksMade (new : SymbolId) : List SymbolId → Table → List (SymbolId × SymbolId)
  | [], _ => []
  | old :: rest, table =>
      if old = new then linksMade new rest table
      else
        match table.redeclare old new with
        | .conflict => []
        | .separate => linksMade new rest table
        | .link id target => (id, target) :: linksMade new rest (table.link (id, target))

/-- What a declaration was last linked to. -/
def lastTarget (id : SymbolId) : List (SymbolId × SymbolId) → Option SymbolId
  | [] => none
  | pair :: rest => (lastTarget id rest).or (if pair.1 = id then some pair.2 else none)

/-! ## The effect of links -/

section

variable {links : List (SymbolId × SymbolId)} {pair : SymbolId × SymbolId}

theorem mem_of_lastTarget (last : lastTarget id links = some target) : (id, target) ∈ links := by
  induction links with
  | nil => cases last
  | cons pair rest ih =>
      rw [lastTarget, Option.or_eq_some_iff] at last
      rcases last with inRest | ⟨-, first⟩
      · exact List.mem_cons_of_mem pair (ih inRest)
      · split at first
        · rename_i hid
          cases first
          cases hid
          exact List.mem_cons_self
        · cases first

/-- A declaration that is linked is linked to something in the end. -/
theorem exists_lastTarget (linked : (id, target) ∈ links) :
    ∃ last, lastTarget id links = some last := by
  cases hlast : lastTarget id links with
  | some last => exact ⟨last, rfl⟩
  | none =>
      induction links with
      | nil => cases linked
      | cons pair rest ih =>
          rw [lastTarget, Option.or_eq_none_iff] at hlast
          rcases List.mem_cons.mp linked with first | inRest
          · cases first
            simp at hlast
          · exact ih inRest hlast.1

theorem getElem?_link (table : Table) (pair : SymbolId × SymbolId) (id : SymbolId) :
    (table.link pair).symbols[id.index]? =
      table.symbols[id.index]?.map fun symbol =>
        if pair.1 = id then { symbol with forwardTarget := some pair.2 } else symbol := by
  obtain ⟨⟨source⟩, target⟩ := pair
  obtain ⟨index⟩ := id
  simp only [link, perform, Array.getElem?_modify, SymbolId.mk.injEq]
  split
  · rfl
  · rw [Option.map_id']

/-- Links change nothing but forward targets: each declaration that was linked stands for what it was
last linked to. -/
theorem getElem?_linkAll (links : List (SymbolId × SymbolId)) (table : Table) (id : SymbolId) :
    (links.foldl link table).symbols[id.index]? =
      table.symbols[id.index]?.map fun symbol =>
        { symbol with forwardTarget := (lastTarget id links).or symbol.forwardTarget } := by
  induction links generalizing table with
  | nil => exact Option.map_id'.symm
  | cons pair rest ih =>
      rw [List.foldl_cons, ih, getElem?_link, Option.map_map]
      congr 1
      funext symbol
      by_cases hid : pair.1 = id
      · simp [lastTarget, hid]
      · simp [lastTarget, hid]

theorem forwardTarget_linkAll (links : List (SymbolId × SymbolId)) {table : Table} {id : SymbolId}
    (lt : id.index < table.size) :
    ((links.foldl link table).symbol id).forwardTarget =
      (lastTarget id links).or (table.symbol id).forwardTarget := by
  have hlinked := getElem?_linkAll links table id
  rw [getElem?_symbol lt, Option.map_some] at hlinked
  rw [symbol_of_getElem? hlinked]

/-- What a link leaves unlinked stood for nothing before. -/
theorem forwardTarget_eq_none_of_link
    (unlinked : ((table.link pair).symbol id).forwardTarget = none)
    (lt : id.index < table.size) : (table.symbol id).forwardTarget = none := by
  have htarget := forwardTarget_linkAll [pair] lt
  rw [List.foldl_cons, List.foldl_nil, unlinked] at htarget
  exact (Option.or_eq_none_iff.mp htarget.symm).2

/-- A link that is made redirects a declaration of the table: the new one, or to the new one an
earlier one that stood for itself when the check began. -/
theorem of_mem_linksMade {olds : List SymbolId} (made : pair ∈ linksMade new olds table) :
    pair.1.index < table.size ∧
      (pair.1 ≠ new → pair.2 = new ∧ (table.symbol pair.1).forwardTarget = none) := by
  induction olds generalizing table with
  | nil => cases made
  | cons old rest ih =>
      rw [linksMade] at made
      split at made
      · exact ih made
      · split at made
        · cases made
        · exact ih made
        · rename_i id target hverdict
          have hlink := isLink_redeclare hverdict
          rcases List.mem_cons.mp made with first | later
          · subst first
            refine ⟨hlink.lt_size, fun differs => ⟨?_, hlink.unlinked differs⟩⟩
            rcases hlink.ends with ⟨hnew, -⟩ | ⟨-, htarget⟩
            · exact absurd hnew differs
            · exact htarget
          · -- The links before this one have not redirected the same declaration.
            obtain ⟨hlt, hunlinked⟩ := ih later
            rw [link, size_perform] at hlt
            refine ⟨hlt, fun differs => ?_⟩
            obtain ⟨htarget, hnone⟩ := hunlinked differs
            exact ⟨htarget, forwardTarget_eq_none_of_link hnone hlt⟩

/-- Links that are made leave the symbols as they were exactly if they redirect only the new
declaration, in the end to what it stood for before. -/
theorem symbols_linksMade_eq_iff (olds : List SymbolId) (made : linksMade new olds table = links) :
    (links.foldl link table).symbols = table.symbols ↔
      ∀ pair ∈ links, pair.1 = new ∧ lastTarget new links = (table.symbol new).forwardTarget := by
  constructor
  · intro same pair member
    obtain ⟨hlt, hunlinked⟩ := of_mem_linksMade (made.symm ▸ member)
    obtain ⟨last, hlast⟩ : ∃ last, lastTarget pair.1 links = some last := exists_lastTarget member
    have htarget := forwardTarget_linkAll links hlt
    rw [hlast, Table.symbol, same, ← Table.symbol] at htarget
    -- An earlier declaration stood for itself, so that its link is a change.
    have hnew : pair.1 = new := by
      apply Decidable.byContradiction
      intro differs
      rw [(hunlinked differs).2] at htarget
      cases htarget
    rw [hnew] at hlast htarget
    exact ⟨hnew, hlast.trans htarget.symm⟩
  · intro only
    apply Array.ext_getElem?
    intro i
    rw [getElem?_linkAll links table ⟨i⟩]
    cases hsymbol : table.symbols[i]? with
    | none => rfl
    | some symbol =>
        have hread : table.symbol ⟨i⟩ = symbol := symbol_of_getElem? hsymbol
        cases hlast : lastTarget ⟨i⟩ links with
        | none => rfl
        | some last =>
            obtain ⟨rfl, hbefore⟩ := only _ (mem_of_lastTarget hlast)
            rw [hread] at hbefore
            rw [Option.map_some, Option.some_or, ← hlast, hbefore]

/-- An earlier declaration is redirected to the new one exactly if the two were linked, and is left
alone otherwise. -/
theorem symbol_linksMade (olds : List SymbolId) (made : linksMade new olds table = links)
    (differs : old ≠ new) :
    ((old, new) ∈ links ∧ (table.symbol old).forwardTarget = none ∧
        (links.foldl link table).symbol old =
          { table.symbol old with forwardTarget := some new }) ∨
      ((old, new) ∉ links ∧ (links.foldl link table).symbol old = table.symbol old) := by
  have hafter := getElem?_linkAll links table old
  cases hlast : lastTarget old links with
  | some target =>
      have hlinked := mem_of_lastTarget hlast
      obtain ⟨hlt, hunlinked⟩ := of_mem_linksMade (made.symm ▸ hlinked)
      obtain ⟨rfl, hnone⟩ := hunlinked differs
      rw [getElem?_symbol hlt, hlast] at hafter
      exact .inl ⟨hlinked, hnone, symbol_of_getElem? hafter⟩
  | none =>
      refine .inr ⟨fun linked => ?_, ?_⟩
      · obtain ⟨last, hsome⟩ := exists_lastTarget linked
        rw [hlast] at hsome
        cases hsome
      · rw [hlast] at hafter
        simp only [Table.symbol, Array.getD_eq_getD_getElem?, hafter, Option.none_or,
          Option.map_id']

end

end Table

namespace Analysis

open Table

/-! ## The check of a new declaration -/

theorem redeclare_apply (old new : SymbolId) (name : Name) (table : Table) :
    redeclare old new name table =
      match table.redeclare old new with
      | .conflict => .error (.error (.invalidOverload name)) table
      | .separate => .ok () table
      | .link id target => .ok () (table.link (id, target)) := by
  unfold redeclare
  change (match table.redeclare old new with
    | .conflict => fail (.invalidOverload name)
    | .separate => pure ()
    | .link id target => setForwardTarget id target : Analysis Unit) table = _
  cases table.redeclare old new <;> rfl

/-- Checking a new declaration against earlier ones makes the links, whether or not a conflict is
found behind them. -/
theorem forM_redeclare (new : SymbolId) (name : Name) (olds : List SymbolId) (table : Table) :
    let after := (linksMade new olds table).foldl link table
    let check := olds.forM fun old => if old = new then pure () else redeclare old new name
    check table = .ok () after ∨ check table = .error (.error (.invalidOverload name)) after := by
  -- The table is generalized: each check sees the links of the checks before it.
  induction olds generalizing table with
  | nil => exact .inl rfl
  | cons old rest ih =>
      intro after check
      have hcheck : check table =
          ((if old = new then pure () else redeclare old new name) >>= fun _ =>
            rest.forM fun old => if old = new then pure () else redeclare old new name) table :=
        rfl
      rw [hcheck]
      have hstep := redeclare_apply old new name table
      by_cases hself : old = new
      · rw [if_pos hself, pure_bind]
        simpa only [after, linksMade, if_pos hself] using ih table
      · rw [if_neg hself]
        cases hverdict : table.redeclare old new with
        | conflict =>
            rw [hverdict] at hstep
            refine .inr ?_
            rw [bind_error hstep]
            simp only [after, linksMade, if_neg hself, hverdict, List.foldl_nil]
        | separate =>
            rw [hverdict] at hstep
            rw [bind_ok hstep]
            simpa only [after, linksMade, if_neg hself, hverdict] using ih table
        | link id target =>
            rw [hverdict] at hstep
            rw [bind_ok hstep]
            simpa only [after, linksMade, if_neg hself, hverdict, List.foldl_cons] using
              ih (table.link (id, target))

/-- A declaration that has passed the check is not rejected any more. -/
theorem insertMember_ne_error (scope id : SymbolId) (table after : Table) (error : SemanticError) :
    insertMember scope id table ≠ .error (.error error) after := by
  intro rejected
  simp only [insertMember, bind, EStateM.bind, get, getThe, MonadStateOf.get, EStateM.get]
    at rejected
  cases hholds : (table.symbol scope).holdsMembers with
  | true =>
      rw [hholds] at rejected
      cases rejected
  | false =>
      rw [hholds] at rejected
      cases rejected

/-- A declaration is rejected only by the check, which leaves its links behind. -/
theorem addSymbol_rejected_eq {scope id : SymbolId} {table after : Table} {error : SemanticError}
    (rejected : addSymbol scope id table = .error (.error error) after) :
    error = .invalidOverload (table.symbol id).name ∧
      after =
        (linksMade id (table.members scope (table.symbol id).name) table).foldl link table := by
  have hchecked := forM_redeclare id (table.symbol id).name
    (table.members scope (table.symbol id).name) table
  simp only [addSymbol, bind, EStateM.bind, get, getThe, MonadStateOf.get, EStateM.get] at rejected
  cases hholds : (table.symbol scope).holdsMembers with
  | false =>
      rw [hholds] at rejected
      cases rejected
  | true =>
      cases hunnamed : (table.symbol id).name.isEmpty with
      | true =>
          rw [hholds, hunnamed] at rejected
          exact absurd rejected (insertMember_ne_error scope id table after error)
      | false =>
          rw [hholds, hunnamed] at rejected
          change (checkRedeclaration scope id >>= fun _ => insertMember scope id) table = _
            at rejected
          rcases hchecked with passed | conflict
          · have hpassed : checkRedeclaration scope id table = _ := passed
            rw [bind_ok hpassed] at rejected
            exact absurd rejected (insertMember_ne_error scope id _ after error)
          · have hconflict : checkRedeclaration scope id table = _ := conflict
            rw [bind_error hconflict] at rejected
            cases rejected
            exact ⟨rfl, rfl⟩

/-- What a rejected declaration leaves behind are the links that the check made before it found the
conflict.  An earlier declaration is redirected to the rejected one exactly if the two were linked,
and it stood for itself before; nothing has changed exactly if only the rejected declaration was
linked, in the end to what it stood for before. -/
theorem addSymbol_rejected_keeps_links (scope id : SymbolId) (table after : Table)
    (error : SemanticError) (rejected : addSymbol scope id table = .error (.error error) after) :
    let links := linksMade id (table.members scope (table.symbol id).name) table
    error = .invalidOverload (table.symbol id).name ∧ after = links.foldl link table ∧
      (∀ old, old ≠ id →
        ((old, id) ∈ links ∧ (table.symbol old).forwardTarget = none ∧
            after.symbol old = { table.symbol old with forwardTarget := some id }) ∨
          ((old, id) ∉ links ∧ after.symbol old = table.symbol old)) ∧
      (after.symbols = table.symbols ↔
        ∀ pair ∈ links, pair.1 = id ∧
          lastTarget id links = (table.symbol id).forwardTarget) := by
  intro links
  obtain ⟨herror, hafter⟩ := addSymbol_rejected_eq rejected
  subst hafter
  refine ⟨herror, rfl, fun old differs => ?_, ?_⟩
  · exact symbol_linksMade _ rfl differs
  · exact symbols_linksMade_eq_iff _ rfl

/-- A table that declares a class forward twice and then creates its definition. -/
def redeclaredTable : Table :=
  finalTable (Table.new {}) do
    let first ← createClass ⟨17⟩ .cls
    addFlags first { specifiers := { isForward := true } }
    addSymbol Table.globalScope first
    let second ← createClass ⟨17⟩ .cls
    addFlags second { specifiers := { isForward := true } }
    addSymbol Table.globalScope second
    discard (createClass ⟨17⟩ .cls)

/-- The definition completes the first forward declaration.  The second one, which collapsed onto the
first, conflicts; the definition is rejected, and the first one stands for it all the same. -/
theorem rejected_definition_keeps_link :
    ∃ after, addSymbol Table.globalScope ⟨3⟩ redeclaredTable =
        .error (.error (.invalidOverload ⟨17⟩)) after ∧
      (redeclaredTable.symbol ⟨1⟩).forwardTarget = none ∧
      (after.symbol ⟨1⟩).forwardTarget = some ⟨3⟩ ∧ after.symbols ≠ redeclaredTable.symbols := by
  have hrejected : addSymbol Table.globalScope ⟨3⟩ redeclaredTable =
      .error (.error (.invalidOverload ⟨17⟩))
        (finalTable redeclaredTable (addSymbol Table.globalScope ⟨3⟩)) :=
    rfl
  have hmembers : redeclaredTable.members Table.globalScope (redeclaredTable.symbol ⟨3⟩).name =
      [⟨1⟩, ⟨2⟩] := rfl
  have hlinks : linksMade ⟨3⟩ [⟨1⟩, ⟨2⟩] redeclaredTable = [(⟨1⟩, ⟨3⟩)] := rfl
  obtain ⟨-, -, hredirected, hunchanged⟩ :=
    addSymbol_rejected_keeps_links Table.globalScope ⟨3⟩ redeclaredTable _ _ hrejected
  rw [hmembers, hlinks] at hredirected hunchanged
  refine ⟨_, hrejected, rfl, ?_, fun same => ?_⟩
  · rcases hredirected ⟨1⟩ (by decide) with ⟨-, -, hsymbol⟩ | ⟨hunlinked, -⟩
    · rw [hsymbol]
    · exact absurd List.mem_cons_self hunlinked
  · have honly := (hunchanged.mp same (⟨1⟩, ⟨3⟩) List.mem_cons_self).1
    cases honly

end Analysis

end NameBinding
