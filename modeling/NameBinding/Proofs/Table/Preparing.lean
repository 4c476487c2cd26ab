import NameBinding.Proofs.Table.Changes
import NameBinding.Proofs.Table.Unambiguous

/-!
# Preparing declarations

Before a declaration is added to a scope it is made, and gets its flags, its parameters and, for a
function, its return type.  None of this touches a declaration that has been added before.

* `Table.Prepared`: passed declarations are left alone, and the others get parts only.
* `Table.Attached`: every parameter has been placed in its function or template.
* `Declared.prepare`: preparing declarations keeps the invariant.
* `Declared.prepare_createSymbol`, `prepare_addParameter` and so on: the operations that prepare.
-/

namespace NameBinding

/-- A change that gives a symbol parts.  Links, members and bases stay, and nothing is taken out of its
scope. -/
structure Symbol.GivesParts (change : Symbol → Symbol) : Prop where
  links : ∀ symbol, (change symbol).aliasOf = symbol.aliasOf ∧
    (change symbol).forwardTarget = symbol.forwardTarget
  bare : ∀ symbol, symbol.Bare → (change symbol).Bare
  membersNamed : ∀ symbol name, (change symbol).membersNamed name = symbol.membersNamed name
  attached : ∀ symbol, symbol.scope.isSome = true → (change symbol).scope.isSome = true

namespace Edit

/-- An edit that attaches a part to a declaration, or the declaration to what it is a part of. -/
def IsPreparation : Edit → Prop
  | .assign (.scope outer _) => outer.isSome = true
  | .assign (.varargs _) => True
  | .assign (.returnType _) => True
  | .append (.parameter _) => True
  | .append (.templateParameter _) => True
  | _ => False

variable {edit : Edit}

theorem IsPreparation.givesParts (preparation : edit.IsPreparation) :
    Symbol.GivesParts edit.apply := by
  rcases edit with assignment | entry | ⟨name, member⟩
  · cases assignment with
    | scope outer inside =>
        exact ⟨fun _ => ⟨rfl, rfl⟩, fun _ bare => ⟨bare.1, bare.2, bare.3, bare.4⟩,
          fun _ _ => rfl, fun _ _ => preparation⟩
    | varargs | returnType =>
        constructor <;> rintro ⟨_, scope, type, inTemplate, access, target, named, origin, link, payload⟩
        · cases payload <;> exact ⟨rfl, rfl⟩
        · cases payload <;> exact fun bare => ⟨bare.1, bare.2, bare.3, bare.4⟩
        · cases payload <;> exact fun _ => rfl
        · cases payload <;> exact fun attached => attached
    | _ => exact preparation.elim
  · cases entry with
    | parameter | templateParameter =>
        constructor <;> rintro ⟨_, scope, type, inTemplate, access, target, named, origin, link, payload⟩
        · cases payload <;> exact ⟨rfl, rfl⟩
        · cases payload <;> exact fun bare => ⟨bare.1, bare.2, bare.3, bare.4⟩
        · cases payload <;> exact fun _ => rfl
        · cases payload <;> exact fun attached => attached
    | _ => exact preparation.elim
  · exact preparation.elim

theorem IsPreparation.type_apply (preparation : edit.IsPreparation) (symbol : Symbol) :
    (edit.apply symbol).type = symbol.type := by
  obtain ⟨_, scope, type, inTemplate, access, target, named, origin, link, payload⟩ := symbol
  rcases edit with assignment | entry | ⟨under, member⟩
  · cases assignment with
    | scope => rfl
    | varargs | returnType => cases payload <;> rfl
    | _ => exact preparation.elim
  · cases entry with
    | parameter | templateParameter => cases payload <;> rfl
    | _ => exact preparation.elim
  · exact preparation.elim

end Edit

namespace Symbol

theorem mem_parameters_append_parameter (parameter : SymbolId) (symbol : Symbol) :
    ∀ other ∈ ((Entry.parameter parameter).append symbol).parameters,
      other ∈ symbol.parameters ∨ other = parameter := by
  obtain ⟨_, scope, type, inTemplate, access, target, named, origin, link, payload⟩ := symbol
  intro other member
  cases payload with
  | function data => simpa [Entry.append, mapFunction, parameters] using member
  | _ => exact .inl member

theorem mem_parameters_append_templateParameter (parameter : SymbolId) (symbol : Symbol) :
    ∀ other ∈ ((Entry.templateParameter parameter).append symbol).parameters,
      other ∈ symbol.parameters ∨ other = parameter := by
  obtain ⟨_, scope, type, inTemplate, access, target, named, origin, link, payload⟩ := symbol
  intro other member
  cases payload with
  | template data => simpa [Entry.append, mapTemplate, parameters] using member
  | _ => exact .inl member

theorem scope_append (entry : Entry) (symbol : Symbol) :
    (entry.append symbol).scope = symbol.scope := by
  obtain ⟨_, scope, type, inTemplate, access, target, named, origin, link, payload⟩ := symbol
  cases entry <;> cases payload <;> rfl

/-- No assignment changes the list of parameters. -/
theorem parameters_assign (assignment : Assignment) (symbol : Symbol) :
    (assignment.apply symbol).parameters = symbol.parameters := by
  obtain ⟨_, scope, type, inTemplate, access, target, named, origin, link, payload⟩ := symbol
  cases assignment <;> cases payload <;> rfl

end Symbol

/-- Flags are no parts. -/
theorem Symbol.givesParts_withFlags (flags : Flags) :
    Symbol.GivesParts fun symbol => { symbol with type := symbol.type.withFlags flags } :=
  ⟨fun _ => ⟨rfl, rfl⟩, fun _ bare => ⟨bare.1, bare.2, bare.3, bare.4⟩, fun _ _ => rfl,
    fun _ attached => attached⟩

/-- A symbol without members, parameters and links. -/
structure Symbol.Untouched (symbol : Symbol) : Prop where
  bare : symbol.Bare
  forwardTarget : symbol.forwardTarget = none
  membersNamed : ∀ name, symbol.membersNamed name = []
  parameters : symbol.parameters = []

/-- What is made without parts has none. -/
theorem Symbol.Untouched.of_blank {symbol : Symbol} (blank : symbol.payload.Blank)
    (aliasOf : symbol.aliasOf = none) (forwardTarget : symbol.forwardTarget = none) :
    symbol.Untouched := by
  obtain ⟨_, scope, type, inTemplate, access, target, named, origin, link, payload⟩ := symbol
  have hspecializations := specializations_of_blank blank
  cases payload with
  | basic | placeholder => exact ⟨⟨aliasOf, rfl, rfl, rfl⟩, forwardTarget, fun _ => rfl, rfl⟩
  | container | cls | function | template =>
      simp only [Payload.Blank] at blank
      rw [blank]
      exact ⟨⟨aliasOf, rfl, rfl, rfl⟩, forwardTarget, fun _ => rfl, rfl⟩

namespace Table

variable {careful : Prop} {table after last : Table} {passed : List SymbolId} {id x : SymbolId}

/-! ## Preparations -/

/-- Passed declarations are left alone, and the others get parts only. -/
structure Prepared (passed : List SymbolId) (table after : Table) : Prop where
  size_le : table.size ≤ after.size
  nextLink : ∀ x, after.nextLink x = table.nextLink x
  bare : ∀ x, (after.symbol x).Bare
  members : ∀ scope name, after.members scope name = table.members scope name
  passed : ∀ x ∈ passed, after.symbol x = table.symbol x
  attached : ∀ x, (table.symbol x).scope.isSome = true → (after.symbol x).scope.isSome = true
  types : ∀ x, (table.symbol x).scope.isSome = true → (after.symbol x).type = (table.symbol x).type

/-- Every parameter has been placed in its function or template. -/
def Attached (table : Table) : Prop :=
  ∀ x, ∀ parameter ∈ (table.symbol x).parameters, (table.symbol parameter).scope.isSome = true

namespace Prepared

theorem trans (first : table.Prepared passed after) (second : after.Prepared passed last) :
    table.Prepared passed last where
  size_le := Nat.le_trans first.size_le second.size_le
  nextLink := fun x => (second.nextLink x).trans (first.nextLink x)
  bare := second.bare
  members := fun scope name => (second.members scope name).trans (first.members scope name)
  passed := fun x member => (second.passed x member).trans (first.passed x member)
  attached := fun x inside => second.attached x (first.attached x inside)
  types := fun x inside => (second.types x (first.attached x inside)).trans (first.types x inside)

/-- Nothing but names and records changes. -/
theorem of_symbols (symbols : after.symbols = table.symbols) (bare : ∀ x, (table.symbol x).Bare) :
    table.Prepared passed after := by
  have hsame := symbol_of_symbols_eq symbols
  refine ⟨Nat.le_of_eq (size_of_symbols_eq symbols).symm, ?_, ?_, ?_, fun x _ => hsame x, ?_, ?_⟩
  · exact fun x => nextLink_of_symbol_eq (by rw [hsame]) (by rw [hsame])
  · exact fun x => (hsame x).symm ▸ bare x
  · exact fun scope name => by rw [Table.members, Table.members, hsame]
  · exact fun x inside => by rwa [hsame]
  · exact fun x _ => by rw [hsame]

/-- A symbol is made. -/
theorem of_push {symbol : Symbol} (symbols : after.symbols = table.symbols.push symbol)
    (untouched : symbol.Untouched) (bare : ∀ x, (table.symbol x).Bare)
    (within : Within table.size passed) : table.Prepared passed after := by
  have hold : ∀ x : SymbolId, x.index < table.size → after.symbol x = table.symbol x := by
    intro x hlt
    rw [symbol_of_push symbols, if_neg (by omega)]
  have hplaced : ∀ x : SymbolId, (table.symbol x).scope.isSome = true → x.index < table.size :=
    fun x inside => lt_size_of_symbol (·.scope.isSome) rfl inside
  refine ⟨by rw [size_of_push symbols]; omega, ?_, ?_, ?_, ?_, ?_, ?_⟩
  · exact nextLink_of_push symbols untouched.bare.aliasOf untouched.forwardTarget
  · intro x
    rw [symbol_of_push symbols]
    split
    · exact untouched.bare
    · exact bare x
  · intro scope name
    rw [Table.members, Table.members, symbol_of_push symbols]
    split
    · rename_i hnew
      rw [untouched.membersNamed, symbol_of_getElem?_none]
      · rfl
      · exact Array.getElem?_eq_none (Nat.le_of_eq hnew.symm)
    · rfl
  · exact fun x member => hold x (within x member)
  · exact fun x inside => by rwa [hold x (hplaced x inside)]
  · exact fun x inside => by rw [hold x (hplaced x inside)]

/-- A symbol that has not been passed gets a part. -/
theorem of_modify {change : Symbol → Symbol}
    (symbols : after.symbols = table.symbols.modify id.index change)
    (gives : Symbol.GivesParts change) (fresh : id ∉ passed) (bare : ∀ x, (table.symbol x).Bare)
    (type : (table.symbol id).scope.isSome = true →
      (change (table.symbol id)).type = (table.symbol id).type) : table.Prepared passed after := by
  have hsymbol := symbol_of_modify symbols
  refine ⟨Nat.le_of_eq (size_of_modify symbols).symm, ?_, ?_, ?_, ?_, ?_, ?_⟩
  · intro x
    have hlinks := gives.links (table.symbol x)
    refine nextLink_of_symbol_eq ?_ ?_
    · rw [hsymbol]
      split
      · exact hlinks.1
      · rfl
    · rw [hsymbol]
      split
      · exact hlinks.2
      · rfl
  · intro x
    rw [hsymbol]
    split
    · exact gives.bare _ (bare x)
    · exact bare x
  · intro scope name
    rw [Table.members, Table.members, hsymbol]
    split
    · exact gives.membersNamed _ name
    · rfl
  · intro x member
    rw [hsymbol, if_neg]
    rintro ⟨rfl, -⟩
    exact fresh member
  · intro x inside
    rw [hsymbol]
    split
    · exact gives.attached _ inside
    · exact inside
  · intro x inside
    rw [hsymbol]
    split
    · rename_i hsame
      obtain ⟨rfl, -⟩ := hsame
      exact type inside
    · rfl

theorem of_perform {edit : Edit} (preparation : edit.IsPreparation) (fresh : id ∉ passed)
    (bare : ∀ x, (table.symbol x).Bare) : table.Prepared passed (table.perform id edit) :=
  of_modify rfl preparation.givesParts fresh bare fun _ => preparation.type_apply _

variable (prepared : table.Prepared passed after)

include prepared

theorem unmoved : table.Unmoved passed after where
  size_le := prepared.size_le
  nextLink := prepared.nextLink
  heads := by
    intro x member
    rw [prepared.passed x member]
    exact .refl _
  templated := by
    intro x member
    rw [templated?_eq, templated?_eq, prepared.passed x member, prepared.members]
  types := prepared.types

end Prepared

/-- Preparing declarations keeps the invariant. -/
theorem Declared.prepare (declared : table.Declared careful passed)
    (prepared : table.Prepared passed after) (attached : after.Attached) :
    after.Declared careful passed := by
  refine declared.unmoved prepared.unmoved prepared.bare attached ?_ ?_
  · intro scope name x member
    rw [prepared.members] at member
    obtain ⟨hpassed, hscope⟩ := declared.members scope name x member
    rw [prepared.passed x hpassed]
    exact ⟨hpassed, hscope⟩
  · intro scope name named
    rw [prepared.members]
    refine prepared.unmoved.unambiguous declared ?_ (declared.unambiguous scope name named)
    exact fun x member => (declared.members scope name x member).1

/-! ## Parameters -/

theorem Attached.of_push (attached : table.Attached) {symbol : Symbol}
    (symbols : after.symbols = table.symbols.push symbol) (untouched : symbol.Untouched) :
    after.Attached := by
  intro x parameter inside
  rw [symbol_of_push symbols] at inside
  split at inside
  · rw [untouched.parameters] at inside
    exact absurd inside List.not_mem_nil
  · have hplaced := attached x parameter inside
    have hlt := lt_size_of_symbol (·.scope.isSome) rfl hplaced
    rwa [symbol_of_push symbols, if_neg (by omega)]

/-- A change that leaves parameters alone and takes nothing out of its scope. -/
theorem Attached.of_modify (attached : table.Attached) {change : Symbol → Symbol}
    (symbols : after.symbols = table.symbols.modify id.index change)
    (gives : Symbol.GivesParts change)
    (parameters : ∀ symbol, (change symbol).parameters = symbol.parameters) : after.Attached := by
  intro x parameter inside
  have hbefore : parameter ∈ (table.symbol x).parameters := by
    rw [symbol_of_modify symbols] at inside
    split at inside
    · rwa [parameters] at inside
    · exact inside
  rw [symbol_of_modify symbols]
  split
  · exact gives.attached _ (attached x parameter hbefore)
  · exact attached x parameter hbefore

/-- A part is put into its owner and then placed in it. -/
theorem Attached.attach (attached : table.Attached) {owner part : SymbolId} {entry : Entry}
    {inside : Bool} (lt : part.index < table.size)
    (appends : ∀ symbol : Symbol, ∀ other ∈ (entry.append symbol).parameters,
      other ∈ symbol.parameters ∨ other = part) :
    ((table.perform owner (.append entry)).perform part
      (.assign (.scope (some owner) inside))).Attached := by
  intro x other member
  have hplaced : (table.symbol other).scope.isSome = true ∨ other = part := by
    have hafter : other ∈ ((table.perform owner (.append entry)).symbol x).parameters := by
      rw [symbol_perform] at member
      split at member
      · exact member
      · exact member
    rw [symbol_perform] at hafter
    split at hafter
    · exact (appends _ other hafter).imp_left (attached x other)
    · exact .inl (attached x other hafter)
  rw [symbol_perform]
  split
  · rfl
  · rename_i hother
    rcases hplaced with placed | rfl
    · rw [symbol_perform]
      split
      · show ((entry.append (table.symbol other)).scope).isSome = true
        rwa [Symbol.scope_append]
      · exact placed
    · exact absurd ⟨rfl, by simpa using lt⟩ hother

/-! ## Operations that prepare -/

namespace Declared

/-- The step leads to a table in which the same declarations have been passed, also if it fails. -/
def KeptBy {α : Type} (careful : Prop) (passed : List SymbolId) (step : Analysis α) (table : Table) :
    Prop :=
  Analysis.EndsWith (fun next => next.Declared careful passed)
    (fun next => next.Declared careful passed) (fun _ => True) (step table)

namespace KeptBy

variable {α β : Type} {step : Analysis α}

theorem fault {fault : Fault} (ends : step table = .error (.fault fault) table) :
    KeptBy careful passed step table := by
  rw [KeptBy, ends]
  trivial

/-- Going on with the table that was read. -/
theorem read {next : Table → Analysis α} (kept : KeptBy careful passed (next table) table) :
    KeptBy careful passed (MonadState.get >>= next) table :=
  kept

theorem bind {next : α → Analysis β} {value : α} {after : Table}
    (ends : step table = .ok value after) (kept : KeptBy careful passed (next value) after) :
    KeptBy careful passed (step >>= next) table := by
  rw [KeptBy, Analysis.bind_ok ends]
  exact kept

theorem bind_pure (kept : KeptBy careful passed step table) (value : α → β) :
    KeptBy careful passed (step >>= fun found => pure (value found)) table := by
  unfold KeptBy at kept ⊢
  cases hstep : step table with
  | ok found after =>
      rw [hstep] at kept
      rw [Analysis.bind_ok hstep]
      exact ⟨kept.1, trivial⟩
  | error interrupt after =>
      rw [hstep] at kept
      rw [Analysis.bind_error hstep]
      cases interrupt with
      | error error => exact kept
      | fault fault => trivial

end KeptBy

variable (declared : table.Declared careful passed)

include declared

theorem prepare_create {symbol : Symbol} (untouched : symbol.Untouched) :
    KeptBy careful passed (Analysis.create symbol) table := by
  refine ⟨declared.prepare (.of_push rfl untouched declared.bare declared.within) ?_, trivial⟩
  exact Attached.of_push declared.attached rfl untouched

/-- An edit of a declaration that is still being prepared. -/
theorem prepare_assign {assignment : Assignment}
    (preparation : (Edit.assign assignment).IsPreparation) (fresh : id ∉ passed) :
    KeptBy careful passed (Analysis.assign id assignment) table := by
  refine ⟨declared.prepare (.of_perform preparation fresh declared.bare) ?_, trivial⟩
  exact Attached.of_modify declared.attached rfl preparation.givesParts
    (Symbol.parameters_assign assignment)

theorem prepare_attach {owner part : SymbolId} {entry : Entry} {inside : Bool}
    (preparation : (Edit.append entry).IsPreparation) (freshOwner : owner ∉ passed)
    (freshPart : part ∉ passed) (lt : part.index < table.size)
    (appends : ∀ symbol : Symbol, ∀ other ∈ (entry.append symbol).parameters,
      other ∈ symbol.parameters ∨ other = part) :
    KeptBy careful passed (do
      Analysis.append owner entry
      Analysis.assign part (.scope (some owner) inside)) table := by
  have hattached : Attached table := declared.attached
  have hfirst : table.Prepared passed (table.perform owner (.append entry)) :=
    .of_perform preparation freshOwner declared.bare
  refine ⟨declared.prepare (hfirst.trans (.of_perform ?_ freshPart hfirst.bare)) ?_, trivial⟩
  · rfl
  · exact hattached.attach lt appends

theorem prepare_addParameter {function parameter : SymbolId} (freshOwner : function ∉ passed)
    (fresh : parameter ∉ passed) (lt : parameter.index < table.size) :
    KeptBy careful passed (Analysis.addParameter function parameter) table := by
  refine .read ?_
  dsimp only
  split
  · refine declared.prepare_attach (by trivial) freshOwner fresh lt ?_
    exact Symbol.mem_parameters_append_parameter parameter
  · exact .fault rfl
  · exact .fault rfl

theorem prepare_addParameterType {function : SymbolId} (freshOwner : function ∉ passed)
    (type : Descriptor) :
    KeptBy careful passed (Analysis.addParameterType function type) table := by
  have huntouched : ({ name := Name.empty, type } : Symbol).Untouched :=
    .of_blank (by trivial) rfl rfl
  have hcreated := declared.prepare_create huntouched
  have hlt : table.size < (table.allocate { name := Name.empty, type }).2.size := by
    rw [size_allocate]
    omega
  -- The parameter is the newest symbol.
  have hfresh : (⟨table.size⟩ : SymbolId) ∉ passed := fun member =>
    Nat.lt_irrefl _ (declared.within _ member)
  have hadded := hcreated.1.prepare_addParameter freshOwner hfresh hlt
  exact .bind rfl (hadded.bind_pure _)

theorem prepare_setVarargs {function : SymbolId} (fresh : function ∉ passed) (varargs : Bool) :
    KeptBy careful passed (Analysis.setVarargs function varargs) table := by
  refine .read ?_
  split
  · exact declared.prepare_assign (by trivial) fresh
  · exact .fault rfl

theorem prepare_setReturnType {function : SymbolId} (fresh : function ∉ passed)
    (type : Descriptor) :
    KeptBy careful passed (Analysis.setReturnType function type) table := by
  refine .read ?_
  split
  · exact declared
  · split
    · exact declared.prepare_assign (by trivial) fresh
    · exact .fault rfl

theorem prepare_addTemplateParameter {template parameter : SymbolId}
    (freshOwner : template ∉ passed) (fresh : parameter ∉ passed)
    (lt : parameter.index < table.size) :
    KeptBy careful passed (Analysis.addTemplateParameter template parameter) table := by
  refine .read ?_
  split
  · exact declared
  · split
    · refine declared.prepare_attach (by trivial) freshOwner fresh lt ?_
      exact Symbol.mem_parameters_append_templateParameter parameter
    · exact .fault rfl

/-- Flags are given to a declaration that is in no scope yet. -/
theorem prepare_addFlags (fresh : id ∉ passed) (unplaced : (table.symbol id).scope = none)
    (flags : Flags) : KeptBy careful passed (Analysis.addFlags id flags) table := by
  have hgives := Symbol.givesParts_withFlags flags
  refine ⟨declared.prepare (.of_modify rfl hgives fresh declared.bare ?_) ?_, trivial⟩
  · rw [unplaced]
    exact fun placed => by cases placed
  · exact Attached.of_modify declared.attached rfl hgives fun _ => rfl

theorem prepare_intern (text : String) :
    KeptBy careful passed (modifyGet (·.intern text)) table := by
  refine ⟨declared.prepare (.of_symbols rfl declared.bare) ?_, trivial⟩
  exact declared.attached

end Declared

end Table

end NameBinding
