import NameBinding.Proofs.Lookup.Keeps
import NameBinding.Proofs.Table.Changes
import NameBinding.Proofs.Template.Outermost

/-!
# Growing tables

Lookups, calls and instantiations only ask: they add symbols at the end and remember instances.  A symbol
that was there before stays what it is, but for the instances and placeholders it remembers, to which new
ones are added, and its origin.

* `Symbol.GrowsTo` and `Table.Grows`: the symbol, or the table, with more remembered.
* `CopySteps.grows`: copying a template lets the table grow.
* `Growth`: the table has grown, and no instantiation is running.

The main statement is `Growth.instantiationKeeps`: between instantiations the table has grown, whether or not
they succeeded.
-/

namespace NameBinding

/-! ## Symbols -/

/-- The payload without remembered instances. -/
def Payload.withoutCaches : Payload → Payload
  | .template data => .template { data with instances := [], placeholders := [] }
  | payload => payload

/-- The symbol without what is remembered about instances. -/
def Symbol.withoutCaches (symbol : Symbol) : Symbol :=
  { symbol with origin := none, payload := symbol.payload.withoutCaches }

/-- The symbol with more instances remembered. -/
structure Symbol.GrowsTo (symbol grown : Symbol) : Prop where
  kept : grown.withoutCaches = symbol.withoutCaches
  instances : symbol.instances <+: grown.instances
  placeholders : symbol.placeholders <+: grown.placeholders

namespace Symbol.GrowsTo

variable {symbol grown last : Symbol}

theorem refl (symbol : Symbol) : symbol.GrowsTo symbol :=
  ⟨rfl, List.prefix_refl _, List.prefix_refl _⟩

theorem trans (first : symbol.GrowsTo grown) (second : grown.GrowsTo last) : symbol.GrowsTo last where
  kept := second.kept.trans first.kept
  instances := first.instances.trans second.instances
  placeholders := first.placeholders.trans second.placeholders

/-- Remembering an instance lets a symbol grow. -/
theorem of_cache {edit : Edit} (cache : edit.IsCache) (symbol : Symbol) :
    symbol.GrowsTo (edit.apply symbol) := by
  obtain ⟨name, scope, type, inTemplate, access, target, named, origin, link, payload⟩ := symbol
  rcases edit with assignment | entry | ⟨under, member⟩
  · cases assignment with
    | origin value => exact ⟨rfl, List.prefix_refl _, List.prefix_refl _⟩
    | _ => exact cache.elim
  · cases payload with
    | template data =>
        cases entry with
        | cached entry => exact ⟨rfl, List.prefix_append _ _, List.prefix_refl _⟩
        | placeholder entry => exact ⟨rfl, List.prefix_refl _, List.prefix_append _ _⟩
        | _ => exact cache.elim
    | _ =>
        cases entry with
        | cached | placeholder => exact ⟨rfl, List.prefix_refl _, List.prefix_refl _⟩
        | _ => exact cache.elim
  · exact cache.elim

variable (grows : symbol.GrowsTo grown)

include grows

/-- Whatever does not depend on remembered instances is the same. -/
theorem read {α : Type} (property : Symbol → α)
    (ignores : ∀ symbol : Symbol, property symbol.withoutCaches = property symbol) :
    property grown = property symbol := by
  rw [← ignores grown, grows.kept, ignores]

theorem type : grown.type = symbol.type := grows.read (·.type) fun _ => rfl

theorem aliasOf : grown.aliasOf = symbol.aliasOf := grows.read (·.aliasOf) fun _ => rfl

theorem forwardTarget : grown.forwardTarget = symbol.forwardTarget :=
  grows.read (·.forwardTarget) fun _ => rfl

theorem parameters : grown.parameters = symbol.parameters := by
  refine grows.read Symbol.parameters ?_
  rintro ⟨name, scope, type, inTemplate, access, target, named, origin, link, payload⟩
  cases payload <;> rfl

theorem isTemplate : grown.isTemplate = symbol.isTemplate := by
  refine grows.read Symbol.isTemplate ?_
  rintro ⟨name, scope, type, inTemplate, access, target, named, origin, link, payload⟩
  cases payload <;> rfl

theorem placeholder? : grown.placeholder? = symbol.placeholder? := by
  refine grows.read Symbol.placeholder? ?_
  rintro ⟨name, scope, type, inTemplate, access, target, named, origin, link, payload⟩
  cases payload <;> rfl

theorem explicits : grown.explicits = symbol.explicits := by
  refine grows.read Symbol.explicits ?_
  rintro ⟨name, scope, type, inTemplate, access, target, named, origin, link, payload⟩
  cases payload <;> rfl

theorem specializations : grown.specializations = symbol.specializations := by
  refine grows.read Symbol.specializations ?_
  rintro ⟨name, scope, type, inTemplate, access, target, named, origin, link, payload⟩
  cases payload <;> rfl

theorem contents : grown.contents = symbol.contents := by
  refine grows.read Symbol.contents ?_
  rintro ⟨name, scope, type, inTemplate, access, target, named, origin, link, payload⟩
  cases payload <;> rfl

theorem parents : grown.parents = symbol.parents := by
  refine grows.read Symbol.parents ?_
  rintro ⟨name, scope, type, inTemplate, access, target, named, origin, link, payload⟩
  cases payload <;> rfl

theorem directives : grown.directives = symbol.directives := by
  refine grows.read Symbol.directives ?_
  rintro ⟨name, scope, type, inTemplate, access, target, named, origin, link, payload⟩
  cases payload <;> rfl

/-- All that may be new about a symbol that is no template is its origin. -/
theorem eq_of_plain (plain : symbol.isTemplate = false) : grown = { symbol with origin := grown.origin } := by
  have hkept := grows.kept
  have hplain := grows.isTemplate.trans plain
  obtain ⟨name, scope, type, inTemplate, access, target, named, origin, link, payload⟩ := symbol
  obtain ⟨name', scope', type', inTemplate', access', target', named', origin', link', payload'⟩ := grown
  simp only [Symbol.withoutCaches, Symbol.mk.injEq] at hkept
  obtain ⟨rfl, rfl, rfl, rfl, rfl, rfl, rfl, -, rfl, hpayload⟩ := hkept
  cases payload <;> cases payload' <;>
    simp_all [Symbol.isTemplate, Symbol.templateData?, Payload.withoutCaches]

/-- A symbol that is no template holds what it held. -/
theorem payload (plain : symbol.templateData? = none) : grown.payload = symbol.payload := by
  rw [grows.eq_of_plain (by rw [Symbol.isTemplate, plain]; rfl)]

theorem isTemplateParameter : grown.isTemplateParameter = symbol.isTemplateParameter :=
  congrArg (·.kind == .templateParameter) grows.type

theorem isPlaceholder : grown.isPlaceholder = symbol.isPlaceholder :=
  congrArg Option.isSome grows.placeholder?

end Symbol.GrowsTo

/-! ## Tables -/

/-- The table with more symbols, and more instances remembered. -/
structure Table.Grows (before after : Table) : Prop where
  size_le : before.size ≤ after.size
  config : after.config = before.config
  symbols : ∀ x : SymbolId, x.index < before.size → (before.symbol x).GrowsTo (after.symbol x)

namespace Table.Grows

variable {before after last : Table}

theorem refl (table : Table) : table.Grows table :=
  ⟨Nat.le_refl _, rfl, fun _ _ => .refl _⟩

theorem trans (first : before.Grows after) (second : after.Grows last) : before.Grows last where
  size_le := Nat.le_trans first.size_le second.size_le
  config := second.config.trans first.config
  symbols := fun x lt =>
    (first.symbols x lt).trans (second.symbols x (Nat.lt_of_lt_of_le lt first.size_le))

/-- Only names, records and running copies differ. -/
theorem of_symbols (symbols : after.symbols = before.symbols) (config : after.config = before.config) :
    before.Grows after := by
  refine ⟨Nat.le_of_eq (size_of_symbols_eq symbols).symm, config, fun x _ => ?_⟩
  rw [symbol_of_symbols_eq symbols]
  exact .refl _

theorem allocate (table : Table) (symbol : Symbol) : table.Grows (table.allocate symbol).2 := by
  refine ⟨Nat.le_of_lt (by simp [size_allocate]), rfl, fun x lt => ?_⟩
  have hpushed : (table.allocate symbol).2.symbols = table.symbols.push symbol := rfl
  have hold : (table.allocate symbol).2.symbol x = table.symbol x := by
    rw [symbol_of_push hpushed, if_neg (by omega)]
  rw [hold]
  exact .refl _

theorem perform (table : Table) (id : SymbolId) {edit : Edit} (cache : edit.IsCache) :
    table.Grows (table.perform id edit) := by
  refine ⟨Nat.le_of_eq (size_perform table id edit).symm, rfl, fun x lt => ?_⟩
  rw [symbol_perform]
  split
  · exact .of_cache cache _
  · exact .refl _

/-- An edit of a symbol that was not there. -/
theorem modify_behind (grows : before.Grows after) {id : SymbolId} {change : Symbol → Symbol}
    (symbols : last.symbols = after.symbols.modify id.index change)
    (config : last.config = after.config) (fresh : before.size ≤ id.index) : before.Grows last := by
  refine ⟨?_, config.trans grows.config, fun x lt => ?_⟩
  · rw [size_of_modify symbols]
    exact grows.size_le
  · have hother : ¬ (id = x ∧ x.index < after.size) := by
      rintro ⟨rfl, -⟩
      omega
    rw [symbol_of_modify symbols, if_neg hother]
    exact grows.symbols x lt

theorem templated?_eq (grows : before.Grows after) {template : SymbolId} (lt : template.index < before.size) :
    after.templated? template = before.templated? template := by
  refine (grows.symbols template lt).read
    (fun symbol => symbol.templateData?.bind fun data => (data.decls.get symbol.name).head?) ?_
  rintro ⟨name, scope, type, inTemplate, access, target, named, origin, link, payload⟩
  cases payload <;> rfl

end Table.Grows

/-- The table has all symbols of an earlier one, with more instances remembered.  Unlike for `Grows`, its limits may
differ. -/
structure Table.Retains (after before : Table) : Prop where
  size_le : before.size ≤ after.size
  symbols : ∀ x : SymbolId, x.index < before.size → (before.symbol x).GrowsTo (after.symbol x)

/-- Symbols that are out of reach only grow. -/
theorem Change.growsTo {regime : Regime} {table after : Table} (change : Change regime table after)
    (le : regime.base ≤ table.size) {x : SymbolId} (old : x.index < regime.base) :
    (table.symbol x).GrowsTo (after.symbol x) := by
  cases change with
  | create symbol symbols =>
      rw [Table.symbol_of_push symbols, if_neg (by omega)]
      exact .refl _
  | edit id edit allowed symbols =>
      rw [Table.symbol_of_modify symbols]
      split
      · rename_i hsame
        exact .of_cache (regime.caches table id edit allowed (hsame.1 ▸ old)) _
      · exact .refl _
  | elsewhere symbols =>
      rw [Table.symbol_of_symbols_eq symbols]
      exact .refl _
  | links start context base_le copies links =>
      -- Only copies are linked, and those are younger than `start`.
      rw [links.others x fun pair member same => ?_]
      · exact .refl _
      · have hfresh := (copies.fresh pair member).1
        rw [same] at hfresh
        omega

theorem Changes.growsTo {regime : Regime} {table after : Table} (changes : Changes regime table after)
    (le : regime.base ≤ table.size) {x : SymbolId} (old : x.index < regime.base) :
    (table.symbol x).GrowsTo (after.symbol x) := by
  induction changes with
  | refl => exact .refl _
  | tail before change ih => exact ih.trans (change.growsTo (Nat.le_trans le (Changes.size_le before)) old)

namespace Table.Retains

variable {before after last : Table}

theorem refl (table : Table) : table.Retains table := ⟨Nat.le_refl _, fun _ _ => .refl _⟩

theorem trans (first : after.Retains before) (second : last.Retains after) : last.Retains before where
  size_le := Nat.le_trans first.size_le second.size_le
  symbols := fun x lt =>
    (first.symbols x lt).trans (second.symbols x (Nat.lt_of_lt_of_le lt first.size_le))

/-- Where everything that there was is out of reach, it is retained. -/
theorem of_changes {regime : Regime} (changes : Changes regime before after)
    (base : regime.base = before.size) : after.Retains before where
  size_le := changes.size_le
  symbols := fun _ lt => changes.growsTo (Nat.le_of_eq base) (base ▸ lt)

end Table.Retains

/-- Copying a template lets the old part of the table grow. -/
theorem CopySteps.grows {size : Nat} {before after : Table} (steps : CopySteps size before after)
    (bound : before.size ≤ size) : before.Grows after := by
  induction steps with
  | refl => exact .refl _
  | create steps symbol _ ih => exact ih.trans (.allocate _ symbol)
  | cache steps id edit cache ih => exact ih.trans (.perform _ id cache)
  | perform steps id edit fresh ih => exact ih.modify_behind rfl rfl (Nat.le_trans bound fresh)
  | write steps id edit fresh ih => exact ih.modify_behind rfl rfl (Nat.le_trans bound fresh)
  | instantiations steps templates ih => exact ih.trans (.of_symbols rfl rfl)

/-! ## Asking -/

/-- The table has grown, and no instantiation is running. -/
structure Growth (before after : Table) : Prop where
  idle : after.Idle
  grows : before.Grows after

namespace Growth

open Analysis

variable {before : Table}

theorem keeps_intern (text : String) :
    Keeps (Growth before) (modifyGet (·.intern text) : Analysis Name) :=
  Yields.updateGet
    (fun _ growth => ⟨⟨growth.idle, growth.grows.trans (.of_symbols rfl rfl)⟩, trivial⟩)
    fun _ _ _ => trivial

theorem admitsInstances : AdmitsInstances (Growth before) .none where
  create := fun symbol _ =>
    Yields.updateGet
      (fun table growth => ⟨⟨growth.idle, growth.grows.trans (.allocate table symbol)⟩, trivial⟩)
      fun _ _ _ => trivial
  cache := fun id _ cache =>
    Yields.update (fun table growth => ⟨growth.idle, growth.grows.trans (.perform table id cache)⟩)
      fun _ _ _ => trivial

/-- An outermost copy lets the table grow, whether it succeeds or fails. -/
theorem outermostCopy {table : Table} (idle : table.Idle) {copy : Analysis SymbolId}
    (copies : CopiesFrom table copy) :
    EndsWith (Growth table) (Growth table) (fun _ => True) (Analysis.outermostCopy copy table) := by
  have hbegun : table.Grows table.copyBegun := .of_symbols rfl rfl
  have hgrows : EndsWith table.Grows table.Grows (fun _ => True) (copy table.copyBegun) :=
    (copies.ends idle).weaken
      (fun _ _ ended _ => ⟨hbegun.trans (ended.1.grows (Nat.le_refl _)), trivial⟩)
      fun _ ended => hbegun.trans (ended.1.grows (Nat.le_refl _))
  have hends := outermostCopy_ends copies idle
    (fun _ _ symbols config grows => grows.trans (.of_symbols symbols config)) (.refl table) hgrows
  exact hends.weaken (fun _ _ ended _ => ⟨⟨ended.1, ended.2⟩, trivial⟩) fun _ ended => ⟨ended.1, ended.2⟩

theorem follows_instantiateUncached (bound : Nat) :
    Follows (Growth before) .none (instantiateUncached (instantiateWithin bound) bound)
      (instantiateUncached (instantiateWithin bound) bound) := by
  intro template args
  refine Yields.keeps_of_ends fun table growth => ?_
  rw [instantiateUncached_idle growth.idle]
  exact (outermostCopy growth.idle (copiesFrom_completeCopy bound template args table _ _)).weaken
    (fun _ _ next _ => ⟨⟨next.idle, growth.grows.trans next.grows⟩, trivial⟩)
    fun _ next => ⟨next.idle, growth.grows.trans next.grows⟩

/-- Instantiation lets the table grow. -/
theorem instantiationKeeps : InstantiationKeeps (Growth before) := by
  intro bound
  induction bound with
  | zero =>
      intro template args
      exact Yields.violated _ _
  | succ bound ih =>
      exact tracks_instantiateStep admitsInstances ih (follows_instantiateUncached bound) bound

end Growth

end NameBinding
