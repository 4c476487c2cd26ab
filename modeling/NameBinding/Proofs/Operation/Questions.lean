import NameBinding.Proofs.Operation.Repetition
import NameBinding.Proofs.Template.Adoption

/-!
# What questions touch

Looking names up, resolving calls, comparing types and instantiating may add symbols, but touch those that were
there before only in what they remember.  New instances and placeholders are added at the end, and an origin
changes only where the instance of a partial specialization is adopted by the primary template.  For an explicit
specialization of a partial specialization, that is a symbol that was there before.

* `Table.Adopts`: instantiating a selected partial specialization gives the symbol.
* `Table.Traces`: the table has grown, and every origin that differs is accounted for by an adoption.
* `Table.Traces.outlasts`: instantiation leaves no other trace, whether or not it succeeds.

The main statement is `question_touches_only_caches`.
-/

namespace NameBinding

namespace Table

variable {before after last : Table}

/-- In a table that `before` grows to, the primary template selects a partial specialization for the arguments,
and instantiating that one gives `made`. -/
def Adopts (before : Table) (template : SymbolId) (args : List Descriptor) (made : SymbolId) : Prop :=
  ∃ middle last bound chosen, before.Grows middle ∧
    middle.selectSpecialization template args = .ok (some chosen) ∧
    Analysis.instantiateWithin bound chosen.1 chosen.2 middle = .ok made last

/-- The table has grown, and the origin of an old symbol is what it was unless the symbol was adopted. -/
structure Traces (before after : Table) : Prop where
  grows : before.Grows after
  origins : ∀ x : SymbolId, x.index < before.size →
    (after.symbol x).origin = (before.symbol x).origin ∨
      ∃ use, (after.symbol x).origin = some use ∧ before.Adopts use.template use.args x

end Table

/-- Remembering an instance does not concern any origin. -/
theorem Edit.IsMemory.origin_apply {edit : Edit} (memory : edit.IsMemory) (symbol : Symbol) :
    (edit.apply symbol).origin = symbol.origin := by
  rcases edit with assignment | entry | ⟨name, member⟩
  · exact memory.elim
  · cases entry with
    | cached | placeholder =>
        obtain ⟨name, scope, type, inTemplate, access, target, named, origin, link, payload⟩ := symbol
        cases payload <;> rfl
    | _ => exact memory.elim
  · exact memory.elim

namespace Table.Traces

variable {before after last : Table}

theorem refl (table : Table) : table.Traces table := ⟨.refl table, fun _ _ => .inl rfl⟩

/-- A step that changes no origin of an old symbol. -/
theorem extend (traces : before.Traces after) (grows : before.Grows last)
    (same : ∀ x : SymbolId, x.index < before.size → (last.symbol x).origin = (after.symbol x).origin) :
    before.Traces last where
  grows := grows
  origins := fun x lt => by
    rw [same x lt]
    exact traces.origins x lt

theorem of_symbols (traces : before.Traces after) (symbols : last.symbols = after.symbols)
    (config : last.config = after.config) : before.Traces last :=
  traces.extend (traces.grows.trans (.of_symbols symbols config)) fun x _ => by
    rw [symbol_of_symbols_eq symbols]

theorem allocate (traces : before.Traces after) (symbol : Symbol) :
    before.Traces (after.allocate symbol).2 := by
  refine traces.extend (traces.grows.trans (.allocate after symbol)) fun x lt => ?_
  have hold := Nat.lt_of_lt_of_le lt traces.grows.size_le
  have hpushed : (after.allocate symbol).2.symbols = after.symbols.push symbol := rfl
  rw [symbol_of_push hpushed, if_neg (Nat.ne_of_lt hold)]

theorem remember (traces : before.Traces after) (id : SymbolId) {edit : Edit} (memory : edit.IsMemory) :
    before.Traces (after.perform id edit) := by
  refine traces.extend (traces.grows.trans (.perform after id memory.isCache)) fun x _ => ?_
  rw [symbol_perform]
  split
  · exact memory.origin_apply _
  · rfl

theorem modify_behind (traces : before.Traces after) {id : SymbolId} {change : Symbol → Symbol}
    (symbols : last.symbols = after.symbols.modify id.index change)
    (config : last.config = after.config) (fresh : before.size ≤ id.index) : before.Traces last := by
  refine traces.extend (traces.grows.modify_behind symbols config fresh) fun x lt => ?_
  have hother : ¬ (id = x ∧ x.index < after.size) := by
    rintro ⟨rfl, -⟩
    omega
  rw [symbol_of_modify symbols, if_neg hother]

/-- Adoption gives the symbol its new origin. -/
theorem adopt (traces : before.Traces after) {template made : SymbolId} {args : List Descriptor}
    (adopts : before.Adopts template args made) : before.Traces (after.adopting template args made) := by
  have hremembered : before.Traces (after.perform template (.append (.cached { args, symbol := made }))) :=
    traces.remember template trivial
  have horigin : (Edit.assign (.origin (some { template, args }))).IsCache := trivial
  refine ⟨hremembered.grows.trans (.perform _ made horigin), fun x lt => ?_⟩
  rw [adopting, symbol_perform]
  split
  · rename_i found
    rw [← found.1]
    exact .inr ⟨_, rfl, adopts⟩
  · exact hremembered.origins x lt

/-- Every step of a copy is traced, where the symbols from `size` on are new. -/
theorem survives {size : Nat} (bound : before.size ≤ size) : Survives size before.Traces where
  create := fun _ symbol _ traces => traces.allocate symbol
  addInstance := fun _ template _ symbol _ _ traces => (traces.allocate symbol).remember template (by trivial)
  addPlaceholder := fun _ template _ symbol _ traces => (traces.allocate symbol).remember template (by trivial)
  perform := fun _ _ _ fresh _ traces => traces.modify_behind rfl rfl (Nat.le_trans bound fresh)
  write := fun _ _ _ fresh _ traces => traces.modify_behind rfl rfl (Nat.le_trans bound fresh)
  instantiations := fun _ _ traces => traces.of_symbols rfl rfl

end Table.Traces

/-- Instantiation leaves its traces and no others. -/
theorem Table.Traces.outlasts (before : Table) : Outlasts before.size before.Traces where
  size_le := fun _ traces => traces.grows.size_le
  steps := Table.Traces.survives (Nat.le_refl _)
  of_symbols := fun _ _ symbols config traces => traces.of_symbols symbols config
  adopt := fun bound table last _ _ chosen _ traces selected made _ traced =>
    traced.adopt ⟨table, last, bound, chosen, traces.grows, selected, made⟩

/-- Asking touches old symbols only in their caches.  Let a lookup in any of its forms, the resolution of a call,
the comparison of types or an instantiation end, with success or with a recoverable error, in a table in which no
instantiation is running.  Then no symbol is gone, and every symbol that was there before is unchanged in every
field, except that instances and placeholders may have been added behind those that it remembers if it is a
template, and except that its origin may have become the primary template and the arguments for which a partial
specialization was selected and gave this symbol. -/
theorem question_touches_only_caches (table : Table) (idle : table.Idle) (question : Operation)
    (asks : question.IsQuestion) (after : Table)
    (ends : (Action.perform question).after table = some after) :
    table.size ≤ after.size ∧
      ∀ x : SymbolId, x.index < table.size →
        (table.symbol x).GrowsTo (after.symbol x) ∧
          ((table.symbol x).isTemplate = false →
            after.symbol x = { table.symbol x with origin := (after.symbol x).origin }) ∧
          ((after.symbol x).origin = (table.symbol x).origin ∨
            ∃ use, (after.symbol x).origin = some use ∧ table.Adopts use.template use.args x) := by
  have houtlasts := Table.Traces.outlasts table
  have hkeeps := Analysis.keeps_question houtlasts.instantiationKeeps houtlasts.keeps_intern asks
  obtain ⟨-, htraces⟩ := Action.keeps_after ends hkeeps ⟨idle, .refl table⟩
  refine ⟨htraces.grows.size_le, fun x lt => ?_⟩
  have hgrows := htraces.grows.symbols x lt
  exact ⟨hgrows, hgrows.eq_of_plain, htraces.origins x lt⟩

/-! ## A run -/

open Analysis

/-- A class template `X<T>` with a partial specialization `X<T *>`, and a class that is the explicit specialization
of the latter for `int`. -/
def specializedTwice : List Action :=
  declareTemplate 1 ⟨17⟩ (.createClass ⟨17⟩ .struct) ++
    declareSpecialization 5 ⟨1⟩ ⟨17⟩ (Descriptor.ofSymbol ⟨4⟩).pointer ++
    [.perform (.createClass ⟨17⟩ .struct), .perform (.addExplicitSpecialization ⟨5⟩ [.ofKind .int] ⟨7⟩)]

/-- The table in which `X<int *>` is instantiated. -/
@[irreducible]
def specializedTwiceTable : Table := (Table.new { nestingLimit := 8 }).ran specializedTwice

/-- The table after it was instantiated. -/
@[irreducible]
def adoptedTable : Table :=
  finalTable specializedTwiceTable (instantiate ⟨1⟩ [(Descriptor.ofKind .int).pointer])

/-- `X<int *>` is the class that was there before.  It is adopted by `X`, and all that is new about it is its
origin. -/
theorem specialization_adopted :
    specializedTwiceTable.Idle ∧
      (Action.perform (.instantiate ⟨1⟩ [(Descriptor.ofKind .int).pointer])).after specializedTwiceTable =
        some adoptedTable ∧
      (specializedTwiceTable.symbol ⟨7⟩).GrowsTo (adoptedTable.symbol ⟨7⟩) ∧
      (specializedTwiceTable.symbol ⟨7⟩).origin.map (·.template) = some ⟨5⟩ ∧
      ∃ use, (adoptedTable.symbol ⟨7⟩).origin = some use ∧ use.template = ⟨1⟩ ∧
        specializedTwiceTable.Adopts ⟨1⟩ use.args ⟨7⟩ := by
  have hreached : Reached Action.Joins specializedTwiceTable := by
    rw [specializedTwiceTable]
    exact Reached.ran (.new _) (by decide +kernel)
  have hmade : instantiate ⟨1⟩ [(Descriptor.ofKind .int).pointer] specializedTwiceTable =
      .ok ⟨7⟩ adoptedTable := by
    rw [adoptedTable]
    exact eq_ok_of_ending (by decide +kernel)
  have hends : (Action.perform (.instantiate ⟨1⟩ [(Descriptor.ofKind .int).pointer])).after
      specializedTwiceTable = some adoptedTable := Action.after_discard rfl hmade
  obtain ⟨-, htouched⟩ := question_touches_only_caches specializedTwiceTable hreached.calm.idle
    (.instantiate ⟨1⟩ [(Descriptor.ofKind .int).pointer]) trivial adoptedTable hends
  obtain ⟨hgrows, -, horigin⟩ := htouched ⟨7⟩ (by decide +kernel)
  have hbefore : (specializedTwiceTable.symbol ⟨7⟩).origin.map (·.template) = some ⟨5⟩ := by decide +kernel
  have hafter : (adoptedTable.symbol ⟨7⟩).origin.map (·.template) = some ⟨1⟩ := by decide +kernel
  rcases horigin with same | ⟨use, origin, adopts⟩
  · rw [same, hbefore] at hafter
    exact absurd hafter (by decide)
  · have huse : use.template = ⟨1⟩ := by simpa [origin] using hafter
    exact ⟨hreached.calm.idle, hends, hgrows, hbefore, use, origin, huse, huse ▸ adopts⟩

end NameBinding
