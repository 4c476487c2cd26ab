import Mathlib.Data.Finset.Card
import NameBinding.Table.Transaction
import NameBinding.Proofs.Symbol.Reversal

/-!
# What a rollback puts back

The records taken since a mark are taken back newest first.  `undone` is the effect of that on the
symbols, and it skips the marks in between: what an inner mark would cut off lies behind everything
that the outer mark keeps.  So two states of the symbols only ever have to agree below the size that
a mark remembers (`AgreeBelow`).

* `undone_perform`: taking back the newest edit gives the symbols before it.
* `Unwinds`: all that was done since a table can be taken back from the records of the journal.
* `rollback_innermost` and `commit_innermost`: what releasing the innermost mark does.
-/

namespace NameBinding

/-! ## Symbols that agree below a size -/

/-- The first `size` symbols are the same. -/
def AgreeBelow (size : Nat) (a b : Array Symbol) : Prop := ∀ i, i < size → a[i]? = b[i]?

namespace AgreeBelow

theorem refl (size : Nat) (symbols : Array Symbol) : AgreeBelow size symbols symbols :=
  fun _ _ => rfl

theorem trans {size : Nat} {a b c : Array Symbol} (first : AgreeBelow size a b)
    (second : AgreeBelow size b c) : AgreeBelow size a c :=
  fun i hi => (first i hi).trans (second i hi)

theorem mono {size bound : Nat} {a b : Array Symbol} (agree : AgreeBelow bound a b)
    (hle : size ≤ bound) : AgreeBelow size a b :=
  fun i hi => agree i (Nat.lt_of_lt_of_le hi hle)

/-- A change behind the size is not seen. -/
theorem modify_behind {size i : Nat} (symbols : Array Symbol) (change : Symbol → Symbol)
    (behind : size ≤ i) : AgreeBelow size (symbols.modify i change) symbols := by
  intro j hj
  have hne : i ≠ j := by omega
  simp [Array.getElem?_modify, hne]

/-- A new symbol behind the size is not seen. -/
theorem push_behind {size : Nat} (symbols : Array Symbol) (symbol : Symbol)
    (behind : size ≤ symbols.size) : AgreeBelow size (symbols.push symbol) symbols := by
  intro j hj
  have hne : j ≠ symbols.size := by omega
  simp [Array.getElem?_push, hne]

/-- The same change keeps the agreement. -/
theorem modify {size : Nat} {a b : Array Symbol} (agree : AgreeBelow size a b) (i : Nat)
    (change : Symbol → Symbol) : AgreeBelow size (a.modify i change) (b.modify i change) := by
  intro j hj
  simp only [Array.getElem?_modify, agree j hj]

/-- Cutting off behind the size is not seen. -/
theorem take_behind {size bound : Nat} (symbols : Array Symbol) (behind : size ≤ bound) :
    AgreeBelow size (symbols.take bound) symbols := by
  intro j hj
  simp only [Array.take_eq_extract, Array.getElem?_extract, Nat.zero_add, Nat.sub_zero]
  split
  · rfl
  · rw [Array.getElem?_eq_none (by omega)]

/-- Symbols that agree with `b` below its size are `b` once they are cut to that size. -/
theorem take_eq {a b : Array Symbol} (agree : AgreeBelow b.size a b) : a.take b.size = b := by
  apply Array.ext_getElem?
  intro i
  by_cases hi : i < b.size
  · rw [take_behind a (Nat.le_refl b.size) i hi, agree i hi]
  · simp only [Array.take_eq_extract, Array.getElem?_extract, Nat.zero_add, Nat.sub_zero]
    rw [if_neg (by omega), Array.getElem?_eq_none (by omega)]

end AgreeBelow

/-! ## Taking back records -/

/-- The symbols after the edits among the records are taken back, newest first. -/
def undone : List Record → Array Symbol → Array Symbol
  | [], symbols => symbols
  | .mark _ _ :: rest, symbols => undone rest symbols
  | .edit id reversal :: rest, symbols => undone rest (symbols.modify id.index reversal.apply)

/-- The marks among the records, newest first. -/
def markIds : List Record → List UInt32
  | [] => []
  | .mark id _ :: rest => id :: markIds rest
  | .edit _ _ :: rest => markIds rest

theorem undone_append (newer older : List Record) (symbols : Array Symbol) :
    undone (newer ++ older) symbols = undone older (undone newer symbols) := by
  induction newer generalizing symbols with
  | nil => rfl
  | cons record rest ih =>
      cases record with
      | mark id size => exact ih symbols
      | edit id reversal => exact ih (symbols.modify id.index reversal.apply)

theorem markIds_append (newer older : List Record) :
    markIds (newer ++ older) = markIds newer ++ markIds older := by
  induction newer with
  | nil => rfl
  | cons record rest ih =>
      cases record with
      | mark id size => simp [markIds, ih]
      | edit id reversal => simp [markIds, ih]

theorem mem_markIds {records : List Record} {id : UInt32} {size : Nat}
    (member : .mark id size ∈ records) : id ∈ markIds records := by
  induction records with
  | nil => cases member
  | cons record rest ih =>
      cases record with
      | mark other bound =>
          rcases List.mem_cons.mp member with same | inRest
          · cases same
            exact List.mem_cons_self
          · exact List.mem_cons_of_mem other (ih inRest)
      | edit symbol reversal =>
          rcases List.mem_cons.mp member with same | inRest
          · cases same
          · exact ih inRest

@[simp]
theorem size_undone (records : List Record) (symbols : Array Symbol) :
    (undone records symbols).size = symbols.size := by
  induction records generalizing symbols with
  | nil => rfl
  | cons record rest ih =>
      cases record with
      | mark id size => exact ih symbols
      | edit id reversal => simp [undone, ih]

/-- Taking back the same records keeps the agreement. -/
theorem AgreeBelow.undone {size : Nat} {a b : Array Symbol} (agree : AgreeBelow size a b)
    (records : List Record) :
    AgreeBelow size (NameBinding.undone records a) (NameBinding.undone records b) := by
  induction records generalizing a b with
  | nil => exact agree
  | cons record rest ih =>
      cases record with
      | mark id bound => exact ih agree
      | edit id reversal => exact ih (agree.modify id.index reversal.apply)

/-! ## Tidy tables -/

namespace Table

/-- In no scope is a name listed without members. -/
def Tidy (table : Table) : Prop := ∀ symbol ∈ table.symbols, symbol.Tidy

theorem Tidy.of_modify {symbols : Array Symbol} (tidy : ∀ symbol ∈ symbols, symbol.Tidy)
    (i : Nat) {change : Symbol → Symbol} (keeps : ∀ symbol, symbol.Tidy → (change symbol).Tidy) :
    ∀ symbol ∈ symbols.modify i change, symbol.Tidy := by
  intro symbol member
  obtain ⟨j, hj⟩ := Array.mem_iff_getElem?.mp member
  rw [Array.getElem?_modify] at hj
  split at hj
  · obtain ⟨before, hbefore, rfl⟩ := Option.map_eq_some_iff.mp hj
    exact keeps before (tidy before (Array.mem_of_getElem? hbefore))
  · exact tidy symbol (Array.mem_of_getElem? hj)

/-- A declaration that the table has is read from its place. -/
theorem symbol_of_getElem? {table : Table} {id : SymbolId} {symbol : Symbol}
    (found : table.symbols[id.index]? = some symbol) : table.symbol id = symbol := by
  rw [Table.symbol, Array.getD_eq_getD_getElem?, found]
  rfl

/-- The default symbol stands for what the table does not have. -/
theorem symbol_of_getElem?_none {table : Table} {id : SymbolId}
    (missing : table.symbols[id.index]? = none) : table.symbol id = default := by
  rw [Table.symbol, Array.getD_eq_getD_getElem?, missing]
  rfl

theorem getElem?_symbol {table : Table} {id : SymbolId} (lt : id.index < table.size) :
    table.symbols[id.index]? = some (table.symbol id) := by
  have hfound := Array.getElem?_eq_getElem lt
  rw [symbol_of_getElem? hfound, hfound]

/-- A symbol with a property that the default symbol lacks is one of the table. -/
theorem lt_size_of_symbol {table : Table} {id : SymbolId} (property : Symbol → Bool)
    (lacks : property default = false) (holds : property (table.symbol id) = true) :
    id.index < table.size := by
  apply Decidable.byContradiction
  intro behind
  have hmissing := Array.getElem?_eq_none (Nat.le_of_not_lt behind)
  rw [symbol_of_getElem?_none hmissing, lacks] at holds
  cases holds

/-- No list of different symbols of the table is longer than the table. -/
theorem length_le_size {table : Table} {ids : List SymbolId} (nodup : ids.Nodup)
    (within : ∀ id ∈ ids, id.index < table.size) : ids.length ≤ table.size := by
  have hindices : (ids.map SymbolId.index).Nodup :=
    nodup.map fun a b same => by cases a; cases b; simpa using same
  have hbelow : (ids.map SymbolId.index).toFinset ⊆ Finset.range table.size := by
    intro index member
    obtain ⟨id, hid, rfl⟩ := List.mem_map.mp (List.mem_toFinset.mp member)
    exact Finset.mem_range.mpr (within id hid)
  have hcard := Finset.card_le_card hbelow
  rw [List.toFinset_card_of_nodup hindices] at hcard
  simpa using hcard

/-- A property of all symbols of the table and of the default symbol holds of whatever is read. -/
theorem forall_symbol (table : Table) (property : Symbol → Bool)
    (absent : property default = true)
    (all : table.symbols.toList.all property = true) (id : SymbolId) :
    property (table.symbol id) = true := by
  cases hsymbol : table.symbols[id.index]? with
  | none => rw [symbol_of_getElem?_none hsymbol, absent]
  | some symbol =>
      rw [symbol_of_getElem? hsymbol]
      have hmember : symbol ∈ table.symbols.toList := (Array.mem_of_getElem? hsymbol).val
      exact List.all_eq_true.mp all symbol hmember

/-! ### Reading a changed table -/

section

variable {table after : Table}

theorem symbol_of_symbols_eq (symbols : after.symbols = table.symbols) (x : SymbolId) :
    after.symbol x = table.symbol x := by
  rw [symbol, symbol, symbols]

theorem size_of_symbols_eq (symbols : after.symbols = table.symbols) : after.size = table.size := by
  rw [size, size, symbols]

theorem size_of_push {symbol : Symbol} (symbols : after.symbols = table.symbols.push symbol) :
    after.size = table.size + 1 := by
  simp [size, symbols]

theorem symbol_of_push {symbol : Symbol} (symbols : after.symbols = table.symbols.push symbol)
    (x : SymbolId) :
    after.symbol x = if x.index = table.size then symbol else table.symbol x := by
  rw [Table.symbol, Table.symbol, symbols, Array.getD_eq_getD_getElem?,
    Array.getD_eq_getD_getElem?, Array.getElem?_push, size]
  split <;> rfl

theorem size_of_modify {index : Nat} {change : Symbol → Symbol}
    (symbols : after.symbols = table.symbols.modify index change) : after.size = table.size := by
  simp [size, symbols]

theorem symbol_of_modify {id : SymbolId} {change : Symbol → Symbol}
    (symbols : after.symbols = table.symbols.modify id.index change) (x : SymbolId) :
    after.symbol x =
      if id = x ∧ x.index < table.size then change (table.symbol x) else table.symbol x := by
  obtain ⟨i⟩ := id
  obtain ⟨j⟩ := x
  simp only [symbol, size, symbols, Array.getD_eq_getD_getElem?, Array.getElem?_modify,
    SymbolId.mk.injEq]
  by_cases hsame : i = j
  · by_cases hlt : j < table.symbols.size
    · simp [hsame, hlt]
    · simp [hsame, hlt]
  · simp [hsame]

end

/-- Taking back the newest edit gives the symbols before it, if its reversal gives the symbol that
was edited back. -/
theorem undone_perform {table : Table} (id : SymbolId) {edit : Edit}
    (restores : ∀ symbol ∈ table.symbols,
      (edit.reversal symbol).apply (edit.apply symbol) = symbol) :
    (table.perform id edit).symbols.modify id.index (edit.reversal (table.symbol id)).apply =
      table.symbols := by
  apply Array.ext_getElem?
  intro i
  by_cases hi : id.index = i
  · subst hi
    -- For a symbol that the table does not have, neither the edit nor its reversal does anything.
    cases hsymbol : table.symbols[id.index]? with
    | none => simp [perform, Array.getElem?_modify, hsymbol]
    | some symbol =>
        have hread : table.symbol id = symbol := symbol_of_getElem? hsymbol
        have hback := restores symbol (Array.mem_of_getElem? hsymbol)
        simp [perform, Array.getElem?_modify, hsymbol, hread, hback]
  · simp [perform, Array.getElem?_modify, hi]

end Table

/-! ## Changes below a live mark -/

namespace Table

@[simp]
theorem size_allocate (table : Table) (symbol : Symbol) :
    (table.allocate symbol).2.size = table.size + 1 := by
  simp [allocate, size]

@[simp]
theorem size_perform (table : Table) (id : SymbolId) (edit : Edit) :
    (table.perform id edit).size = table.size := by
  simp [perform, size]

@[simp]
theorem size_write (table : Table) (id : SymbolId) (edit : Edit) :
    (table.write id edit).size = table.size := by
  simp [write, size]

/-- An edit changes one declaration, if the table has it. -/
theorem symbol_perform (table : Table) (id : SymbolId) (edit : Edit) (x : SymbolId) :
    (table.perform id edit).symbol x =
      if id = x ∧ x.index < table.size then edit.apply (table.symbol x) else table.symbol x :=
  symbol_of_modify rfl x

theorem symbol_write (table : Table) (id : SymbolId) (edit : Edit) (x : SymbolId) :
    (table.write id edit).symbol x =
      if id = x ∧ x.index < table.size then edit.apply (table.symbol x) else table.symbol x :=
  symbol_of_modify rfl x

theorem symbol_perform_of_ne (table : Table) {id x : SymbolId} (edit : Edit) (differs : id ≠ x) :
    (table.perform id edit).symbol x = table.symbol x := by
  rw [symbol_perform, if_neg fun same => differs same.1]

theorem nextId_perform (table : Table) (id : SymbolId) (edit : Edit) :
    (table.perform id edit).journal.nextId = table.journal.nextId := by
  simp only [perform, Journal.push]
  split <;> rfl

/-- While a mark is live, an edit leaves its record. -/
theorem journal_perform {table : Table} (recording : table.journal.live ≠ []) (id : SymbolId)
    (edit : Edit) :
    (table.perform id edit).journal =
      { table.journal with
        records := .edit id (edit.reversal (table.symbol id)) :: table.journal.records } := by
  have hrecording : table.journal.isRecording = true := by
    simpa [Journal.isRecording] using recording
  simp [perform, Journal.push, hrecording]

end Table

/-- Since `before`, the journal has gained records of edits and nothing else, and taking them back
gives the first `size` symbols of `before` back. -/
structure Unwinds (size : Nat) (before after : Table) (taken : List Record) : Prop where
  edits : markIds taken = []
  records : after.journal.records = taken ++ before.journal.records
  live : after.journal.live = before.journal.live
  symbols : AgreeBelow size (undone taken after.symbols) before.symbols

namespace Unwinds

variable {size : Nat} {before after : Table} {taken : List Record}

theorem refl (size : Nat) (table : Table) : Unwinds size table table [] :=
  ⟨rfl, rfl, rfl, AgreeBelow.refl size table.symbols⟩

theorem trans {bound : Nat} {last : Table} {later : List Record}
    (first : Unwinds size before after taken) (second : Unwinds bound after last later)
    (hle : size ≤ bound) : Unwinds size before last (later ++ taken) where
  edits := by rw [markIds_append, second.edits, first.edits, List.append_nil]
  records := by rw [second.records, first.records, List.append_assoc]
  live := second.live.trans first.live
  symbols := by
    -- The newer records go first, and what they put back agrees below `size` with `after`.
    rw [undone_append]
    exact ((second.symbols.mono hle).undone taken).trans first.symbols

/-- A new symbol needs no record. -/
theorem allocate (unwinds : Unwinds size before after taken) (bound : size ≤ after.size)
    (symbol : Symbol) : Unwinds size before (after.allocate symbol).2 taken where
  edits := unwinds.edits
  records := unwinds.records
  live := unwinds.live
  symbols :=
    ((AgreeBelow.push_behind after.symbols symbol bound).undone taken).trans unwinds.symbols

/-- An edit leaves its record, which must give the symbols back. -/
theorem perform (unwinds : Unwinds size before after taken)
    (recording : before.journal.live ≠ []) {id : SymbolId} {edit : Edit}
    (back : AgreeBelow size
      ((after.perform id edit).symbols.modify id.index (edit.reversal (after.symbol id)).apply)
      after.symbols) :
    Unwinds size before (after.perform id edit)
      (.edit id (edit.reversal (after.symbol id)) :: taken) := by
  have hjournal := Table.journal_perform (unwinds.live ▸ recording) id edit
  refine ⟨unwinds.edits, ?_, ?_, (back.undone taken).trans unwinds.symbols⟩
  · rw [hjournal, unwinds.records, List.cons_append]
  · rw [hjournal, unwinds.live]

end Unwinds

/-! ## Releasing the innermost mark -/

namespace Journal

/-- The records since a mark, if no other mark was taken since. -/
theorem splitAt_mark {taken : List Record} (edits : markIds taken = []) (id : UInt32) (size : Nat)
    (kept : List Record) :
    splitAt id (taken ++ .mark id size :: kept) = some (taken, size, kept) := by
  induction taken with
  | nil => simp [splitAt]
  | cons record rest ih =>
      cases record with
      | mark other bound => simp [markIds] at edits
      | edit symbol reversal => simp [splitAt, ih edits]

/-- Dropping the record of a mark, if no other mark was taken since. -/
theorem dropMark_mark {taken : List Record} (edits : markIds taken = []) (id : UInt32) (size : Nat)
    (kept : List Record) : dropMark id (taken ++ .mark id size :: kept) = taken ++ kept := by
  induction taken with
  | nil => simp [dropMark, Record.isMark]
  | cons record rest ih =>
      cases record with
      | mark other bound => simp [markIds] at edits
      | edit symbol reversal => simp [dropMark, Record.isMark, ih edits]

theorem checkInnermost_innermost {journal : Journal} {id : UInt32} {outer : List UInt32}
    (live : journal.live = id :: outer) : journal.checkInnermost ⟨id⟩ = .ok () := by
  simp [checkInnermost, live]

end Journal

namespace Analysis

/-- Only the innermost mark is released. -/
theorem checkInnermost_cases (journal : Journal) (mark : Mark) :
    (∃ error, journal.checkInnermost mark = .error error) ∨
      ∃ outer, journal.live = mark.id :: outer := by
  cases hlive : journal.live with
  | nil => exact .inl ⟨.stale mark.id, by simp [Journal.checkInnermost, hlive]⟩
  | cons innermost outer =>
      by_cases hsame : innermost = mark.id
      · exact .inr ⟨outer, by rw [hsame]⟩
      · refine .inl ?_
        simp only [Journal.checkInnermost, hlive, if_neg hsame]
        split
        · exact ⟨_, rfl⟩
        · exact ⟨_, rfl⟩

/-- A mark that is not the innermost one is refused, and nothing changes. -/
theorem commit_refused {table : Table} {mark : Mark} {error : TransactionError}
    (refused : table.journal.checkInnermost mark = .error error) :
    commit mark table = .ok (.error error) table := by
  simp only [commit, bind, EStateM.bind, get, getThe, MonadStateOf.get, EStateM.get, refused]
  rfl

theorem rollback_refused {table : Table} {mark : Mark} {error : TransactionError}
    (refused : table.journal.checkInnermost mark = .error error) :
    rollback mark table = .ok (.error error) table := by
  simp only [rollback, bind, EStateM.bind, get, getThe, MonadStateOf.get, EStateM.get, refused]
  rfl

/-- Records without a mark are taken back one by one. -/
theorem undoAll_edits {taken : List Record} (edits : markIds taken = []) (table : Table) :
    undoAll taken table = .ok () { table with symbols := undone taken table.symbols } := by
  induction taken generalizing table with
  | nil => rfl
  | cons record rest ih =>
      cases record with
      | mark id size => simp [markIds] at edits
      | edit id reversal => exact ih edits (table.undo id reversal)

/-- Rolling back the innermost mark takes back the edits since it and cuts the symbols to the size
that it remembers. -/
theorem rollback_innermost {table : Table} {id : UInt32} {outer : List UInt32}
    {taken kept : List Record} {size : Nat} (live : table.journal.live = id :: outer)
    (records : table.journal.records = taken ++ .mark id size :: kept)
    (edits : markIds taken = []) :
    rollback ⟨id⟩ table =
      .ok (.ok ())
        { table with
          symbols := (undone taken table.symbols).take size
          journal := { table.journal with records := kept, live := outer } } := by
  have hcheck := Journal.checkInnermost_innermost live
  have hsplit := Journal.splitAt_mark edits id size kept
  simp only [rollback, bind, EStateM.bind, get, getThe, MonadStateOf.get, EStateM.get, hcheck,
    records, hsplit, set, MonadStateOf.set, EStateM.set, undoAll_edits edits, live]
  rfl

/-- Committing the innermost mark keeps the symbols.  The last mark forgets all records, and an inner
one hands the records since it to the mark around it. -/
theorem commit_innermost {table : Table} {id : UInt32} {outer : List UInt32}
    {taken kept : List Record} {size : Nat} (live : table.journal.live = id :: outer)
    (records : table.journal.records = taken ++ .mark id size :: kept)
    (edits : markIds taken = []) :
    commit ⟨id⟩ table =
      .ok (.ok ())
        { table with
          journal :=
            { table.journal with
              records := if outer = [] then [] else taken ++ kept
              live := outer } } := by
  have hcheck := Journal.checkInnermost_innermost live
  have hdrop := Journal.dropMark_mark edits id size kept
  have hcommit : table.journal.commit ⟨id⟩ =
      { table.journal with
        records := if outer = [] then [] else taken ++ kept
        live := outer } := by
    cases outer with
    | nil => simp [Journal.commit, live]
    | cons next rest => simp [Journal.commit, live, records, hdrop]
  simp only [commit, bind, EStateM.bind, get, getThe, MonadStateOf.get, EStateM.get, hcheck, set,
    MonadStateOf.set, EStateM.set, hcommit]
  rfl

end Analysis

end NameBinding
