import NameBinding.Proofs.Operation.Reachable

/-!
# Invariants that survive a rollback

A rollback may lead back to any table in which a mark was taken, and from there further back.  So an
invariant of the symbols survives transactions if it also holds of everything that the live marks would
restore.  `Restorable` says so, following the records of the journal, and `Sheltered` puts it together
with the invariant itself.

The two edits that leave no record change the syntax node and the flags of a symbol.  A rollback does not
take them back, so the invariant must not depend on them: `Symbol.plain` forgets both.

The main statement is `Sheltered.act`: an action keeps the invariant sheltered if it keeps the invariant.
-/

namespace NameBinding

/-! ## What leaves no record -/

/-- The symbol without its syntax node and the flags of its type. -/
def Symbol.plain (symbol : Symbol) : Symbol :=
  { symbol with astLink := none, type := { symbol.type with flags := {} } }

/-- Taking an edit back does not look at the flags or the syntax node. -/
theorem Reversal.plain_apply (reversal : Reversal) (symbol : Symbol) :
    (reversal.apply symbol).plain = (reversal.apply symbol.plain).plain := by
  obtain ⟨name, scope, type, inTemplate, access, target, named, origin, link, payload⟩ := symbol
  rcases reversal with assignment | entry | ⟨name, member⟩
  · cases assignment <;> first | rfl | (cases payload <;> rfl)
  · cases entry <;> cases payload <;> rfl
  · cases payload <;> rfl

/-- The symbols are the same but for syntax nodes and flags. -/
def SamePlain (a b : Array Symbol) : Prop := a.map Symbol.plain = b.map Symbol.plain

namespace SamePlain

variable {a b : Array Symbol}

theorem size_eq (same : SamePlain a b) : a.size = b.size := by
  have hsize := congrArg Array.size same
  simpa using hsize

theorem getElem?_eq (same : SamePlain a b) (i : Nat) :
    a[i]?.map Symbol.plain = b[i]?.map Symbol.plain := by
  have hmapped : (a.map Symbol.plain)[i]? = (b.map Symbol.plain)[i]? := by rw [same]
  simpa using hmapped

theorem of_getElem? (same : ∀ i : Nat, a[i]?.map Symbol.plain = b[i]?.map Symbol.plain) :
    SamePlain a b := by
  apply Array.ext_getElem?
  intro i
  simpa using same i

/-- A change that does not look at flags and syntax nodes can as well be made without them. -/
theorem map_modify (symbols : Array Symbol) (i : Nat) {change : Symbol → Symbol}
    (respects : ∀ symbol, (change symbol).plain = (change symbol.plain).plain) :
    (symbols.modify i change).map Symbol.plain =
      (symbols.map Symbol.plain).modify i fun symbol => (change symbol).plain := by
  apply Array.ext_getElem?
  intro j
  by_cases hj : i = j
  · cases hsymbol : symbols[j]? with
    | none => simp [Array.getElem?_modify, hj, hsymbol]
    | some symbol => simp [Array.getElem?_modify, hj, hsymbol, ← respects]
  · simp [Array.getElem?_modify, hj]

theorem modify (same : SamePlain a b) (i : Nat) {change : Symbol → Symbol}
    (respects : ∀ symbol, (change symbol).plain = (change symbol.plain).plain) :
    SamePlain (a.modify i change) (b.modify i change) := by
  rw [SamePlain, map_modify a i respects, map_modify b i respects, same]

theorem take (same : SamePlain a b) (size : Nat) : SamePlain (a.take size) (b.take size) := by
  apply of_getElem?
  intro i
  have hsize := same.size_eq
  simp only [Array.take_eq_extract, Array.getElem?_extract, Nat.zero_add, Nat.sub_zero, hsize]
  split
  · exact same.getElem?_eq i
  · rfl

/-- A change of one symbol that only concerns its syntax node or its flags. -/
theorem of_modify (symbols : Array Symbol) (i : Nat) {change : Symbol → Symbol}
    (cosmetic : ∀ symbol, (change symbol).plain = symbol.plain) :
    SamePlain (symbols.modify i change) symbols := by
  apply of_getElem?
  intro j
  rw [Array.getElem?_modify]
  split
  · cases symbols[j]? with
    | none => rfl
    | some symbol => simp [cosmetic]
  · rfl

theorem symbol_eq {table after : Table} (same : SamePlain after.symbols table.symbols)
    (x : SymbolId) : (after.symbol x).plain = (table.symbol x).plain := by
  have hx := same.getElem?_eq x.index
  simp only [Table.symbol, Array.getD_eq_getD_getElem?]
  cases ha : after.symbols[x.index]? with
  | none =>
      cases hb : table.symbols[x.index]? with
      | none => rfl
      | some other => simp [ha, hb] at hx
  | some symbol =>
      cases hb : table.symbols[x.index]? with
      | none => simp [ha, hb] at hx
      | some other => simpa [ha, hb] using hx

end SamePlain

/-- The invariant is one of symbols, and not of their syntax nodes and flags. -/
def IgnoresFlags (inv : Table → Prop) : Prop :=
  ∀ table after : Table, SamePlain after.symbols table.symbols → inv table → inv after

/-! ## What the live marks would restore -/

/-- Releasing the live marks one after another by rollbacks, the invariant holds each time. -/
def Restorable (inv : Table → Prop) : List UInt32 → List Record → Array Symbol → Prop
  | [], _, _ => True
  | _ :: _, [], _ => False
  | live, .edit id reversal :: rest, symbols =>
      Restorable inv live rest (symbols.modify id.index reversal.apply)
  | innermost :: outer, .mark id size :: rest, symbols =>
      id = innermost ∧ size ≤ symbols.size ∧
        (∀ table : Table, table.symbols = symbols.take size → inv table) ∧
        Restorable inv outer rest (symbols.take size)

namespace Restorable

variable {inv : Table → Prop} {live : List UInt32} {records : List Record} {a b : Array Symbol}

theorem of_no_marks (records : List Record) (symbols : Array Symbol) :
    Restorable inv [] records symbols := by
  simp [Restorable]

/-- Symbols behind those that there were are never restored. -/
theorem of_agree (restorable : Restorable inv live records a) (agree : AgreeBelow a.size b a)
    (le : a.size ≤ b.size) : Restorable inv live records b := by
  induction records generalizing live a b with
  | nil =>
      cases live with
      | nil => exact of_no_marks _ _
      | cons innermost outer => exact restorable
  | cons record rest ih =>
      cases live with
      | nil => exact of_no_marks _ _
      | cons innermost outer =>
          cases record with
          | edit id reversal =>
              refine ih restorable ?_ ?_
              · simpa using agree.modify id.index reversal.apply
              · simpa using le
          | mark id size =>
              obtain ⟨hid, hsize, hinv, hrest⟩ := restorable
              have hsame : b.take size = a.take size := by
                have hbelow : AgreeBelow (a.take size).size b (a.take size) := by
                  have hle : (a.take size).size ≤ size := by
                    simp only [Array.take_eq_extract, Array.size_extract]
                    omega
                  refine (agree.mono ?_).trans fun i hi => ?_
                  · simp only [Array.take_eq_extract, Array.size_extract]
                    omega
                  · exact (AgreeBelow.take_behind a hle i hi).symm
                have htake := hbelow.take_eq
                have hsizes : (a.take size).size = size := by
                  simp only [Array.take_eq_extract, Array.size_extract]
                  omega
                rwa [hsizes] at htake
              refine ⟨hid, Nat.le_trans hsize le, ?_, ?_⟩
              · rw [hsame]
                exact hinv
              · rw [hsame]
                exact hrest

/-- What leaves no record is not restored either. -/
theorem of_samePlain (ignores : IgnoresFlags inv) (restorable : Restorable inv live records a)
    (same : SamePlain b a) : Restorable inv live records b := by
  induction records generalizing live a b with
  | nil =>
      cases live with
      | nil => exact of_no_marks _ _
      | cons innermost outer => exact restorable
  | cons record rest ih =>
      cases live with
      | nil => exact of_no_marks _ _
      | cons innermost outer =>
          cases record with
          | edit id reversal => exact ih restorable (same.modify id.index reversal.plain_apply)
          | mark id size =>
              obtain ⟨hid, hsize, hinv, hrest⟩ := restorable
              have htake := same.take size
              refine ⟨hid, same.size_eq ▸ hsize, ?_, ih hrest htake⟩
              intro table hsymbols
              have hbefore : inv { table with symbols := a.take size } := hinv _ rfl
              exact ignores _ table (hsymbols ▸ htake) hbefore

/-- Newer edits are taken back first. -/
theorem append_edits {taken : List Record} (edits : markIds taken = []) {innermost : UInt32}
    {outer : List UInt32} {symbols : Array Symbol} :
    Restorable inv (innermost :: outer) (taken ++ records) symbols ↔
      Restorable inv (innermost :: outer) records (undone taken symbols) := by
  induction taken generalizing symbols with
  | nil => rfl
  | cons record rest ih =>
      cases record with
      | mark id size => simp [markIds] at edits
      | edit id reversal => exact ih edits

/-- What rolling back the innermost mark restores. -/
theorem innermost {id : UInt32} {outer : List UInt32} {symbols : Array Symbol}
    (restorable : Restorable inv (id :: outer) records symbols) :
    ∃ taken size kept, records = taken ++ .mark id size :: kept ∧ markIds taken = [] ∧
      size ≤ symbols.size ∧
      (∀ table : Table, table.symbols = (undone taken symbols).take size → inv table) ∧
      Restorable inv outer kept ((undone taken symbols).take size) := by
  induction records generalizing symbols with
  | nil => exact restorable.elim
  | cons record rest ih =>
      cases record with
      | edit edited reversal =>
          obtain ⟨taken, size, kept, rfl, hedits, hsize, hinv, hrest⟩ := ih restorable
          refine ⟨.edit edited reversal :: taken, size, kept, rfl, hedits, ?_, hinv, hrest⟩
          simpa using hsize
      | mark other size =>
          obtain ⟨rfl, hsize, hinv, hrest⟩ := restorable
          exact ⟨[], size, rest, rfl, rfl, hsize, hinv, hrest⟩

end Restorable

/-! ## Sheltered invariants -/

/-- The invariant holds, and whatever the live marks would restore satisfies it as well. -/
structure Sheltered (inv : Table → Prop) (table : Table) : Prop where
  settled : table.Settled
  holds : inv table
  restorable : Restorable inv table.journal.live table.journal.records table.symbols

namespace Sheltered

open Analysis

variable {inv : Table → Prop} {table next : Table}

theorem new (config : Config) (holds : inv (Table.new config)) : Sheltered inv (Table.new config) :=
  ⟨Table.Settled.new config, holds, Restorable.of_no_marks _ _⟩

/-- What the engine does between transactions only adds symbols and records of edits. -/
theorem evolve (sheltered : Sheltered inv table) (evolution : Evolution table next)
    (holds : inv next) : Sheltered inv next := by
  refine ⟨⟨evolution.idle, evolution.tidy⟩, holds, ?_⟩
  have hrestorable := sheltered.restorable
  rw [evolution.live]
  cases hlive : table.journal.live with
  | nil => exact Restorable.of_no_marks _ _
  | cons innermost outer =>
      obtain ⟨taken, unwinds⟩ := evolution.unwinds (by simp [hlive])
      rw [hlive] at hrestorable
      rw [unwinds.records, Restorable.append_edits unwinds.edits]
      refine hrestorable.of_agree unwinds.symbols ?_
      rw [size_undone]
      exact evolution.size_le

theorem mark (sheltered : Sheltered inv table) (ignores : IgnoresFlags inv)
    (ends : Action.mark.after table = some next) : Sheltered inv next := by
  have hsettled := sheltered.settled.act ends
  rw [Action.after_mark] at ends
  cases ends
  have hall : table.symbols.take table.size = table.symbols :=
    AgreeBelow.take_eq (AgreeBelow.refl _ _)
  have hsame : ∀ other : Table, other.symbols = table.symbols → inv other :=
    fun other same => ignores table other (same ▸ rfl) sheltered.holds
  refine ⟨hsettled, hsame _ rfl, ?_⟩
  refine ⟨rfl, Nat.le_refl _, fun other same => hsame other (same.trans hall), ?_⟩
  rw [hall]
  exact sheltered.restorable

/-- Committing hands the records of the innermost mark on to the mark around it. -/
theorem commit (sheltered : Sheltered inv table) (ignores : IgnoresFlags inv) {released : Mark}
    (ends : (Action.commit released).after table = some next) : Sheltered inv next := by
  have hsettled := sheltered.settled.act ends
  rcases checkInnermost_cases table.journal released with ⟨error, hcheck⟩ | ⟨outer, hlive⟩
  · rw [Action.after_discard rfl (commit_refused hcheck)] at ends
    cases ends
    exact sheltered
  · have hrestorable := sheltered.restorable
    rw [hlive] at hrestorable
    obtain ⟨taken, size, kept, hrecords, hedits, hsize, -, hkept⟩ := hrestorable.innermost
    rw [Action.after_discard rfl (commit_innermost hlive hrecords hedits)] at ends
    cases ends
    refine ⟨hsettled, ignores table _ rfl sheltered.holds, ?_⟩
    cases outer with
    | nil => exact Restorable.of_no_marks _ _
    | cons around others =>
        show Restorable inv (around :: others) (taken ++ kept) table.symbols
        rw [Restorable.append_edits hedits]
        -- The mark around it remembers fewer symbols than the one that is released.
        have htaken : ((undone taken table.symbols).take size).size = size := by
          simp only [Array.take_eq_extract, Array.size_extract, size_undone]
          omega
        refine hkept.of_agree (fun i hi => ?_) ?_
        · rw [htaken] at hi
          exact (AgreeBelow.take_behind _ (Nat.le_refl size) i hi).symm
        · rw [htaken, size_undone]
          exact hsize

/-- A rollback restores what satisfies the invariant. -/
theorem rollback (sheltered : Sheltered inv table) {released : Mark}
    (ends : (Action.rollback released).after table = some next) : Sheltered inv next := by
  have hsettled := sheltered.settled.act ends
  rcases checkInnermost_cases table.journal released with ⟨error, hcheck⟩ | ⟨outer, hlive⟩
  · rw [Action.after_discard rfl (rollback_refused hcheck)] at ends
    cases ends
    exact sheltered
  · have hrestorable := sheltered.restorable
    rw [hlive] at hrestorable
    obtain ⟨taken, size, kept, hrecords, hedits, -, hinv, hkept⟩ := hrestorable.innermost
    rw [Action.after_discard rfl (rollback_innermost hlive hrecords hedits)] at ends
    cases ends
    exact ⟨hsettled, hinv _ rfl, hkept⟩

/-- An edit that leaves no record. -/
theorem annotate (sheltered : Sheltered inv table) (ignores : IgnoresFlags inv)
    (settled : next.Settled) (same : SamePlain next.symbols table.symbols)
    (journal : next.journal = table.journal) : Sheltered inv next := by
  refine ⟨settled, ignores table next same sheltered.holds, ?_⟩
  rw [journal]
  exact sheltered.restorable.of_samePlain ignores same

/-- Every action keeps an invariant sheltered, if the operations keep it. -/
theorem act (sheltered : Sheltered inv table) (ignores : IgnoresFlags inv) {action : Action}
    (ends : action.after table = some next)
    (performs : ∀ operation, action = .perform operation → inv next) : Sheltered inv next := by
  have hsettled := sheltered.settled.act ends
  cases action with
  | perform operation =>
      have hbefore := sheltered.settled
      exact sheltered.evolve (Action.keeps_after ends (keeps_carryOut operation)
        (Evolution.refl hbefore.idle hbefore.tidy)) (performs operation rfl)
  | mark => exact sheltered.mark ignores ends
  | commit released => exact sheltered.commit ignores ends
  | rollback released => exact sheltered.rollback ends
  | setAstLink id link =>
      cases ends
      have hsame : ∀ symbol : Symbol, ({ symbol with astLink := some link } : Symbol).plain =
          symbol.plain := fun _ => rfl
      exact sheltered.annotate ignores hsettled (.of_modify _ _ hsame) rfl
  | addFlags id flags =>
      cases ends
      have hsame : ∀ symbol : Symbol,
          ({ symbol with type := symbol.type.withFlags flags } : Symbol).plain = symbol.plain :=
        fun _ => rfl
      exact sheltered.annotate ignores hsettled (.of_modify _ _ hsame) rfl

end Sheltered

end NameBinding
