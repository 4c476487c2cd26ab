import NameBinding.Proofs.Template.Reading

/-!
# Copying a template moves the table

A copy that began with `start` symbols and has its context at `position` is `Filling`: what is copied is
older than `start`, each copy is younger and stands for nothing yet, old symbols lead only to old ones,
and every type of a copy waits or was read.  Whatever is done in between, making further instances
included, leaves the copies made so far and everything older alone, so that in the end the copies can be
linked among each other.

* `moves_copyContents`: copying the parts of a declaration keeps this up.
* `moves_linkCopies`: then the copies get the links of what they were copied from.
-/

namespace NameBinding

/-- The context of a copy that went on: more may have been copied. -/
structure CopyContext.Grown (before after : CopyContext) : Prop where
  bindings : after.bindings = before.bindings
  copies : ∀ pair ∈ before.copies, pair ∈ after.copies

namespace CopyContext.Grown

variable {before after : CopyContext}

theorem refl (context : CopyContext) : context.Grown context := ⟨rfl, fun _ member => member⟩

theorem trans {last : CopyContext} (first : before.Grown after) (second : after.Grown last) :
    before.Grown last :=
  ⟨second.bindings.trans first.bindings, fun pair member => second.copies pair (first.copies pair member)⟩

end CopyContext.Grown

namespace Table

/-- The table is in the middle of a copy whose context was `origin`.  The types in `busy` are being read. -/
structure Filling (reading : Reading) (start position : Nat) (origin : CopyContext)
    (busy : List DeferredWork) (table : Table) : Prop where
  running : table.templates.depth ≠ 0
  copies : table.Copies start (table.copyContext position)
  grown : origin.Grown (table.copyContext position)
  reads : table.Reads reading position busy

variable {start position : Nat} {table after : Table}

/-- Copies stay what they are if old symbols keep their links and parts. -/
theorem Copies.of_same {context : CopyContext} (copies : table.Copies start context)
    (le : start ≤ table.size) (size_le : table.size ≤ after.size)
    (links : ∀ x : SymbolId, x.index < table.size → after.nextLink x = table.nextLink x)
    (parts : ∀ x : SymbolId, x.index < start → (after.symbol x).parts = (table.symbol x).parts) :
    after.Copies start context where
  sources := copies.sources
  fresh := fun pair member =>
    ⟨(copies.fresh pair member).1, Nat.lt_of_lt_of_le (copies.fresh pair member).2 size_le⟩
  unlinked := by
    intro pair member
    rw [links pair.2 (copies.fresh pair member).2]
    exact copies.unlinked pair member
  lookup := copies.lookup
  unique := copies.unique
  closed := by
    intro id target old linked
    rw [links id (Nat.lt_of_lt_of_le old le)] at linked
    exact copies.closed id target old linked
  parts := by
    intro id old
    rw [parts id old]
    exact copies.parts id old

/-- An edit of a new symbol that is not about its links. -/
theorem Copies.of_edit {context : CopyContext} (copies : table.Copies start context)
    (le : start ≤ table.size) {id : SymbolId} {edit : Edit} (linkless : edit.IsLinkless)
    (fresh : start ≤ id.index) (symbols : after.symbols = table.symbols.modify id.index edit.apply) :
    after.Copies start context := by
  refine copies.of_same le (Nat.le_of_eq (size_of_modify symbols).symm)
    (fun x _ => nextLink_of_edit linkless symbols x) fun x old => ?_
  have hdiffers : id ≠ x := by
    rintro rfl
    omega
  rw [symbol_of_modify symbols, if_neg fun both => hdiffers both.1]

namespace Filling

variable {reading : Reading} {origin : CopyContext} {busy : List DeferredWork} {work : DeferredWork}

/-- A copy is younger than what is copied. -/
theorem fresh (filling : table.Filling reading start position origin busy) {id : SymbolId}
    (isCopy : table.IsCopy position id) : start ≤ id.index ∧ id.index < table.size := by
  obtain ⟨source, member⟩ := isCopy
  exact filling.copies.fresh _ member

/-- The same copy, as it went on from here. -/
theorem rebase (filling : table.Filling reading start position origin busy) :
    table.Filling reading start position (table.copyContext position) busy :=
  ⟨filling.running, filling.copies, .refl _, filling.reads⟩

/-- The same copy, as it went on from an earlier context. -/
theorem since {earlier : CopyContext} (filling : table.Filling reading start position origin busy)
    (grown : earlier.Grown origin) : table.Filling reading start position earlier busy :=
  ⟨filling.running, filling.copies, grown.trans filling.grown, filling.reads⟩

/-- Reading a type is work of this copy. -/
theorem carry (filling : table.Filling reading start position origin busy)
    (place : work.context = position) : table.Filling reading start position origin (work :: busy) :=
  ⟨filling.running, filling.copies, filling.grown, filling.reads.carry place⟩

/-- What leaves everything older alone keeps the copies. -/
theorem guards (filling : table.Filling reading start position origin busy) (le : start ≤ table.size)
    (guards : table.Guards after) (depth : after.templates.depth = table.templates.depth) :
    after.Filling reading start position origin busy := by
  have hcontext := copyContext_eq (guards.contexts position filling.reads.lt)
  refine ⟨depth ▸ filling.running, ?_, hcontext ▸ filling.grown,
    filling.reads.guards guards fun id isCopy => (filling.fresh isCopy).2⟩
  rw [hcontext]
  refine filling.copies.of_same le guards.size_le (fun x old => ?_) fun x old => ?_
  · have hsame := guards.sameParts x old
    exact nextLink_of_symbol_eq hsame.aliasOf hsame.forwardTarget
  · exact (guards.sameParts x (Nat.lt_of_lt_of_le old le)).parts

/-- An edit that puts a part into a copy. -/
theorem edit (filling : table.Filling reading start position origin busy) (le : start ≤ table.size)
    {id : SymbolId} {edit : Edit} (fresh : start ≤ id.index) (part : edit.IsPart)
    (isCopy : ∀ new, edit.newPart? = some new → table.IsCopy position new)
    (symbols : after.symbols = table.symbols.modify id.index edit.apply)
    (templates : after.templates = table.templates) :
    after.Filling reading start position origin busy := by
  have hcontext : after.copyContext position = table.copyContext position :=
    copyContext_eq (by rw [templates])
  refine ⟨templates ▸ filling.running, ?_, hcontext ▸ filling.grown,
    filling.reads.edit part isCopy symbols templates⟩
  rw [hcontext]
  exact filling.copies.of_edit le part.isLinkless fresh symbols

/-- A copy takes over the return type of its source. -/
theorem takeReturnType (filling : table.Filling reading start position origin []) (le : start ≤ table.size)
    {copy : SymbolId} {given : Descriptor} (fresh : start ≤ copy.index)
    (symbols : after.symbols =
      table.symbols.modify copy.index (Edit.assign (.returnType (some given))).apply)
    (templates : after.templates = table.templates) :
    after.Filling reading start position origin
      [{ target := copy, part := .returnType, type := given, context := position }] := by
  have hcontext : after.copyContext position = table.copyContext position :=
    copyContext_eq (by rw [templates])
  refine ⟨templates ▸ filling.running, ?_, hcontext ▸ filling.grown,
    filling.reads.takeReturnType symbols templates⟩
  rw [hcontext]
  exact filling.copies.of_edit le (by trivial) fresh symbols

/-- A type of a copy was read, or is to be read later. -/
theorem carryOut (filling : table.Filling reading start position origin (work :: busy))
    (le : start ≤ table.size) {ready : Option Descriptor} (fresh : start ≤ work.target.index)
    (lt : work.target.index < table.size)
    (holds : ∀ type, ready = some type → reading.holds (table.copyContext position) work.target type)
    (carried : table.CarriesOut work ready after) : after.Filling reading start position origin busy := by
  have hreads := filling.reads.carryOut lt (fun _ => holds) carried
  cases ready with
  | none =>
      obtain rfl := carried
      exact ⟨filling.running, filling.copies.of_same le (Nat.le_refl _) (fun _ _ => rfl) fun _ _ => rfl,
        filling.grown, hreads⟩
  | some type =>
      obtain rfl | ⟨edit, surface, rfl⟩ := Table.FinishedAt.cases carried
      · exact ⟨filling.running, filling.copies, filling.grown, hreads⟩
      · exact ⟨filling.running, filling.copies.of_edit le surface.isLinkless fresh rfl, filling.grown,
          hreads⟩

/-- A new symbol. -/
theorem push (filling : table.Filling reading start position origin busy) (le : start ≤ table.size)
    {symbol : Symbol} (symbols : after.symbols = table.symbols.push symbol)
    (templates : after.templates = table.templates) :
    after.Filling reading start position origin busy := by
  have hsame : ∀ x : SymbolId, x.index < table.size → after.symbol x = table.symbol x := by
    intro x old
    rw [symbol_of_push symbols, if_neg (by omega)]
  have hcontext : after.copyContext position = table.copyContext position :=
    copyContext_eq (by rw [templates])
  refine ⟨templates ▸ filling.running, ?_, hcontext ▸ filling.grown,
    filling.reads.push (fun id isCopy => (filling.fresh isCopy).2) symbols templates⟩
  rw [hcontext]
  refine filling.copies.of_same le (by rw [size_of_push symbols]; omega) (fun x old => ?_)
    fun x old => ?_
  · rw [nextLink, nextLink, hsame x old]
  · rw [hsame x (Nat.lt_of_lt_of_le old le)]

/-- A copy that is remembered for the first time.  It is empty and younger than all others. -/
theorem recordCopy (filling : table.Filling reading start position origin []) {source copy : SymbolId}
    {type : Descriptor} (old : source.index < start)
    (new : (table.copyContext position).copies.lookup source = none)
    (fresh : start ≤ copy.index ∧ copy.index < table.size) (unlinked : table.nextLink copy = none)
    (younger : ∀ id, table.IsCopy position id → id.index < copy.index)
    (unawaited : ∀ work ∈ table.templates.queue, work.target ≠ copy)
    (noParts : (table.symbol copy).parts = []) (noReturn : (table.symbol copy).returnType = none)
    (symbols : after.symbols = table.symbols)
    (templates : after.templates = { table.templates with
      contexts := table.templates.contexts.modify position fun context =>
        { context with copies := (source, copy) :: context.copies } }) :
    after.Filling reading start position origin
      [{ target := copy, part := .type, type, context := position }] ∧
      after.IsCopy position copy := by
  have hcontext := copyContext_of_recorded filling.reads.lt templates
  have hlinks : ∀ x, after.nextLink x = table.nextLink x := by
    intro x
    rw [nextLink, nextLink, symbol_of_symbols_eq symbols]
  have hdiffers : ∀ pair ∈ (table.copyContext position).copies, pair.2 ≠ copy := by
    rintro pair member rfl
    exact Nat.lt_irrefl _ (younger _ ⟨pair.1, member⟩)
  have hcopies := filling.copies
  have hreads := filling.reads.record type younger unawaited noParts noReturn symbols templates
  have hgrown : (table.copyContext position).Grown (after.copyContext position) := by
    rw [hcontext]
    exact ⟨rfl, fun pair member => .tail _ member⟩
  refine ⟨⟨templates ▸ filling.running, ?_, filling.grown.trans hgrown, hreads⟩, source, ?_⟩
  · rw [hcontext]
    constructor
    · intro pair member
      rcases List.mem_cons.mp member with rfl | before
      · exact old
      · exact hcopies.sources pair before
    · intro pair member
      rw [size_of_symbols_eq symbols]
      rcases List.mem_cons.mp member with rfl | before
      · exact fresh
      · exact hcopies.fresh pair before
    · intro pair member
      rw [hlinks]
      rcases List.mem_cons.mp member with rfl | before
      · exact unlinked
      · exact hcopies.unlinked pair before
    · intro pair member
      rcases List.mem_cons.mp member with rfl | before
      · simp [List.lookup]
      · -- What was copied before was found, and so is not the new source.
        have hfound := hcopies.lookup pair before
        have hother : pair.1 ≠ source := by
          intro same
          rw [same, new] at hfound
          cases hfound
        simp [List.lookup, beq_eq_false_iff_ne.mpr hother, hfound]
    · intro a ha b hb same
      rcases List.mem_cons.mp ha with rfl | beforeA <;> rcases List.mem_cons.mp hb with rfl | beforeB
      · rfl
      · exact absurd same.symm (hdiffers b beforeB)
      · exact absurd same (hdiffers a beforeA)
      · exact hcopies.unique a beforeA b beforeB same
    · intro id target hold linked
      rw [hlinks] at linked
      exact hcopies.closed id target hold linked
    · intro id hold
      rw [symbol_of_symbols_eq symbols]
      exact hcopies.parts id hold
  · rw [hcontext]
    exact .head _

end Filling

end Table

theorem Payload.mentions_shell (payload : Payload) : payload.shell.mentions = [] := by
  cases payload <;> rfl

/-- An empty copy of a symbol only mentions its type. -/
theorem Symbol.shell_within {size : Nat} {symbol : Symbol} (below : symbol.type.Below size)
    (inside : Bool) : Within size { symbol.shell with inTemplate := inside }.mentions := by
  have htype : Within size symbol.type.mentions := below
  simp [Symbol.mentions, Symbol.shell, Payload.mentions_shell, htype]

/-- An empty copy has no parts and no return type. -/
theorem Symbol.empty_of_shell {symbol : Symbol} {payload : Payload} (same : symbol.payload = payload.shell) :
    symbol.parts = [] ∧ symbol.returnType = none := by
  obtain ⟨name, scope, type, inTemplate, access, target, named, origin, link, held⟩ := symbol
  obtain rfl : held = payload.shell := same
  cases payload <;> exact ⟨rfl, rfl⟩

/-- With everything out of reach that there is, a table is as sound. -/
theorem Regime.Sound.tight {regime : Regime} {table : Table} (sound : regime.Sound table) :
    (Regime.copying table.size table.templates.contexts.size).Sound table :=
  ⟨sound.represented, sound.work, sound.running, Nat.le_refl _, Nat.le_refl _⟩

namespace Analysis

variable {reading : Reading} {start position : Nat} {origin : CopyContext} {table : Table}

/-- A step that leaves everything alone that there is. -/
theorem MovesAt.guarded {α : Type} {step : Analysis α} {result : Table → α → Prop} {base floor : Nat}
    (sound : (Regime.copying base floor).Sound table)
    (moves : MovesAt (.copying table.size table.templates.contexts.size) step result table) :
    MovesAt (.copying base floor) step
      (fun after value => table.Guards after ∧ result after value) table := by
  have hguarded := moves.weaken fun after value moved holds =>
    (⟨moved.changes.guards rfl rfl, holds⟩ : table.Guards after ∧ result after value)
  exact hguarded.mono (Regime.allows_copying sound.base_le sound.floor_le)

/-! ## Steps of a copy -/

/-- Reading a type in a running copy leaves everything alone that there is, and gives a type that reads well. -/
def ReadsTypes (reading : Reading) (substitute : Substituter) : Prop :=
  ∀ position type table, (Regime.copying table.size table.templates.contexts.size).Sound table →
    position < table.templates.contexts.size → type.Below table.size →
    MovesAt (.copying table.size table.templates.contexts.size) (substitute position type)
      (fun after ready => ReadyBelow after.size ready ∧
        ∀ result copy, ready = some result → reading.holds (table.copyContext position) copy result) table

/-- Copying the parts of an old declaration into a copy goes on with the copy. -/
def FillsCopies (reading : Reading) (start position : Nat)
    (fill : SymbolId → SymbolId → Analysis Unit) : Prop :=
  ∀ origin source copy table, (Regime.copying start position).Sound table →
    table.Filling reading start position origin
      [{ target := copy, part := .type, type := (table.symbol source).type, context := position }] →
    source.index < start → table.IsCopy position copy →
    MovesAt (.copying start position) (fill source copy)
      (fun after _ => after.Filling reading start position origin []) table

/-- Copying an old declaration goes on with the copy, and gives a copy. -/
def CopiesParts (reading : Reading) (start position : Nat)
    (copyPart : SymbolId → Analysis SymbolId) : Prop :=
  ∀ origin part table, (Regime.copying start position).Sound table →
    table.Filling reading start position origin [] → part.index < start →
    MovesAt (.copying start position) (copyPart part)
      (fun after copy => after.Filling reading start position origin [] ∧ after.IsCopy position copy) table

section Steps

variable (sound : (Regime.copying start position).Sound table)

include sound

/-- A type is substituted without touching the copies made so far. -/
theorem moves_fillType {substitute : Substituter} (substitutes : ReadsTypes reading substitute)
    {target : SymbolId} {part : DeferredPart} {type : Descriptor}
    (filling : table.Filling reading start position origin [{ target, part, type, context := position }])
    (fresh : start ≤ target.index) (lt : target.index < table.size) (below : type.Below table.size) :
    MovesAt (.copying start position) (substituteInto substitute position target part type)
      (fun after _ => after.Filling reading start position origin []) table := by
  have hread := (substitutes position type table sound.tight filling.reads.lt below).guarded sound
  refine hread.bind sound fun substituted after moved hsound ⟨guards, ready, holds⟩ => ?_
  have hfilling := filling.guards sound.base_le guards moved.depth
  have hlt := Nat.lt_of_lt_of_le lt moved.size_le
  have hwork : DeferredWork.Below after.size { target, part, type, context := position } :=
    ⟨below.mono moved.size_le, hlt⟩
  refine (moves_finishOrEnqueue (fun edit surface => Regime.allows_fresh fresh (.inl surface)) hsound
    hfilling.running hwork fresh ready).weaken fun last _ _ carried => ?_
  refine hfilling.carryOut hsound.base_le fresh hlt (fun result same => ?_) carried
  rw [Table.copyContext_eq (guards.contexts position filling.reads.lt)]
  exact holds result target same

variable (filling : table.Filling reading start position origin [])

include filling

theorem moves_fillEdit {id : SymbolId} {edit : Edit} (fresh : start ≤ id.index) (part : edit.IsPart)
    (isCopy : ∀ new, edit.newPart? = some new → table.IsCopy position new)
    (within : Within table.size edit.mentions)
    (named : ∀ name member, edit = .insertMember name member →
      (table.symbol member).name = name) :
    MovesAt (.copying start position) (Analysis.edit id edit)
      (fun after _ => after = table.perform id edit ∧
        after.Filling reading start position origin []) table := by
  refine (moves_edit (Regime.allows_fresh fresh (.inr part)) within named (part.isNews _)).weaken
    fun after _ _ same => ⟨same, ?_⟩
  rw [same]
  exact filling.edit sound.base_le fresh part isCopy rfl rfl

theorem moves_fillWrite {id : SymbolId} {edit : Edit} (fresh : start ≤ id.index) (part : edit.IsPart)
    (isCopy : ∀ new, edit.newPart? = some new → table.IsCopy position new)
    (within : Within table.size edit.mentions)
    (named : ∀ name member, edit = .insertMember name member →
      (table.symbol member).name = name) :
    MovesAt (.copying start position) (Analysis.write id edit)
      (fun after _ => after.Filling reading start position origin []) table := by
  refine (moves_write (Regime.allows_fresh fresh (.inr part)) within named (part.isNews _)).weaken
    fun after _ _ same => ?_
  rw [same]
  exact filling.edit sound.base_le fresh part isCopy rfl rfl

theorem moves_setScope {id scope : SymbolId} (fresh : start ≤ id.index)
    (lt : scope.index < table.size) :
    MovesAt (.copying start position) (setScope id scope)
      (fun after _ => after.Filling reading start position origin []) table := by
  refine .read (moves_fillWrite sound filling fresh (by trivial) (by rintro _ ⟨⟩) ?_ (by simp))
  simpa [Edit.mentions, Assignment.mentions] using lt

theorem moves_appendParameter {copy parameter : SymbolId} (fresh : start ≤ copy.index)
    (isCopy : table.IsCopy position parameter) :
    MovesAt (.copying start position) (appendParameter copy parameter)
      (fun after _ => after.Filling reading start position origin []) table := by
  have hlt := (filling.fresh isCopy).2
  refine .read ?_
  split
  · refine moves_fillWrite sound filling fresh (by trivial) ?_ ?_ (by simp)
    · rintro new ⟨⟩
      exact isCopy
    · simpa [Edit.mentions, Entry.mentions] using hlt
  · refine moves_fillWrite sound filling fresh (by trivial) ?_ ?_ (by simp)
    · rintro new ⟨⟩
      exact isCopy
    · simpa [Edit.mentions, Entry.mentions] using hlt
  · exact .violated _

theorem moves_fillMember {scope id : SymbolId} (fresh : start ≤ scope.index)
    (lt : scope.index < table.size) (isCopy : table.IsCopy position id) :
    MovesAt (.copying start position) (insertMember scope id)
      (fun after _ => after.Filling reading start position origin []) table := by
  obtain ⟨hfresh, hlt⟩ := filling.fresh isCopy
  have hinsert : ∀ inside : Bool, MovesAt (.copying start position)
      (do
        assign id (.scope (some scope) inside)
        edit scope (.insertMember (table.symbol id).name id))
      (fun after _ => after.Filling reading start position origin []) table := by
    intro inside
    have hscope : Within table.size (Edit.assign (.scope (some scope) inside)).mentions := by
      simpa [Edit.mentions, Assignment.mentions] using lt
    refine (moves_fillEdit sound filling hfresh (by trivial) (by rintro _ ⟨⟩) hscope (by simp)).bind sound ?_
    rintro - after - hsound ⟨rfl, hfilling⟩
    have hmember : Within (table.perform id (.assign (.scope (some scope) inside))).size
        (Edit.insertMember (table.symbol id).name id).mentions := by
      simpa [Edit.mentions] using hlt
    refine (moves_fillEdit hsound hfilling fresh (by trivial) ?_ hmember ?_).weaken
      fun _ _ _ holds => holds.2
    · rintro new ⟨⟩
      exact isCopy
    · rintro name member same
      cases same
      rw [Table.symbol_perform]
      split
      · rw [Edit.name_apply]
      · rfl
  refine .read ?_
  dsimp only
  split
  · exact hinsert _
  · exact .of_fault rfl

end Steps

theorem moves_recordCopy (sound : (Regime.copying start position).Sound table)
    (running : table.templates.depth ≠ 0) (source : SymbolId) {copy : SymbolId}
    (lt : copy.index < table.size) :
    MovesAt (.copying start position) (recordCopy position source copy)
      (fun after _ => after.symbols = table.symbols ∧
        after.templates = { table.templates with
          contexts := table.templates.contexts.modify position fun context =>
            { context with copies := (source, copy) :: context.copies } }) table := by
  refine .of_ok rfl (moves_templates ⟨?_, sound.work.queue⟩ ?_ (fun _ queued _ => queued)
    (fun _ queued => .inl queued) rfl running) ⟨rfl, rfl⟩
  · intro context member
    obtain ⟨i, hi⟩ := Array.mem_iff_getElem?.mp member
    rw [Array.getElem?_modify] at hi
    split at hi
    · obtain ⟨before, hbefore, rfl⟩ := Option.map_eq_some_iff.mp hi
      have hbelow := sound.work.contexts before (Array.mem_of_getElem? hbefore)
      refine ⟨hbelow.bindings, fun pair hpair => ?_⟩
      rcases List.mem_cons.mp hpair with rfl | old
      · exact lt
      · exact hbelow.copies pair old
    · exact sound.work.contexts context (Array.mem_of_getElem? hi)
  · intro other hother
    have hne : position ≠ other := Nat.ne_of_gt hother
    simp [Array.getElem?_modify, hne]

theorem moves_copyMember {fill : SymbolId → SymbolId → Analysis Unit}
    (fills : FillsCopies reading start position fill) :
    CopiesParts reading start position (copyMember fill position) := by
  intro origin member table sound filling old
  refine .read ?_
  dsimp only
  split
  · rename_i copy hcopy
    exact .pure ⟨filling, member, mem_of_lookup hcopy⟩
  · rename_i hnew
    have hwithin := Symbol.shell_within (sound.represented.type_below member)
      (table.insideMemberTemplate member (table.copyContext position).templated)
    have hblank := Payload.shell_blank (table.symbol member).payload
    generalize hshell : ({ (table.symbol member).shell with
      inTemplate := table.insideMemberTemplate member
        (table.copyContext position).templated } : Symbol) = shell
    rw [hshell] at hwithin
    have hpayload : shell.payload.Blank := by rw [← hshell]; exact hblank
    have hlinks : shell.aliasOf = none ∧ shell.forwardTarget = none := by
      rw [← hshell]
      exact ⟨rfl, rfl⟩
    have hempty : shell.parts = [] ∧ shell.returnType = none :=
      Symbol.empty_of_shell (by rw [← hshell]; rfl)
    refine (moves_create shell hwithin (.of_blank hpayload _)
      (fun _ => ⟨hlinks.1, hlinks.2, Symbol.specializations_of_blank hpayload⟩)
      (.inl (Symbol.unlisted_of_blank hpayload))).bind sound ?_
    rintro copy created - hsound ⟨rfl, rfl⟩
    have hbase := sound.base_le
    have hfilling : (table.allocate shell).2.Filling reading start position origin [] :=
      filling.push hbase rfl rfl
    -- The copy is the newest symbol, and an empty one.
    have hlt : table.size < (table.allocate shell).2.size := by
      rw [Table.size_allocate]
      omega
    have hsymbol : (table.allocate shell).2.symbol ⟨table.size⟩ = shell := by
      rw [Table.symbol_of_push rfl, if_pos rfl]
    have hunlinked : (table.allocate shell).2.nextLink ⟨table.size⟩ = none := by
      simp [Table.nextLink, hsymbol, hlinks]
    rw [← hsymbol] at hempty
    have hunawaited : ∀ work ∈ table.templates.queue, work.target ≠ ⟨table.size⟩ := by
      intro work queued same
      have hbelow := (sound.work.queue work queued).target
      rw [same] at hbelow
      exact Nat.lt_irrefl _ hbelow
    refine (moves_recordCopy hsound hfilling.running member hlt).bind hsound ?_
    rintro - recorded hmoved hrecorded ⟨hsymbols, htemplates⟩
    obtain ⟨hcopied, hisCopy⟩ := hfilling.recordCopy old hnew ⟨hbase, hlt⟩ hunlinked
      (fun id isCopy => (filling.fresh isCopy).2) hunawaited hempty.1 hempty.2 hsymbols htemplates
    refine (fills _ member ⟨table.size⟩ recorded hrecorded hcopied.rebase old hisCopy).bind hrecorded ?_
    intro _ last hlater _ hfilled
    exact .pure ⟨hfilled.since hcopied.grown, hisCopy.imp fun source => hfilled.grown.copies _⟩

/-! ## The parts of a declaration -/

section Parts

variable {copyPart : SymbolId → Analysis SymbolId} {substitute : Substituter} {copy : SymbolId}

variable (sound : (Regime.copying start position).Sound table)
  (filling : table.Filling reading start position origin [])
  (fresh : start ≤ copy.index) (lt : copy.index < table.size)

include sound filling fresh lt

theorem moves_copyReturnType (substitutes : ReadsTypes reading substitute)
    {type : Option Descriptor} (below : ∀ given, type = some given → given.Below table.size) :
    MovesAt (.copying start position) (copyReturnType substitute position copy type)
      (fun after _ => after.Filling reading start position origin []) table := by
  cases type with
  | none => exact .pure filling
  | some type =>
      have htype := below type rfl
      have hassigned : Within table.size (Edit.assign (.returnType (some type))).mentions := htype
      refine (moves_write (Regime.allows_fresh fresh (.inl (by trivial))) hassigned (by simp)
        (by trivial)).bind sound ?_
      rintro - after hmoved hsound rfl
      have htaken : (table.write copy (.assign (.returnType (some type)))).Filling reading start position
          origin [{ target := copy, part := .returnType, type, context := position }] :=
        filling.takeReturnType sound.base_le fresh rfl rfl
      exact moves_fillType hsound substitutes htaken fresh (Nat.lt_of_lt_of_le lt hmoved.size_le)
        (htype.mono hmoved.size_le)

theorem moves_copyBases (substitutes : ReadsTypes reading substitute)
    {links : List BaseLink} (within : Within table.size (links.map (·.parent))) :
    MovesAt (.copying start position) (copyBases substitute position copy links)
      (fun after _ => after.Filling reading start position origin []) table := by
  refine .forM sound filling fun entry member after hmoved hsound hfilling => ?_
  obtain ⟨link, index⟩ := entry
  have hlink : link ∈ links := List.fst_mem_of_mem_zipIdx member
  have hparent : link.parent.index < after.size :=
    Nat.lt_of_lt_of_le (within _ (List.mem_map_of_mem hlink)) hmoved.size_le
  have hentry : Within after.size (Edit.append (.parent link)).mentions := by
    simpa [Edit.mentions, Entry.mentions] using hparent
  refine (moves_fillWrite hsound hfilling fresh (by trivial) (by rintro _ ⟨⟩) hentry (by simp)).bind hsound ?_
  intro _ last hlater hlast hlastFilling
  have hlt := Nat.lt_of_lt_of_le (Nat.lt_of_lt_of_le lt hmoved.size_le) hlater.size_le
  exact moves_fillType hlast substitutes (hlastFilling.carry rfl) fresh hlt
    (.ofSymbol (Nat.lt_of_lt_of_le hparent hlater.size_le))

theorem moves_copyParameters (copies : CopiesParts reading start position copyPart)
    {parameters : List SymbolId} (old : Within start parameters) :
    MovesAt (.copying start position) (copyParameters copyPart copy parameters)
      (fun after _ => after.Filling reading start position origin []) table := by
  refine .forM sound filling fun parameter member after hmoved hsound hfilling => ?_
  have hlt := Nat.lt_of_lt_of_le lt hmoved.size_le
  refine (copies origin parameter after hsound hfilling (old parameter member)).bind hsound ?_
  rintro part middle hcopied hmiddle ⟨hfilled, hpart⟩
  have hscope := Nat.lt_of_lt_of_le hlt hcopied.size_le
  refine (moves_setScope hmiddle hfilled.rebase (hfilled.fresh hpart).1 hscope).bind hmiddle ?_
  intro _ last hscoped hlast hscopedFilling
  exact moves_appendParameter hlast (hscopedFilling.since hfilled.grown) fresh
    (hpart.imp fun source => hscopedFilling.grown.copies _)

theorem moves_copyMembers (copies : CopiesParts reading start position copyPart)
    {members : List SymbolId} (old : Within start members) :
    MovesAt (.copying start position) (copyMembers copyPart copy members)
      (fun after _ => after.Filling reading start position origin []) table := by
  refine .forM sound filling fun member hmember after hmoved hsound hfilling => ?_
  have hlt := Nat.lt_of_lt_of_le lt hmoved.size_le
  refine (copies origin member after hsound hfilling (old member hmember)).bind hsound ?_
  rintro part middle hcopied hmiddle ⟨hfilled, hpart⟩
  exact moves_fillMember hmiddle hfilled fresh (Nat.lt_of_lt_of_le hlt hcopied.size_le) hpart

theorem moves_copySpecialFunctions (copies : CopiesParts reading start position copyPart)
    (entry : SymbolId → Entry) (isPart : ∀ id, (Edit.append (entry id)).IsPart)
    (newPart : ∀ id, (Edit.append (entry id)).newPart? = some id)
    (mentions : ∀ id, (entry id).mentions = [id]) {functions : List SymbolId}
    (old : Within start functions) :
    MovesAt (.copying start position) (copySpecialFunctions copyPart entry copy functions)
      (fun after _ => after.Filling reading start position origin []) table := by
  refine .forM sound filling fun function member after hmoved hsound hfilling => ?_
  have hlt := Nat.lt_of_lt_of_le lt hmoved.size_le
  refine (copies origin function after hsound hfilling (old function member)).bind hsound ?_
  rintro part middle hcopied hmiddle ⟨hfilled, hpart⟩
  have hscope := Nat.lt_of_lt_of_le hlt hcopied.size_le
  refine (moves_setScope hmiddle hfilled.rebase (hfilled.fresh hpart).1 hscope).bind hmiddle ?_
  intro _ last hscoped hlast hscopedFilling
  have hscopedPart : last.IsCopy position part := hpart.imp fun source => hscopedFilling.grown.copies _
  have hentry : Within last.size (Edit.append (entry part)).mentions := by
    simpa [Edit.mentions, mentions] using (hscopedFilling.fresh hscopedPart).2
  refine moves_fillWrite hlast (hscopedFilling.since hfilled.grown) fresh (isPart part) ?_ hentry (by simp)
  intro new same
  rw [newPart, Option.some.injEq] at same
  exact same ▸ hscopedPart

theorem moves_copyDirectives {directives : List UsingDirective}
    (within : Within table.size (directives.flatMap fun used => [used.scope, used.nominated])) :
    MovesAt (.copying start position) (copyDirectives copy directives)
      (fun after _ => after.Filling reading start position origin []) table := by
  refine .forM sound filling fun directive member after hmoved hsound hfilling => ?_
  have hnominated : directive.nominated.index < after.size :=
    Nat.lt_of_lt_of_le (Within.flatMap.mp within directive member _ (by simp)) hmoved.size_le
  have hentry : Within after.size
      (Edit.append (.directive { directive with scope := copy })).mentions := by
    have hlt := Nat.lt_of_lt_of_le lt hmoved.size_le
    simp [Edit.mentions, Entry.mentions, hlt, hnominated]
  exact moves_fillWrite hsound hfilling fresh (by trivial) (by rintro _ ⟨⟩) hentry (by simp)

end Parts

theorem moves_copyContents {substitute : Substituter} (substitutes : ReadsTypes reading substitute)
    (depth : Nat) : FillsCopies reading start position (copyContents substitute position depth) := by
  induction depth with
  | zero => exact fun origin source copy table _ _ _ _ => .violated _
  | succ depth ih =>
      intro origin source copy table sound filling old isCopy
      obtain ⟨fresh, lt⟩ := filling.fresh isCopy
      have hcopies := moves_copyMember ih
      have hmodel := sound.represented.within source
      have hparts := filling.copies.parts source old
      simp only [Symbol.parts, Within.append] at hparts
      obtain ⟨⟨⟨hparameters, hcontents⟩, hconstructors⟩, hconversions⟩ := hparts
      unfold copyContents
      refine .read ?_
      dsimp only
      refine (moves_fillType sound substitutes filling fresh lt (Symbol.type_below hmodel)).bind sound ?_
      intro _ t₁ hmoved₁ sound₁ filling₁
      have lt₁ := Nat.lt_of_lt_of_le lt hmoved₁.size_le
      refine (moves_copyParameters sound₁ filling₁ fresh lt₁ hcopies hparameters).bind sound₁ ?_
      intro _ t₂ hmoved₂ sound₂ filling₂
      have le₂ := Nat.le_trans hmoved₁.size_le hmoved₂.size_le
      refine (moves_copyReturnType sound₂ filling₂ fresh (Nat.lt_of_lt_of_le lt le₂) substitutes
        fun type given => (Symbol.returnType_below hmodel given).mono le₂).bind sound₂ ?_
      intro _ t₃ hmoved₃ sound₃ filling₃
      have le₃ := Nat.le_trans le₂ hmoved₃.size_le
      refine (moves_copyBases sound₃ filling₃ fresh (Nat.lt_of_lt_of_le lt le₃) substitutes
        ((Symbol.parents_within hmodel).mono le₃)).bind sound₃ ?_
      intro _ t₄ hmoved₄ sound₄ filling₄
      have le₄ := Nat.le_trans le₃ hmoved₄.size_le
      refine (moves_copyMembers sound₄ filling₄ fresh (Nat.lt_of_lt_of_le lt le₄) hcopies
        hcontents).bind sound₄ ?_
      intro _ t₅ hmoved₅ sound₅ filling₅
      have le₅ := Nat.le_trans le₄ hmoved₅.size_le
      refine (moves_copyDirectives sound₅ filling₅ fresh (Nat.lt_of_lt_of_le lt le₅)
        ((Symbol.directives_within hmodel).mono le₅)).bind sound₅ ?_
      intro _ t₆ hmoved₆ sound₆ filling₆
      have le₆ := Nat.le_trans le₅ hmoved₆.size_le
      refine (moves_copySpecialFunctions sound₆ filling₆ fresh (Nat.lt_of_lt_of_le lt le₆) hcopies
        .constructor (fun _ => trivial) (fun _ => rfl) (fun _ => rfl) hconstructors).bind sound₆ ?_
      intro _ t₇ hmoved₇ sound₇ filling₇
      have le₇ := Nat.le_trans le₆ hmoved₇.size_le
      exact moves_copySpecialFunctions sound₇ filling₇ fresh (Nat.lt_of_lt_of_le lt le₇) hcopies
        .conversion (fun _ => trivial) (fun _ => rfl) (fun _ => rfl) hconversions

/-! ## Links among the copies -/

/-- A table in which a copy has been given the links that its source has in `table`. -/
def writeLinks (table : Table) (context : CopyContext) (source copy : SymbolId) (current : Table) :
    Table :=
  (current.write copy (.assign (.forwardTarget
    ((table.symbol source).forwardTarget.map context.copyOf)))).write copy
      (.assign (.aliasOf ((table.symbol source).aliasOf.map context.copyOf)))

/-- Give one copy the links of its source, unless it is the copy of the templated declaration. -/
def linkCopy (table : Table) (context : CopyContext) (pair : SymbolId × SymbolId) : Analysis Unit :=
  if pair.1 = context.templated then pure ()
  else modify (writeLinks table context pair.1 pair.2)

section Links

variable {context : CopyContext} {current : Table} {done : List (SymbolId × SymbolId)}

theorem linkCopies_apply (position : Nat) (table : Table) :
    linkCopies position table =
      (table.copyContext position).copies.forM
        (linkCopy table (table.copyContext position)) table := rfl

theorem size_writeLinks (source copy : SymbolId) :
    (writeLinks table context source copy current).size = current.size := by
  simp [writeLinks]

theorem symbol_writeLinks (source copy x : SymbolId) :
    (writeLinks table context source copy current).symbol x =
      if copy = x ∧ x.index < current.size then
        { current.symbol x with
          forwardTarget := (table.symbol source).forwardTarget.map context.copyOf
          aliasOf := (table.symbol source).aliasOf.map context.copyOf }
      else current.symbol x := by
  rw [writeLinks, Table.symbol_write, Table.size_write, Table.symbol_write]
  split
  · rfl
  · rfl

/-- One more copy has been linked. -/
theorem linksCopies_linkCopy (copies : table.Copies start context)
    (covers : ∀ pair ∈ done, pair ∈ context.copies)
    (links : table.LinksCopies context done current) {source copy : SymbolId}
    (member : (source, copy) ∈ context.copies) :
    ∃ after, linkCopy table context (source, copy) current = .ok () after ∧
      table.LinksCopies context (done ++ [(source, copy)]) after := by
  by_cases htemplated : source = context.templated
  · refine ⟨current, by simp only [linkCopy, if_pos htemplated]; rfl, links.size_eq,
      links.templates_eq, ?_, ?_⟩
    · intro pair hpair differs
      rcases List.mem_append.mp hpair with before | last
      · exact links.linked pair before differs
      · rw [List.mem_singleton.mp last] at differs
        exact absurd htemplated differs
    · exact fun x others =>
        links.others x fun pair before => others pair (List.mem_append_left _ before)
  · have hlt : copy.index < current.size := by
      rw [links.size_eq]
      exact (copies.fresh _ member).2
    refine ⟨writeLinks table context source copy current,
      by simp only [linkCopy, if_neg htemplated]; rfl, ?_, links.templates_eq, ?_, ?_⟩
    · rw [size_writeLinks, links.size_eq]
    · intro pair hpair differs
      rw [symbol_writeLinks]
      by_cases hsame : copy = pair.2
      · -- Whatever was written before, the two links are all that ever differs.
        have hknown : pair ∈ context.copies := by
          rcases List.mem_append.mp hpair with before | last
          · exact covers pair before
          · rw [List.mem_singleton.mp last]
            exact member
        have hsource := copies.unique pair hknown (source, copy) member hsame.symm
        rw [if_pos ⟨hsame, hsame ▸ hlt⟩, hsource]
        rcases links.cases pair.2 with ⟨other, hother, hdiffers⟩ | hunchanged
        · rw [links.linked _ hother hdiffers]
        · rw [hunchanged]
      · rw [if_neg fun both => hsame both.1]
        rcases List.mem_append.mp hpair with before | last
        · exact links.linked pair before differs
        · rw [List.mem_singleton.mp last] at hsame
          exact absurd rfl hsame
    · intro x others
      have hx : copy ≠ x := by
        rintro rfl
        exact htemplated (others (source, copy) (by simp) rfl)
      rw [symbol_writeLinks, if_neg fun both => hx both.1]
      exact links.others x fun pair before => others pair (List.mem_append_left _ before)

/-- All copies are linked, one after the other. -/
theorem linksCopies_forM (copies : table.Copies start context) (rest : List (SymbolId × SymbolId)) :
    ∀ done current, done ++ rest = context.copies → table.LinksCopies context done current →
      ∃ after, rest.forM (linkCopy table context) current = .ok () after ∧
        table.LinksCopies context context.copies after := by
  induction rest with
  | nil =>
      intro done current hsplit links
      rw [List.append_nil] at hsplit
      exact ⟨current, rfl, hsplit ▸ links⟩
  | cons pair rest ih =>
      intro done current hsplit links
      have hcovers : ∀ other ∈ done, other ∈ context.copies := by
        intro other before
        rw [← hsplit]
        exact List.mem_append_left _ before
      have hmember : pair ∈ context.copies := by simp [← hsplit]
      obtain ⟨middle, hmiddle, hlinks⟩ := linksCopies_linkCopy copies hcovers links hmember
      obtain ⟨after, hafter, hall⟩ := ih (done ++ [pair]) middle (by simp [← hsplit]) hlinks
      exact ⟨after, (bind_ok hmiddle).trans hafter, hall⟩

end Links

theorem moves_linkCopies (filling : table.Filling reading start position origin []) :
    MovesAt (.copying start position) (linkCopies position)
      (fun after _ => after.Reads reading position [] ∧
        after.copyContext position = table.copyContext position) table := by
  have hnone : table.LinksCopies (table.copyContext position) [] table :=
    ⟨rfl, rfl, fun pair member => absurd member List.not_mem_nil, fun x _ => rfl⟩
  obtain ⟨after, hafter, hlinks⟩ := linksCopies_forM filling.copies _ [] table rfl hnone
  have hchange : Change (.copying start position) table after :=
    .links start (table.copyContext position) (Nat.le_refl _) filling.copies hlinks
  have hcontext : after.copyContext position = table.copyContext position :=
    Table.copyContext_eq (by rw [hlinks.templates_eq])
  exact .of_ok ((linkCopies_apply position table).trans hafter)
    (.of_change hchange hlinks.templates_eq) ⟨filling.reads.link hlinks, hcontext⟩

end Analysis

end NameBinding
