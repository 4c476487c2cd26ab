import NameBinding.Proofs.Template.CopyMoves

/-!
# Instantiation moves the table

A template is copied, and what had to wait is finished in the end.  A copy inside another one counts as
a level of its own; the outermost copy runs under a mark, which it commits if it succeeds.  If it fails,
its mark is rolled back and nothing has happened.

* `copyTemplate_opens`: the instance is there and is remembered before anything else is copied.
* `moves_copyTemplate` and `moves_drainQueue`: the two halves of an instantiation.

The main statement is `makesInstances_instantiateWithin`: making an instance for arguments that exist
only adds symbols, links copies among each other, and edits what is remembered about instances; the
instance exists, and as long as there are no partial specializations no use of a template is ambiguous.
-/

namespace NameBinding

variable {regime : Regime} {reading : Reading} {table : Table}

/-- Counting a copy does not touch any symbol. -/
theorem Regime.Sound.copyCounted (sound : regime.Sound table) {after : Table}
    (symbols : after.symbols = table.symbols)
    (templates : after.templates = { table.templates with depth := table.templates.depth + 1 }) :
    regime.Sound after where
  represented := sound.represented.of_symbols symbols
  work := by
    constructor
    · intro context member
      rw [templates] at member
      rw [Table.size_of_symbols_eq symbols]
      exact sound.work.contexts context member
    · intro work member
      rw [templates] at member
      rw [Table.size_of_symbols_eq symbols]
      exact sound.work.queue work member
  running := by
    rw [templates]
    exact .inr (Nat.succ_ne_zero _)
  base_le := by
    rw [Table.size_of_symbols_eq symbols]
    exact sound.base_le
  floor_le := by
    rw [templates]
    exact sound.floor_le

/-- Where no instantiation is running, an outermost copy may begin. -/
theorem Table.Idle.sound_copyBegun (idle : table.Idle) (represented : table.Represented) :
    (Regime.copying 0 0).Sound table.copyBegun := by
  have hnowork : table.WorkBelow := by
    have htemplates : table.templates = {} := idle
    constructor <;> simp [htemplates]
  exact Regime.Sound.copyCounted ⟨represented, hnowork, .inl idle, Nat.zero_le _, Nat.zero_le _⟩ rfl rfl

/-- A change that touches no symbol and no context. -/
theorem Change.uncounted {after : Table} (sound : regime.Sound table)
    (symbols : after.symbols = table.symbols)
    (contexts : after.templates.contexts = table.templates.contexts)
    (queue : after.templates.queue = table.templates.queue) : Change regime table after := by
  refine .elsewhere symbols ⟨?_, ?_⟩ (fun position _ => by rw [contexts])
    (fun work queued _ => queue ▸ queued) fun work queued => .inl (queue ▸ queued)
  · intro context member
    rw [contexts] at member
    rw [Table.size_of_symbols_eq symbols]
    exact sound.work.contexts context member
  · intro work member
    rw [queue] at member
    rw [Table.size_of_symbols_eq symbols]
    exact sound.work.queue work member

/-- The context in which the copy of a template begins: only the templated declaration has a copy, the next symbol. -/
def Table.firstContext (table : Table) (template templated : SymbolId) (args : List Descriptor) : CopyContext where
  templated := templated
  bindings := ((table.symbol template).parameters.zip args).reverse
  copies := [(templated, ⟨table.size⟩)]

namespace Analysis

/-! ## The two halves of an instantiation -/

/-- Reading a type, whatever is out of reach. -/
def SubstitutesAlways (substitute : Substituter) : Prop :=
  ∀ base floor, SubstitutesTypes (.copying base floor) substitute

/-- Where nothing is asked of the types, they always read well. -/
theorem SubstitutesAlways.reads {substitute : Substituter} (substitutes : SubstitutesAlways substitute) :
    ReadsTypes .any substitute :=
  fun position type table sound _ below => (substitutes _ _ position type table sound below).weaken
    fun _ _ _ ready => ⟨ready, fun _ _ _ => trivial⟩

theorem moves_openContext {context : CopyContext} (sound : regime.Sound table)
    (running : table.templates.depth ≠ 0) (below : context.Below table.size) :
    MovesAt regime (openContext context)
      (fun after position => position = table.templates.contexts.size ∧
        after = { table with
          templates :=
            { table.templates with contexts := table.templates.contexts.push context } })
      table := by
  refine .of_ok rfl (moves_templates ⟨?_, sound.work.queue⟩ ?_ (fun _ queued _ => queued)
    (fun _ queued => .inl queued) rfl running) ⟨rfl, rfl⟩
  · intro other member
    rcases Array.mem_push.mp member with old | rfl
    · exact sound.work.contexts other old
    · exact below
  · intro position lt
    have hle := sound.floor_le
    rw [Array.getElem?_push, if_neg (by omega)]

/-- In the table in which a copy begins, nothing but the templated declaration is copied. -/
theorem filling_opened (reading : Reading) {opened : Table} {context : CopyContext} {templated : SymbolId}
    (represented : table.Represented) (work : table.WorkBelow) (old : templated.index < table.size)
    (moved : Moved (.copying table.size table.templates.contexts.size) table opened)
    (running : table.templates.depth ≠ 0) (lt : table.size < opened.size)
    (unlinked : opened.nextLink ⟨table.size⟩ = none)
    (empty : (opened.symbol ⟨table.size⟩).parts = [] ∧ (opened.symbol ⟨table.size⟩).returnType = none)
    (copies : context.copies = [(templated, ⟨table.size⟩)])
    (contexts : opened.templates.contexts = table.templates.contexts.push context)
    (queue : opened.templates.queue = table.templates.queue) :
    opened.Filling reading table.size table.templates.contexts.size context
      [{ target := ⟨table.size⟩, part := .type, type := (opened.symbol templated).type,
         context := table.templates.contexts.size }] := by
  have hsame : ∀ x : SymbolId, x.index < table.size →
      (opened.symbol x).SameParts (table.symbol x) :=
    fun x => moved.changes.sameParts (Nat.le_refl _)
  have hcontext : opened.copyContext table.templates.contexts.size = context := by
    simp [Table.copyContext, contexts]
  have hunawaited : ∀ work ∈ opened.templates.queue, work.target ≠ ⟨table.size⟩ := by
    intro item queued same
    have hbelow := (work.queue item (queue ▸ queued)).target
    rw [same] at hbelow
    exact Nat.lt_irrefl _ hbelow
  refine ⟨moved.depth ▸ running, ?_, hcontext ▸ .refl context,
    Table.Reads.opened _ (by simp [contexts]) (hcontext ▸ copies) hunawaited empty.1 empty.2⟩
  rw [hcontext]
  have hpair : ∀ pair ∈ context.copies, pair = (templated, ⟨table.size⟩) := by
    intro pair member
    rw [copies] at member
    exact List.mem_singleton.mp member
  constructor
  · intro pair member
    rw [hpair pair member]
    exact old
  · intro pair member
    rw [hpair pair member]
    exact ⟨Nat.le_refl _, lt⟩
  · intro pair member
    rw [hpair pair member]
    exact unlinked
  · intro pair member
    rw [hpair pair member, copies]
    simp [List.lookup]
  · intro a ha b hb _
    rw [hpair a ha, hpair b hb]
  · intro id target hid linked
    have hlink : opened.nextLink id = table.nextLink id :=
      Table.nextLink_of_symbol_eq (hsame id hid).aliasOf (hsame id hid).forwardTarget
    exact represented.nextLink_lt (hlink ▸ linked)
  · intro id hid
    rw [(hsame id hid).parts]
    exact Symbol.parts_within (represented.within id)

/-- The copy of a template has begun: in `opened`, the instance is there and is remembered, and nothing else is
copied yet. -/
structure OpenedFor (template templated : SymbolId) (args : List Descriptor) (table opened : Table) : Prop where
  moved : Moved (.copying table.size table.templates.contexts.size) table opened
  symbol : opened.symbol ⟨table.size⟩ =
    { (table.symbol templated).shell with
      scope := (table.symbol template).scope
      origin := some { template, args } }
  contexts : opened.templates.contexts = table.templates.contexts.push (table.firstContext template templated args)
  queue : opened.templates.queue = table.templates.queue

namespace OpenedFor

variable {template templated : SymbolId} {args : List Descriptor} {opened : Table}
  (begins : OpenedFor template templated args table opened)

include begins

theorem lt_size : table.size < opened.size := by
  have horigin : (opened.symbol ⟨table.size⟩).origin.isSome = true := by
    rw [begins.symbol]
    rfl
  exact Table.lt_size_of_symbol (·.origin.isSome) rfl horigin

theorem copyContext_eq :
    opened.copyContext table.templates.contexts.size = table.firstContext template templated args := by
  simp [Table.copyContext, begins.contexts]

/-- The instance is empty and stands for nothing. -/
theorem filling (reading : Reading) (represented : table.Represented) (work : table.WorkBelow)
    (old : templated.index < table.size) (running : table.templates.depth ≠ 0) :
    opened.Filling reading table.size table.templates.contexts.size (table.firstContext template templated args)
      [{ target := ⟨table.size⟩, part := .type, type := (opened.symbol templated).type,
         context := table.templates.contexts.size }] := by
  refine filling_opened reading represented work old begins.moved running begins.lt_size ?_ ?_ rfl begins.contexts
    begins.queue
  · rw [Table.nextLink, begins.symbol]
    rfl
  · rw [begins.symbol]
    exact Symbol.empty_of_shell rfl

end OpenedFor

/-- The copy of a template begins. -/
theorem copyTemplate_opens (substitute : Substituter) (depth : Nat) {template templated : SymbolId}
    {args : List Descriptor} {base floor : Nat} (sound : (Regime.copying base floor).Sound table)
    (running : table.templates.depth ≠ 0) (given : ∀ arg ∈ args, arg.Below table.size)
    (news : Lacks (table.symbol template).instances args) (declares : table.templated? template = some templated) :
    ∃ opened, OpenedFor template templated args table opened ∧
      copyTemplate substitute depth template args table =
        (do
          copyContents substitute table.templates.contexts.size depth templated ⟨table.size⟩
          linkCopies table.templates.contexts.size
          pure (⟨table.size⟩ : SymbolId) : Analysis SymbolId) opened := by
  have hsound := sound.tight
  have hrepresented := sound.represented
  have htemplate : template.index < table.size := by
    refine Table.lt_size_of_symbol (·.isTemplate) rfl ?_
    obtain ⟨data, hdata, -⟩ := Option.bind_eq_some_iff.mp declares
    simp [Symbol.isTemplate, hdata]
  have hargs := Descriptor.within_mentionsAll.mpr given
  have hwithin : Within table.size
      { (table.symbol templated).shell with
        scope := (table.symbol template).scope
        origin := some { template, args } }.mentions := by
    have hshell := Symbol.shell_within (hrepresented.type_below templated) false
    have hscope : Within table.size (table.symbol template).scope.toList :=
      Within.toList.mpr fun id => Symbol.scope_lt (hrepresented.within template)
    simp only [Symbol.mentions, Symbol.shell, Within.append] at hshell ⊢
    simp [hshell, hscope, TemplateUse.mentions, hargs, htemplate]
  have hblank := Payload.shell_blank (table.symbol templated).payload
  generalize hinstance : ({ (table.symbol templated).shell with
    scope := (table.symbol template).scope
    origin := some { template, args } } : Symbol) = made
  rw [hinstance] at hwithin
  have hpayload : made.payload.Blank := by rw [← hinstance]; exact hblank
  have hlinks : made.aliasOf = none ∧ made.forwardTarget = none := by
    rw [← hinstance]
    exact ⟨rfl, rfl⟩
  have hlt : table.size < (table.allocate made).2.size := by
    rw [Table.size_allocate]
    omega
  have hgiven : ∀ arg ∈ args, arg.Below (table.allocate made).2.size :=
    fun arg member => (given arg member).mono (Nat.le_of_lt hlt)
  have hcreates : MovesAt (.copying table.size table.templates.contexts.size) (create made) _ table :=
    moves_create made hwithin (.of_blank hpayload _)
      (fun _ => ⟨hlinks.1, hlinks.2, Symbol.specializations_of_blank hpayload⟩)
      (.inl (Symbol.unlisted_of_blank hpayload))
  obtain ⟨hcreated, -⟩ := hcreates.ok rfl
  have hnews : Lacks ((table.allocate made).2.symbol template).instances args := by
    rw [Table.symbol_of_push rfl, if_neg (by omega)]
    exact news
  obtain ⟨hrecorded, -⟩ := (moves_recordInstance
    (allowsCaches_copying table.size table.templates.contexts.size) template hgiven hlt fun _ => hnews).ok rfl
  have hbelow : CopyContext.Below ((table.allocate made).2.perform template
      (.append (.cached { args, symbol := ⟨table.size⟩ }))).size (table.firstContext template templated args) := by
    constructor
    · intro pair member
      rw [Table.size_perform]
      exact hgiven _ (List.of_mem_zip (List.mem_reverse.mp member)).2
    · intro pair member
      rw [List.mem_singleton.mp member, Table.size_perform]
      exact hlt
  have hremembered := hcreated.trans hrecorded
  obtain ⟨hopened, -⟩ := (moves_openContext (hremembered.sound hsound) (hremembered.depth ▸ running) hbelow).ok rfl
  refine ⟨_, ⟨hremembered.trans hopened, ?_, rfl, rfl⟩, ?_⟩
  · have hdiffers : template ≠ ⟨table.size⟩ := by
      rintro rfl
      exact Nat.lt_irrefl _ htemplate
    show ((table.allocate made).2.perform template
      (.append (.cached { args, symbol := ⟨table.size⟩ }))).symbol ⟨table.size⟩ = _
    rw [Table.symbol_perform, if_neg fun both => hdiffers both.1, Table.symbol_of_push rfl, if_pos rfl, hinstance]
  · rw [copyTemplate, get_bind]
    simp only [declares]
    rw [hinstance]
    rfl

/-- What a copy of the templated declaration leaves behind: a running copy, all of whose types wait or were read,
and which is younger than everything that was there. -/
structure CopiedAs (reading : Reading) (template : SymbolId) (args : List Descriptor) (table : Table)
    (made : SymbolId) (after : Table) : Prop where
  reads : after.Reads reading table.templates.contexts.size []
  first : made = ⟨table.size⟩
  fresh : ∀ id, after.IsCopy table.templates.contexts.size id → table.size ≤ id.index ∧ id.index < after.size
  grown : ∃ templated, table.templated? template = some templated ∧
    CopyContext.Grown
      { templated, bindings := ((table.symbol template).parameters.zip args).reverse,
        copies := [(templated, made)] }
      (after.copyContext table.templates.contexts.size)

theorem CopiedAs.lt_size {template made : SymbolId} {args : List Descriptor} {after : Table}
    (copied : CopiedAs reading template args table made after) : made.index < after.size := by
  obtain ⟨templated, -, hgrown⟩ := copied.grown
  exact (copied.fresh made ⟨templated, hgrown.copies _ (.head _)⟩).2

theorem moves_copyTemplate {substitute : Substituter} (substitutes : ReadsTypes reading substitute)
    (depth : Nat) (template : SymbolId) {args : List Descriptor} {base floor : Nat}
    (sound : (Regime.copying base floor).Sound table) (running : table.templates.depth ≠ 0)
    (given : ∀ arg ∈ args, arg.Below table.size)
    (news : Lacks (table.symbol template).instances args) :
    MovesAt (.copying base floor) (copyTemplate substitute depth template args)
      (fun after made => CopiedAs reading template args table made after) table := by
  refine MovesAt.mono ?_ (Regime.allows_copying sound.base_le sound.floor_le)
  have hsound := sound.tight
  cases htemplated : table.templated? template with
  | none =>
      refine .read ?_
      simp only [htemplated]
      exact .fail (by simp)
  | some templated =>
      obtain ⟨opened, hopens, hcopy⟩ := copyTemplate_opens substitute depth sound running given news htemplated
      have hold := sound.represented.templated?_lt htemplated
      have hsoundOpened := hopens.moved.sound hsound
      have hfilling := hopens.filling reading sound.represented sound.work hold running
      refine .of_moved hcopy hopens.moved ?_
      refine (moves_copyContents substitutes depth _ templated ⟨table.size⟩ _ hsoundOpened hfilling hold
        ⟨templated, hfilling.grown.copies _ (.head _)⟩).bind hsoundOpened ?_
      intro _ filled hfilled hsoundFilled hfillingFilled
      refine (moves_linkCopies hfillingFilled).bind hsoundFilled ?_
      rintro - linked hlinked - ⟨hreads, hcontext⟩
      refine .pure ⟨hreads, rfl, fun id isCopy => ?_, templated, htemplated, ?_⟩
      · rw [Table.IsCopy, hcontext] at isCopy
        exact (hfillingFilled.fresh isCopy).imp_right fun lt => Nat.lt_of_lt_of_le lt hlinked.size_le
      · rw [hcontext]
        exact hfillingFilled.grown

/-! ## Queued work -/

section Drain

variable {base floor position : Nat} {substitute : Substituter}

/-- Queued work is carried out, one item after the other.  The types of the copies are read in their context, and
other work does not touch them. -/
theorem moves_finishAll (reads : ReadsTypes reading substitute) (substitutes : SubstitutesAlways substitute)
    (list : List DeferredWork) :
    ∀ table, (Regime.copying base floor).Sound table → table.templates.depth ≠ 0 →
      (∀ work ∈ list, work.Below table.size ∧ base ≤ work.target.index) →
      table.Reads reading position list →
      MovesAt (.copying base floor)
        (list.forM fun work => do
          let substituted ← substitute work.context work.type
          finishOrEnqueue work substituted)
        (fun after _ => after.Reads reading position []) table := by
  induction list with
  | nil => exact fun table sound running below holds => .pure holds
  | cons work rest ih =>
      intro table sound running below holds
      obtain ⟨hbelow, hfresh⟩ := below work (.head rest)
      have hread : MovesAt (.copying table.size table.templates.contexts.size)
          (substitute work.context work.type)
          (fun after ready => ReadyBelow after.size ready ∧
            (table.IsCopy position work.target → ∀ type, ready = some type →
              reading.holds (table.copyContext position) work.target type)) table := by
        by_cases hcopy : table.IsCopy position work.target
        · have hplace := holds.places work (List.mem_append_right _ (.head rest)) hcopy
          rw [hplace]
          refine (reads position work.type table sound.tight holds.lt hbelow.type).weaken ?_
          exact fun after ready _ ⟨hready, hholds⟩ =>
            ⟨hready, fun _ type same => hholds type work.target same⟩
        · exact (substitutes _ _ work.context work.type table sound.tight hbelow.type).weaken
            fun after ready _ hready => ⟨hready, fun isCopy => absurd isCopy hcopy⟩
      have hstep : MovesAt (.copying base floor)
          (do
            let substituted ← substitute work.context work.type
            finishOrEnqueue work substituted)
          (fun after _ => after.Reads reading position rest) table := by
        refine (hread.guarded sound).bind sound fun ready after hmoved hsound hguarded => ?_
        obtain ⟨hguards, hready, hholds⟩ := hguarded
        have hreads := holds.guards hguards fun id isCopy => isCopy.lt_size sound.work
        have hcontext := Table.copyContext_eq (hguards.contexts position holds.lt)
        have hwork := hbelow.mono hmoved.size_le
        refine (moves_finishOrEnqueue (fun edit surface => Regime.allows_fresh hfresh (.inl surface)) hsound
          (hmoved.depth ▸ running) hwork hfresh hready).weaken fun last _ _ carried => ?_
        refine hreads.carryOut hwork.target (fun isCopy => ?_) carried
        rw [Table.IsCopy, hcontext] at isCopy
        rw [hcontext]
        exact hholds isCopy
      refine hstep.bind sound fun _ after hmoved hsound hreads => ?_
      refine ih after hsound (hmoved.depth ▸ running) (fun other member => ?_) hreads
      exact (below other (.tail work member)).imp_left fun old => old.mono hmoved.size_le

/-- When all queued work is carried out, every type of the copies was read. -/
theorem moves_drainQueue (reads : ReadsTypes reading substitute) (substitutes : SubstitutesAlways substitute)
    (name : Name) (passes : Nat) :
    ∀ table, (Regime.copying base floor).Sound table → table.templates.depth ≠ 0 →
      (∀ work ∈ table.templates.queue, base ≤ work.target.index) → table.Reads reading position [] →
      MovesAt (.copying base floor) (drainQueue substitute name passes)
        (fun after _ => after.Reads reading position [] ∧ after.templates.queue = []) table := by
  induction passes with
  | zero =>
      intro table sound running fresh holds
      refine .read ?_
      split
      · rename_i hempty
        exact .pure ⟨holds, List.isEmpty_iff.mp hempty⟩
      · exact .fail (by simp)
  | succ passes ih =>
      intro table sound running fresh holds
      unfold drainQueue
      refine .read ?_
      split
      · rename_i hempty
        exact .pure ⟨holds, List.isEmpty_iff.mp hempty⟩
      · -- A pass works on the queue it found, and the queue that it leaves starts out empty.
        have hemptied : MovesAt (.copying base floor)
            (set { table with templates := { table.templates with queue := [] } })
            (fun after _ => after = { table with templates := { table.templates with queue := [] } })
            table := by
          refine .of_ok rfl (moves_templates ⟨sound.work.contexts, ?_⟩ (fun _ _ => rfl) ?_ ?_ rfl
            running) rfl
          · exact fun work member => absurd member List.not_mem_nil
          · intro work queued old
            have hfresh := fresh work queued
            exact absurd old (Nat.not_lt_of_le hfresh)
          · exact fun work member => absurd member List.not_mem_nil
        refine hemptied.bind sound ?_
        rintro - emptied hmoved hsound rfl
        have hcarried : Table.Reads reading position table.templates.queue
            { table with templates := { table.templates with queue := [] } } :=
          holds.of_queue (by simp)
        refine (moves_finishAll reads substitutes table.templates.queue _ hsound running
          (fun work member => ⟨sound.work.queue work member, fresh work member⟩) hcarried).bind hsound ?_
        intro _ after hlater hafter hreads
        refine ih after hafter (hlater.depth ▸ running) (fun work queued => ?_) hreads
        exact (hlater.changes.news queued).resolve_left List.not_mem_nil

end Drain

/-- A complete copy leaves no queued work. -/
theorem moves_completeCopy {inst : Instantiator} {bound : Nat}
    (makes : ∀ base floor, MakesInstances (.copying base floor) inst)
    (reads : ∀ eager, ReadsTypes reading (substituter inst bound eager))
    (template : SymbolId) {args : List Descriptor} (name : Name) (passes : Nat) {base floor : Nat}
    (sound : (Regime.copying base floor).Sound table) (running : table.templates.depth ≠ 0)
    (calm : table.templates.queue = []) (given : ∀ arg ∈ args, arg.Below table.size)
    (news : Lacks (table.symbol template).instances args) :
    MovesAt (.copying base floor) (completeCopy inst bound template args name passes)
      (fun after made => CopiedAs reading template args table made after ∧ after.templates.queue = [])
      table := by
  refine MovesAt.mono ?_ (Regime.allows_copying sound.base_le sound.floor_le)
  have hsubstitutes : SubstitutesAlways (substituter inst bound true) :=
    fun base floor => moves_substituter (makes base floor) bound true
  refine (moves_copyTemplate (reads false) bound template sound.tight running given news).bind
    sound.tight ?_
  intro made middle hmoved hsound hcopied
  have hfresh : ∀ work ∈ middle.templates.queue, table.size ≤ work.target.index := by
    intro work queued
    refine (hmoved.changes.news queued).resolve_left fun old => ?_
    rw [calm] at old
    cases old
  -- What was copied is out of reach from now on.
  have hguarded : (Regime.copying table.size (table.templates.contexts.size + 1)).Sound middle :=
    ⟨hsound.represented, hsound.work, hsound.running, hmoved.size_le, hcopied.reads.lt⟩
  have hdrained := moves_drainQueue (reads true) hsubstitutes name passes middle hguarded
    (hmoved.depth ▸ running) hfresh hcopied.reads
  have hkept : MovesAt (.copying table.size (table.templates.contexts.size + 1))
      (drainQueue (substituter inst bound true) name passes)
      (fun after _ => CopiedAs reading template args table made after ∧ after.templates.queue = []) middle := by
    refine hdrained.weaken fun after _ hlater ⟨hreads, hempty⟩ => ?_
    have hcontext := Table.copyContext_eq (hlater.changes.contexts (Nat.lt_succ_self _))
    refine ⟨⟨hreads, hcopied.first, fun id isCopy => ?_, ?_⟩, hempty⟩
    · rw [Table.IsCopy, hcontext] at isCopy
      exact (hcopied.fresh id isCopy).imp_right fun lt => Nat.lt_of_lt_of_le lt hlater.size_le
    · rw [hcontext]
      exact hcopied.grown
  refine (hkept.mono (Regime.allows_copying (Nat.le_refl _) (Nat.le_succ _))).bind hsound ?_
  exact fun _ after _ _ holds => .pure holds

/-! ## Copies inside each other -/

/-- A copy inside another one does what the copy does. -/
theorem moves_nestedCopy {copy : Analysis SymbolId} (sound : regime.Sound table)
    (running : table.templates.depth ≠ 0)
    (moves : MovesAt regime copy (fun after made => made.index < after.size) table.deeper) :
    MovesAt regime (nestedCopy copy) (fun after made => made.index < after.size) table := by
  have hentered : Change regime table table.deeper := .uncounted sound rfl rfl rfl
  have hdeeper : regime.Sound table.deeper := sound.copyCounted rfl rfl
  have hleft : ∀ after, Moved regime table.deeper after → Moved regime table after.shallower := by
    intro after moved
    have hleave : Change regime after after.shallower :=
      .uncounted (moved.sound hdeeper) rfl rfl rfl
    refine ⟨(moved.changes.head hentered).tail hleave, ?_, ?_⟩
    · simp [Table.shallower, moved.depth, Table.deeper]
    · intro idle
      rw [idle] at running
      exact absurd rfl running
  cases hcopy : copy table.deeper with
  | ok made after =>
      obtain ⟨hmoved, hmade⟩ := moves.ok hcopy
      have hends : nestedCopy copy table = .ok made after.shallower := by
        rw [nestedCopy_apply, hcopy]
        rfl
      exact .of_ok hends (hleft after hmoved) hmade
  | error interrupt after =>
      cases interrupt with
      | error error =>
          obtain ⟨hmoved, hquiet⟩ := moves.error hcopy
          have hends : nestedCopy copy table = .error (.error error) after.shallower := by
            rw [nestedCopy_apply, hcopy]
            rfl
          exact .of_error hends (hleft after hmoved) hquiet
      | fault fault =>
          have hends : nestedCopy copy table = .error (.fault fault) after := by
            rw [nestedCopy_apply, hcopy]
            rfl
          exact .of_fault hends

/-- The outermost copy does what the copy does, or nothing at all. -/
theorem moves_outermostCopy {copy : Analysis SymbolId} (copies : CopiesFrom table copy)
    (idle : table.Idle) (sound : regime.Sound table)
    (moves : MovesAt regime copy (fun after made => made.index < after.size ∧ after.templates.queue = [])
      table.copyBegun) :
    MovesAt regime (outermostCopy copy) (fun after made => made.index < after.size) table := by
  have hnowork : ∀ after : Table, after.Idle → after.WorkBelow := by
    intro after hidle
    unfold Table.Idle at hidle
    constructor
    · simp [hidle]
    · simp [hidle]
  -- Nothing is out of reach among the contexts, since there are none.
  have hfloor : regime.floor = 0 := by
    have hle := sound.floor_le
    unfold Table.Idle at idle
    simpa [idle] using hle
  have hdepth : ∀ after : Table, after.Idle → after.templates.depth = table.templates.depth := by
    intro after hidle
    rw [hidle, idle]
  cases hcopy : copy table.copyBegun with
  | ok made middle =>
      obtain ⟨hmoved, hmade, hempty⟩ := moves.ok hcopy
      obtain ⟨after, hafter, hidle, hsymbols, -⟩ := outermostCopy_ok copies idle hcopy
      have hbegun : Change regime table table.copyBegun := .uncounted sound rfl rfl rfl
      have hqueue : after.templates.queue = [] := by rw [hidle]
      have hended : Change regime middle after :=
        .elsewhere hsymbols (hnowork after hidle) (by simp [hfloor]) (by simp [hempty]) (by simp [hqueue])
      refine .of_ok hafter ⟨(hmoved.changes.head hbegun).tail hended, hdepth after hidle,
        fun _ => hidle⟩ ?_
      rw [Table.size_of_symbols_eq hsymbols]
      exact hmade
  | error interrupt middle =>
      cases interrupt with
      | error error =>
          obtain ⟨-, hquiet⟩ := moves.error hcopy
          have hspent : Change regime table table.markSpent := .uncounted sound rfl rfl rfl
          exact .of_error (outermostCopy_error copies idle hcopy) (.of_change hspent rfl) hquiet
      | fault fault =>
          have hends : outermostCopy copy table = .error (.fault fault) middle := by
            rw [outermostCopy_apply, hcopy]
          exact .of_fault hends

theorem makesCopies_instantiateUncached {bound : Nat}
    (makes : ∀ base floor, MakesInstances (.copying base floor) (instantiateWithin bound))
    (base floor : Nat) :
    MakesCopies (.copying base floor) (instantiateUncached (instantiateWithin bound) bound) := by
  intro template args table sound given absent
  have hnews := lacks_of_existingInstance? absent
  have hsubstitutes : ∀ eager, SubstitutesAlways (substituter (instantiateWithin bound) bound eager) :=
    fun eager base floor => moves_substituter (makes base floor) bound eager
  rcases sound.running with idle | running
  · have hcopies := copiesFrom_completeCopy bound template args table (table.symbol template).name
      table.config.passLimit
    have hbegun : (Regime.copying base floor).Sound table.copyBegun := sound.copyCounted rfl rfl
    have hcalm : table.copyBegun.templates.queue = [] := by
      show table.templates.queue = []
      rw [idle]
    have hmoves := moves_completeCopy makes (fun eager => (hsubstitutes eager).reads) template
      (table.symbol template).name table.config.passLimit hbegun (Nat.succ_ne_zero _) hcalm given hnews
    rw [MovesAt, instantiateUncached_idle idle]
    exact moves_outermostCopy hcopies idle sound
      (hmoves.weaken fun _ _ _ finished => ⟨finished.1.lt_size, finished.2⟩)
  · have hdeeper : (Regime.copying base floor).Sound table.deeper := sound.copyCounted rfl rfl
    have hmoves := moves_copyTemplate (hsubstitutes false).reads bound template hdeeper
      (Nat.succ_ne_zero _) given hnews
    rw [MovesAt, instantiateUncached_nested running]
    exact moves_nestedCopy sound running (hmoves.weaken fun _ _ _ copied => copied.lt_size)

/-- Making an instance for arguments that exist moves the table as a copy may. -/
theorem makesInstances_instantiateWithin (bound : Nat) :
    ∀ base floor, MakesInstances (.copying base floor) (instantiateWithin bound) := by
  induction bound with
  | zero => exact fun base floor template args table sound given => .violated _
  | succ bound ih =>
      intro base floor
      exact moves_instantiateStep (allowsCaches_copying base floor) (ih base floor)
        (makesCopies_instantiateUncached ih base floor) bound

end Analysis

end NameBinding
