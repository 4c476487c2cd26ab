import NameBinding.Proofs.Symbol.Outline
import NameBinding.Proofs.Template.ReadNames

/-!
# Copies under way

A template is copied in a table `origin`, and the copy has come to another table.  What there was in `origin` has
stayed, and every type of a copy waits to be read or stands where it belongs, as it was read.  A base is read as a
type, too; then the class behind that type takes its place, as it is found in the table of that moment.

* `PartRead`: what stands in the place of a type that was read.
* `CopyUnderway`: what holds in every table that a copy comes to.
* `CopyUnderway.inner`, `CopyUnderway.enrich`, `CopyUnderway.record` and `CopyUnderway.link`: instances are made in
  between, copies get parts, declarations are copied, and the copies are linked.

The main statement is `CopyUnderway.finish`: a type is read, and is put into its place or left for later.
-/

namespace NameBinding

/-- The symbol stands for itself: it is neither linked to another declaration nor a typedef. -/
structure Table.IsItself (table : Table) (id : SymbolId) : Prop where
  unlinked : table.nextLink id = none
  noTypedef : (table.symbol id).type.isTypedef = false

theorem Table.IsItself.classOf_eq {table : Table} {id : SymbolId} (itself : table.IsItself id) :
    table.classOf id = id := by
  rw [classOf, canonical_of_nextLink_none itself.unlinked]
  simp [itself.noTypedef]

/-- A copy that began in `origin` went through the table `seen` on its way to `now`. -/
structure Table.WentThrough (origin now : Table) (position : Nat) (seen : Table) : Prop where
  before : Changes (.copying origin.size position) origin seen
  after : Changes (.copying origin.size position) seen now

/-- What stands in a place once its type was read: the type, or the class that it names.  The class is looked up in
the table of that moment; a copy of a declaration that stands for itself is found itself. -/
inductive Placed (origin now : Table) (position : Nat) (context : CopyContext) (read : Descriptor) :
    DeferredPart → Descriptor → Prop where
  | type : Placed origin now position context read .type read
  | returnType : Placed origin now position context read .returnType read
  | base {index : Nat} {link : SymbolId} {seen : Table} (linked : read.link = some link)
      (lt : link.index < seen.size) (through : origin.WentThrough now position seen)
      (itself : ∀ source, (source, link) ∈ context.copies → origin.IsItself source → seen.classOf link = link) :
      Placed origin now position context read (.parent index) (.ofSymbol (seen.classOf link))

/-- In a place of a copy there is what the type in this place of its source was read as. -/
structure PartRead (origin now : Table) (position : Nat) (context : CopyContext) (pair : SymbolId × SymbolId)
    (part : DeferredPart) (current : Descriptor) : Prop where
  read : ∃ given read, (origin.symbol pair.1).typeAt part = some given ∧
    TypeRead origin now context pair.2 given read ∧ Placed origin now position context read part current

section Later

variable {origin now next : Table} {position : Nat} {context : CopyContext} {pair : SymbolId × SymbolId}
  {part : DeferredPart} {read current : Descriptor}

theorem Placed.mono (placed : Placed origin now position context read part current)
    (changes : Changes (.copying origin.size position) now next) :
    Placed origin next position context read part current := by
  cases placed with
  | type => exact .type
  | returnType => exact .returnType
  | base linked lt through itself => exact .base linked lt ⟨through.before, through.after.trans changes⟩ itself

/-- One more declaration is copied.  Its copy is younger than everything that was read before. -/
theorem Placed.record (placed : Placed origin now position context read part current) {source made : SymbolId}
    (new : now.size ≤ made.index) :
    Placed origin now position { context with copies := (source, made) :: context.copies } read part current := by
  cases placed with
  | type => exact .type
  | returnType => exact .returnType
  | base linked lt through itself =>
      refine .base linked lt through fun other member => ?_
      rcases List.mem_cons.mp member with same | old
      · cases same
        have hle := through.after.size_le
        omega
      · exact itself other old

theorem PartRead.mono (partRead : PartRead origin now position context pair part current)
    (changes : Changes (.copying origin.size position) now next) :
    PartRead origin next position context pair part current := by
  obtain ⟨given, read, has, htype, hplaced⟩ := partRead.read
  exact ⟨given, read, has, htype.mono changes, hplaced.mono changes⟩

theorem PartRead.record (partRead : PartRead origin now position context pair part current)
    {source made : SymbolId} (younger : pair.2.index < made.index) (new : now.size ≤ made.index) :
    PartRead origin now position { context with copies := (source, made) :: context.copies } pair part current := by
  obtain ⟨given, read, has, htype, hplaced⟩ := partRead.read
  exact ⟨given, read, has, htype.record younger, hplaced.record new⟩

end Later

/-! ## A copy under way -/

/-- What holds in every table that a copy comes to whose context was `begun`.  The types in `busy` are being read. -/
structure CopyUnderway (origin : Table) (position : Nat) (begun : CopyContext) (busy : List DeferredWork)
    (now : Table) : Prop where
  sound : (Regime.copying origin.size position).Sound now
  changes : Changes (.copying origin.size position) origin now
  running : now.templates.depth ≠ 0
  lt : position < now.templates.contexts.size
  templated : (now.copyContext position).templated = begun.templated
  grown : begun.Grown (now.copyContext position)
  first : ∃ made, (begun.templated, made) ∈ begun.copies
  sources : ∀ pair ∈ (now.copyContext position).copies, pair.1.index < origin.size
  unique : ∀ a ∈ (now.copyContext position).copies, ∀ b ∈ (now.copyContext position).copies, a.2 = b.2 → a.1 = b.1
  typedefs : ∀ pair ∈ (now.copyContext position).copies,
    (now.symbol pair.2).type.isTypedef = (origin.symbol pair.1).type.isTypedef
  unlinked : ∀ pair ∈ (now.copyContext position).copies, origin.nextLink pair.1 = none →
    now.nextLink pair.2 = none
  read : ∀ pair ∈ (now.copyContext position).copies, ∀ part current,
    (now.symbol pair.2).typeAt part = some current →
      now.Waits busy pair.2 part ∨ PartRead origin now position (now.copyContext position) pair part current
  works : ∀ work ∈ now.templates.queue ++ busy, ∀ source, (source, work.target) ∈ (now.copyContext position).copies →
    work.context = position ∧ (origin.symbol source).typeAt work.part = some work.type

namespace CopyUnderway

variable {origin now next : Table} {position : Nat} {begun : CopyContext} {busy rest : List DeferredWork}
  {work : DeferredWork}

section Facts

variable (underway : CopyUnderway origin position begun busy now)

include underway

theorem retains : now.Retains origin := .of_changes underway.changes rfl

/-- Only symbols of the table are copies. -/
theorem lt_size {pair : SymbolId × SymbolId} (member : pair ∈ (now.copyContext position).copies) :
    pair.2.index < now.size :=
  (underway.sound.work.copyContext position).copies _ member

theorem copiesTemplated : ∃ made, ((now.copyContext position).templated, made) ∈
    (now.copyContext position).copies := by
  obtain ⟨made, member⟩ := underway.first
  exact ⟨made, underway.templated ▸ underway.grown.copies _ member⟩

/-- A copy of a declaration that stands for itself does so, too. -/
theorem isItself {source copy : SymbolId} (member : (source, copy) ∈ (now.copyContext position).copies)
    (itself : origin.IsItself source) : now.IsItself copy :=
  ⟨underway.unlinked _ member itself.unlinked, (underway.typedefs _ member).trans itself.noTypedef⟩

/-- The copy has come to another table in which the same has been copied. -/
theorem of_moved (moved : Moved (.copying origin.size position) now next)
    (lt : position < next.templates.contexts.size)
    (same : next.copyContext position = now.copyContext position)
    (typedefs : ∀ pair ∈ (now.copyContext position).copies,
      (next.symbol pair.2).type.isTypedef = (now.symbol pair.2).type.isTypedef)
    (unlinked : ∀ pair ∈ (now.copyContext position).copies, origin.nextLink pair.1 = none →
      now.nextLink pair.2 = none → next.nextLink pair.2 = none)
    (read : ∀ pair ∈ (now.copyContext position).copies, ∀ part current,
      (next.symbol pair.2).typeAt part = some current →
        next.Waits rest pair.2 part ∨
        ((now.symbol pair.2).typeAt part = some current ∧
          (now.Waits busy pair.2 part → next.Waits rest pair.2 part)) ∨
        PartRead origin next position (now.copyContext position) pair part current)
    (works : ∀ work ∈ next.templates.queue ++ rest, ∀ source,
      (source, work.target) ∈ (now.copyContext position).copies → work ∈ now.templates.queue ++ busy ∨
        work.context = position ∧ (origin.symbol source).typeAt work.part = some work.type) :
    CopyUnderway origin position begun rest next where
  sound := moved.sound underway.sound
  changes := underway.changes.trans moved.changes
  running := moved.depth ▸ underway.running
  lt := lt
  templated := same ▸ underway.templated
  grown := same ▸ underway.grown
  first := underway.first
  sources := same ▸ underway.sources
  unique := same ▸ underway.unique
  typedefs := by
    rw [same]
    exact fun pair member => (typedefs pair member).trans (underway.typedefs pair member)
  unlinked := by
    rw [same]
    exact fun pair member itself => unlinked pair member itself (underway.unlinked pair member itself)
  read := by
    rw [same]
    intro pair member part current has
    rcases read pair member part current has with waits | ⟨before, keeps⟩ | done
    · exact .inl waits
    · exact (underway.read pair member part current before).imp keeps fun done => done.mono moved.changes
    · exact .inr done
  works := by
    rw [same]
    intro work waiting source member
    rcases works work waiting source member with old | new
    · exact underway.works work old source member
    · exact new

/-- Whatever leaves everything older alone, such as making an instance, leaves the copies alone. -/
theorem inner (moved : Moved (.copying now.size now.templates.contexts.size) now next) :
    CopyUnderway origin position begun busy next := by
  -- All copies are there already, so that what is made now is younger than each of them.
  have hguards := moved.changes.guards rfl rfl
  have hretains : next.Retains now := .of_changes moved.changes rfl
  have hcontext := hguards.contexts position underway.lt
  refine underway.of_moved (moved.mono (Regime.allows_copying underway.sound.base_le underway.sound.floor_le)) ?_
    (Table.copyContext_eq hcontext) (fun pair member => ?_) (fun pair member _ unlinked => ?_)
    (fun pair member part current has => ?_) fun work waiting source member => ?_
  · rw [Array.getElem?_eq_getElem underway.lt] at hcontext
    exact (Array.getElem?_eq_some_iff.mp hcontext).1
  · rw [(hretains.symbols _ (underway.lt_size member)).type]
  · have hsymbol := hretains.symbols _ (underway.lt_size member)
    rw [Table.nextLink_of_symbol_eq hsymbol.aliasOf hsymbol.forwardTarget, unlinked]
  · rw [(hretains.symbols _ (underway.lt_size member)).typeAt_eq] at has
    refine .inr (.inl ⟨has, ?_⟩)
    rintro ⟨work, waiting, target, same⟩
    refine ⟨work, ?_, target, same⟩
    rcases List.mem_append.mp waiting with queued | carried
    · exact List.mem_append_left _ (hguards.waits work queued (target ▸ underway.lt_size member))
    · exact List.mem_append_right _ carried
  · refine .inl ?_
    rcases List.mem_append.mp waiting with queued | carried
    · have hlt : work.target.index < now.size := underway.lt_size member
      refine List.mem_append_left _ ((hguards.news work queued).resolve_right fun new => ?_)
      omega
    · exact List.mem_append_right _ carried

/-- An edit of one symbol, after which each place of this symbol waits, or is as it was, or has been read. -/
theorem of_edit (moved : Moved (.copying origin.size position) now next) {id : SymbolId} {edit : Edit}
    (symbols : next.symbols = now.symbols.modify id.index edit.apply) (templates : next.templates = now.templates)
    (linkless : edit.IsLinkless)
    (typedefs : ∀ source, (source, id) ∈ (now.copyContext position).copies →
      (edit.apply (now.symbol id)).type.isTypedef = (now.symbol id).type.isTypedef)
    (waits : ∀ pair ∈ (now.copyContext position).copies, pair.2 ≠ id → ∀ part, now.Waits busy pair.2 part →
      now.Waits rest pair.2 part)
    (read : ∀ source, (source, id) ∈ (now.copyContext position).copies → ∀ part current,
      (edit.apply (now.symbol id)).typeAt part = some current →
        now.Waits rest id part ∨
        ((now.symbol id).typeAt part = some current ∧ (now.Waits busy id part → now.Waits rest id part)) ∨
        PartRead origin now position (now.copyContext position) (source, id) part current)
    (works : ∀ work ∈ rest, ∀ source, (source, work.target) ∈ (now.copyContext position).copies → work ∈ busy ∨
      work.context = position ∧ (origin.symbol source).typeAt work.part = some work.type) :
    CopyUnderway origin position begun rest next := by
  have hwaits : ∀ {id part}, now.Waits rest id part → next.Waits rest id part := by
    rintro id part waits
    rwa [Table.Waits, templates]
  refine underway.of_moved moved (templates ▸ underway.lt) (Table.copyContext_eq (by rw [templates]))
    (fun pair member => ?_) (fun pair member _ unlinked => ?_) (fun pair member part current has => ?_)
    fun work waiting source member => ?_
  · rw [Table.symbol_of_modify symbols]
    split
    · rename_i same
      obtain ⟨rfl, -⟩ := same
      exact typedefs pair.1 member
    · rfl
  · rw [Table.nextLink_of_edit linkless symbols, unlinked]
  · rw [Table.symbol_of_modify symbols] at has
    by_cases same : id = pair.2
    · subst same
      rw [if_pos ⟨rfl, underway.lt_size member⟩] at has
      rcases read pair.1 member part current has with waits | ⟨before, keeps⟩ | done
      · exact .inl (hwaits waits)
      · exact .inr (.inl ⟨before, fun waits => hwaits (keeps waits)⟩)
      · exact .inr (.inr (done.mono moved.changes))
    · rw [if_neg fun both => same both.1] at has
      exact .inr (.inl ⟨has, fun before => hwaits (waits pair member (Ne.symm same) part before)⟩)
  · rw [templates] at waiting
    rcases List.mem_append.mp waiting with queued | carried
    · exact .inl (List.mem_append_left _ queued)
    · exact (works work carried source member).imp_left (List.mem_append_right _)

/-- A copy gets a part, or its scope. -/
theorem enrich (moved : Moved (.copying origin.size position) now next) {id : SymbolId} {edit : Edit}
    (symbols : next.symbols = now.symbols.modify id.index edit.apply) (templates : next.templates = now.templates)
    (part : edit.IsPart) (noBase : ∀ link, edit ≠ .append (.parent link)) :
    CopyUnderway origin position begun busy next := by
  refine underway.of_edit moved symbols templates part.isLinkless (fun source _ => ?_) (fun _ _ _ _ waits => waits)
    (fun source _ place current has => ?_) fun work carried _ _ => .inl carried
  · rw [(Edit.types_apply part _).1]
  · rw [Edit.typeAt_part part noBase] at has
    exact .inr (.inl ⟨has, fun waits => waits⟩)

/-- A copy gets one more place for a type, which is about to be read. -/
theorem await (moved : Moved (.copying origin.size position) now next) {edit : Edit}
    (symbols : next.symbols = now.symbols.modify work.target.index edit.apply)
    (templates : next.templates = now.templates) (linkless : edit.IsLinkless)
    (typeKept : (edit.apply (now.symbol work.target)).type = (now.symbol work.target).type)
    (places : ∀ place found, (edit.apply (now.symbol work.target)).typeAt place = some found →
      place = work.part ∨ (now.symbol work.target).typeAt place = some found)
    (works : ∀ source, (source, work.target) ∈ (now.copyContext position).copies →
      work.context = position ∧ (origin.symbol source).typeAt work.part = some work.type) :
    CopyUnderway origin position begun (work :: busy) next := by
  refine underway.of_edit moved symbols templates linkless (fun source _ => by rw [typeKept])
    (fun _ _ _ _ waits => waits.carry) (fun source member place current has => ?_) fun other carried source member => ?_
  · rcases places place current has with rfl | before
    · exact .inl ⟨work, by simp, rfl, rfl⟩
    · exact .inr (.inl ⟨before, .carry⟩)
  · rcases List.mem_cons.mp carried with rfl | before
    · exact .inr (works source member)
    · exact .inl before

end Facts

end CopyUnderway

/-! ## Finished types -/

namespace Analysis

variable {origin now next : Table} {position : Nat} {target : SymbolId} {part : DeferredPart} {type : Descriptor}

/-- A type that was read is put into its place, unless the class behind it stands there already. -/
theorem puts_of_applySubstitution (context : CopyContext)
    (changes : Changes (.copying origin.size position) origin now) (below : type.Below now.size)
    (itself : ∀ source link, (source, link) ∈ context.copies → origin.IsItself source → now.classOf link = link)
    (ends : applySubstitution target part type now = .ok () next) :
    ∃ current, Placed origin now position context type part current ∧
      ((next = now ∧ (now.symbol target).typeAt part = some current) ∨
        ∃ edit : Edit, edit.Puts part current ∧ next = now.perform target edit) := by
  rw [applySubstitution, get_bind] at ends
  cases part with
  | type =>
      cases ends
      exact ⟨type, .type, .inr ⟨_, .type type, rfl⟩⟩
  | returnType =>
      dsimp only at ends
      rw [setReturnType, get_bind] at ends
      split at ends
      · cases ends
      · split at ends
        · cases ends
          exact ⟨type, .returnType, .inr ⟨_, .returnType type, rfl⟩⟩
        · cases ends
  | parent index =>
      dsimp only at ends
      cases hlink : type.link with
      | none => rw [hlink] at ends; cases ends
      | some link =>
          rw [hlink] at ends
          have hplaced : Placed origin now position context type (.parent index) (.ofSymbol (now.classOf link)) :=
            .base hlink (below.link hlink) ⟨changes, .refl⟩ fun source member => itself source link member
          refine ⟨_, hplaced, ?_⟩
          dsimp only at ends
          split at ends
          · rename_i stands
            cases ends
            obtain ⟨base, hbase, hparent⟩ := Option.map_eq_some_iff.mp stands
            exact .inl ⟨rfl, by simp [Symbol.typeAt, hbase, hparent]⟩
          · rw [setParent, get_bind] at ends
            split at ends
            · cases ends
              exact .inr ⟨_, .parent index _, rfl⟩
            · cases ends

end Analysis

/-- Without one piece of work, everything else still waits. -/
theorem Table.Waits.drop {now : Table} {work : DeferredWork} {busy : List DeferredWork} {id : SymbolId}
    {part : DeferredPart} (waits : now.Waits (work :: busy) id part)
    (others : ¬ (id = work.target ∧ part = work.part)) :
    now.Waits busy id part := by
  obtain ⟨other, waiting, rfl, rfl⟩ := waits
  refine ⟨other, ?_, rfl, rfl⟩
  rcases List.mem_append.mp waiting with queued | carried
  · exact List.mem_append_left _ queued
  · rcases List.mem_cons.mp carried with rfl | before
    · exact absurd ⟨rfl, rfl⟩ others
    · exact List.mem_append_right _ before

namespace CopyUnderway

variable {origin now next : Table} {position : Nat} {begun : CopyContext} {busy : List DeferredWork}
  {work : DeferredWork}

section Finish

variable (underway : CopyUnderway origin position begun (work :: busy) now)
  (moved : Moved (.copying origin.size position) now next)

include underway moved

/-- Work that is left for later waits in the queue. -/
theorem leave (same : next = now.enqueue work) : CopyUnderway origin position begun busy next := by
  subst same
  have hwaiting : ∀ other, other ∈ (now.enqueue work).templates.queue ++ busy ↔
      other ∈ now.templates.queue ++ work :: busy := by
    simp [Table.enqueue]
  refine underway.of_moved moved underway.lt rfl (fun _ _ => rfl) (fun _ _ _ unlinked => unlinked)
    (fun pair _ part current has => .inr (.inl ⟨has, ?_⟩)) fun other waiting _ _ => .inl ((hwaiting other).mp waiting)
  exact fun ⟨other, waiting, found⟩ => ⟨other, (hwaiting other).mpr waiting, found⟩

/-- A type that was read stands in its place. -/
theorem place {type current : Descriptor}
    (reads : ∀ source, (source, work.target) ∈ (now.copyContext position).copies →
      TypeRead origin now (now.copyContext position) work.target work.type type)
    (placed : Placed origin now position (now.copyContext position) type work.part current)
    (stands : (next = now ∧ (now.symbol work.target).typeAt work.part = some current) ∨
      ∃ edit : Edit, edit.Puts work.part current ∧ next = now.perform work.target edit) :
    CopyUnderway origin position begun busy next := by
  have hwork : ∀ source, (source, work.target) ∈ (now.copyContext position).copies →
      (origin.symbol source).typeAt work.part = some work.type := fun source member =>
    (underway.works work (by simp) source member).2
  have hread : ∀ source, (source, work.target) ∈ (now.copyContext position).copies →
      PartRead origin now position (now.copyContext position) (source, work.target) work.part current :=
    fun source member => ⟨work.type, type, hwork source member, reads source member, placed⟩
  -- A class that stands in its place already is not written again.
  rcases stands with ⟨rfl, stands⟩ | ⟨edit, puts, rfl⟩
  · refine underway.of_moved moved underway.lt rfl (fun _ _ => rfl) (fun _ _ _ unlinked => unlinked)
      (fun pair member part found has => ?_) fun other waiting _ _ => .inl ?_
    · by_cases hplace : pair.2 = work.target ∧ part = work.part
      · obtain ⟨source, target⟩ := pair
        obtain ⟨rfl, rfl⟩ := hplace
        rw [stands, Option.some.injEq] at has
        exact .inr (.inr (has ▸ hread source member))
      · exact .inr (.inl ⟨has, fun waits => waits.drop hplace⟩)
    · rcases List.mem_append.mp waiting with queued | carried
      · exact List.mem_append_left _ queued
      · exact List.mem_append_right _ (.tail _ carried)
  · refine underway.of_edit moved rfl rfl puts.isSurface.isLinkless (fun source member => ?_)
      (fun pair _ differs part waits => waits.drop fun both => differs both.1)
      (fun source member part found has => ?_) fun other carried _ _ => .inl (.tail _ carried)
    · have htypedef := underway.typedefs _ member
      have hgiven := hwork source member
      generalize work.part = part at puts placed hgiven
      cases puts with
      | type =>
          cases placed
          rw [htypedef, show (origin.symbol source).type = work.type from Option.some.inj hgiven]
          exact (reads source member).isTypedef_eq
      | returnType => rw [Edit.type_returnType]
      | parent index base => rw [(Edit.types_parent index base _).1]
    · rcases puts.typeAt has with ⟨rfl, rfl⟩ | ⟨differs, before⟩
      · exact .inr (.inr (hread source member))
      · exact .inr (.inl ⟨before, fun waits => waits.drop fun both => differs both.2⟩)

end Finish

/-- A type was read: it is put into its place, or its reading is left for later. -/
theorem finish (underway : CopyUnderway origin position begun (work :: busy) now)
    (fresh : origin.size ≤ work.target.index) (below : work.Below now.size) {ready : Option Descriptor}
    (exists_ready : Analysis.ReadyBelow now.size ready)
    (reads : ∀ source, (source, work.target) ∈ (now.copyContext position).copies → ∀ type, ready = some type →
      TypeRead origin now (now.copyContext position) work.target work.type type)
    (ends : Analysis.finishOrEnqueue work ready now = .ok () next) :
    CopyUnderway origin position begun busy next ∧ now.CarriesOut work ready next ∧
      ∀ id, (next.symbol id).outline = (now.symbol id).outline := by
  obtain ⟨hmoved, hcarried⟩ := (Analysis.moves_finishOrEnqueue
    (fun edit surface => Regime.allows_fresh fresh (.inl surface)) underway.sound underway.running below fresh
    exists_ready).ok ends
  cases ready with
  | none =>
      cases ends
      exact ⟨underway.leave hmoved rfl, hcarried, fun _ => rfl⟩
  | some type =>
      obtain ⟨current, hplaced, hstands⟩ := Analysis.puts_of_applySubstitution (now.copyContext position)
        underway.changes (exists_ready type rfl)
        (fun source link member itself => (underway.isItself member itself).classOf_eq) ends
      refine ⟨underway.place hmoved (fun source member => reads source member type rfl) hplaced hstands, hcarried,
        fun id => ?_⟩
      rcases hstands with ⟨rfl, -⟩ | ⟨edit, puts, rfl⟩
      · rfl
      · rw [Table.symbol_perform]
        split
        · exact Edit.outline_surface puts.isSurface _
        · rfl

end CopyUnderway

/-! ## Declarations that are copied -/

/-- Where copies are linked, whatever does not depend on links stays as it is. -/
theorem Table.LinksCopies.read {now next : Table} {context : CopyContext}
    (links : now.LinksCopies context context.copies next) {α : Type} (reader : Symbol → α)
    (blind : ∀ symbol target named, reader { symbol with forwardTarget := target, aliasOf := named } = reader symbol)
    (id : SymbolId) : reader (next.symbol id) = reader (now.symbol id) := by
  rcases links.cases id with ⟨source, hmember, hdiffers⟩ | hsame
  · rw [links.linked _ hmember hdiffers]
    exact blind _ _ _
  · rw [hsame]

namespace CopyUnderway

variable {origin now next : Table} {position : Nat} {begun : CopyContext}

section Copies

variable (underway : CopyUnderway origin position begun [] now)
  (moved : Moved (.copying origin.size position) now next)

include underway moved

/-- A declaration is copied for the first time, into the next symbol.  The copy is empty and linked to nothing, and
its type is about to be read. -/
theorem record {source : SymbolId} {symbol : Symbol} (old : source.index < origin.size)
    (type : symbol.type = (origin.symbol source).type)
    (payload : ∃ payload : Payload, symbol.payload = payload.shell)
    (unlinked : symbol.aliasOf = none ∧ symbol.forwardTarget = none)
    (symbols : next.symbols = now.symbols.push symbol)
    (templates : next.templates = { now.templates with
      contexts := now.templates.contexts.modify position fun context =>
        { context with copies := (source, ⟨now.size⟩) :: context.copies } }) :
    CopyUnderway origin position begun
      [{ target := ⟨now.size⟩, part := .type, type := (origin.symbol source).type, context := position }] next := by
  have hcontext := Table.copyContext_of_recorded underway.lt templates
  have hqueue : next.templates.queue = now.templates.queue := by rw [templates]
  have hnew : next.symbol ⟨now.size⟩ = symbol := by rw [Table.symbol_of_push symbols, if_pos rfl]
  have hsame : ∀ pair ∈ (now.copyContext position).copies, next.symbol pair.2 = now.symbol pair.2 := by
    intro pair member
    have hlt := underway.lt_size member
    rw [Table.symbol_of_push symbols, if_neg (by omega)]
  have hlinks := Table.nextLink_of_push symbols unlinked.1 unlinked.2
  have hunawaited : ∀ work ∈ now.templates.queue, work.target.index < now.size := fun work queued =>
    (underway.sound.work.queue work queued).target
  -- In each case below, the pair is the new one or an earlier one, whose copy is as it was.
  constructor
  case sound => exact moved.sound underway.sound
  case changes => exact underway.changes.trans moved.changes
  case running => exact moved.depth ▸ underway.running
  case lt => simpa [templates] using underway.lt
  case templated => exact hcontext ▸ underway.templated
  case grown =>
    rw [hcontext]
    exact ⟨underway.grown.bindings, fun pair member => .tail _ (underway.grown.copies pair member)⟩
  case first => exact underway.first
  case sources =>
    rw [hcontext]
    exact List.forall_mem_cons.mpr ⟨old, underway.sources⟩
  case unique =>
    rw [hcontext]
    intro a ha b hb same
    rcases List.mem_cons.mp ha with rfl | beforeA <;> rcases List.mem_cons.mp hb with rfl | beforeB
    · rfl
    · have hlt := underway.lt_size beforeB
      rw [← same] at hlt
      exact absurd hlt (Nat.lt_irrefl _)
    · have hlt := underway.lt_size beforeA
      rw [same] at hlt
      exact absurd hlt (Nat.lt_irrefl _)
    · exact underway.unique a beforeA b beforeB same
  case typedefs =>
    rw [hcontext]
    refine List.forall_mem_cons.mpr ⟨by rw [hnew, type], fun pair member => ?_⟩
    rw [hsame pair member]
    exact underway.typedefs pair member
  case unlinked =>
    rw [hcontext]
    refine List.forall_mem_cons.mpr ⟨fun _ => ?_, fun pair member itself => ?_⟩
    · rw [Table.nextLink, hnew, unlinked.1, unlinked.2]
      rfl
    · rw [hlinks]
      exact underway.unlinked pair member itself
  case read =>
    rw [hcontext]
    refine List.forall_mem_cons.mpr ⟨fun part current has => ?_, fun pair member part current has => ?_⟩
    · -- The only type of the copy is the one that is about to be read.
      obtain ⟨payload, hpayload⟩ := payload
      by_cases htype : part = .type
      · exact .inl ⟨_, List.mem_append_right _ (List.mem_singleton.mpr rfl), rfl, htype.symm⟩
      · rw [hnew, Symbol.typeAt_of_shell hpayload htype] at has
        cases has
    · rw [hsame pair member] at has
      refine (underway.read pair member part current has).imp (fun waits => ?_) fun done => ?_
      · rw [Table.Waits, hqueue]
        exact waits.carry
      · exact (done.record (underway.lt_size member) (Nat.le_refl _)).mono moved.changes
  case works =>
    rw [hcontext, hqueue]
    intro work waiting other member
    rcases List.mem_append.mp waiting with queued | carried
    · rcases List.mem_cons.mp member with same | before
      · have hlt := hunawaited work queued
        rw [(Prod.mk.inj same).2] at hlt
        exact absurd hlt (Nat.lt_irrefl _)
      · exact underway.works work (by simpa using queued) other before
    · obtain rfl := List.mem_singleton.mp carried
      rcases List.mem_cons.mp member with same | before
      · rw [(Prod.mk.inj same).1]
        exact ⟨rfl, rfl⟩
      · exact absurd (underway.lt_size before) (Nat.lt_irrefl _)

/-- The copies are linked among each other as their sources are. -/
theorem link (copies : now.Copies origin.size (now.copyContext position))
    (links : now.LinksCopies (now.copyContext position) (now.copyContext position).copies next) :
    CopyUnderway origin position begun [] next := by
  refine underway.of_moved moved (links.templates_eq ▸ underway.lt)
    (Table.copyContext_eq (by rw [links.templates_eq])) (fun pair member => ?_) (fun pair member itself unlinked => ?_)
    (fun pair member part current has => ?_) fun work waiting _ _ => .inl (by rwa [links.templates_eq] at waiting)
  · rw [links.read (·.type) fun _ _ _ => rfl]
  · by_cases htemplated : pair.1 = (now.copyContext position).templated
    · rw [links.nextLink_others fun other hother same =>
        (copies.unique other hother pair member same).trans htemplated, unlinked]
    · -- What the source is linked to, if anything, is the source itself.
      have hsource := underway.retains.symbols pair.1 (underway.sources pair member)
      rw [Table.nextLink, ← hsource.aliasOf, ← hsource.forwardTarget, Option.filter_eq_none_iff] at itself
      rw [links.nextLink_linked member htemplated, Option.filter_eq_none_iff]
      intro target htarget
      obtain ⟨named, hnamed, rfl⟩ := Option.map_eq_some_iff.mp htarget
      have hnamed : named = pair.1 := by simpa using itself named hnamed
      rw [hnamed, Table.LinksCopies.copyOf_eq copies member]
      simp
  · rw [links.read (·.typeAt part) fun symbol _ _ => by cases part <;> rfl] at has
    refine .inr (.inl ⟨has, ?_⟩)
    rintro ⟨work, waiting, found⟩
    exact ⟨work, by rwa [links.templates_eq], found⟩

end Copies

end CopyUnderway

end NameBinding
