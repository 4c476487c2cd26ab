import NameBinding.Proofs.Template.UnderwayCopies

/-!
# Copies mirror their sources

A declaration is copied list by list, and what stands in its lists is copied when it is reached.  So when the parts
of a declaration have been copied, its copy has the same outline, with a copy for each part, and so has every copy
that was made on the way.

* `Mirrors`: the copy has the outline of its source, and its parts are the copies of the source's parts.
* `Advances`: between two tables of a copy, only what is touched gets another outline, and new copies mirror their
  sources.
* `advances_forM` and `advances_copyEach`: a list of parts is copied one by one.

The main statement is `mirrors_copyContents`.
-/

namespace NameBinding

/-- The copy has the outline of its source, and its parts are the copies of the source's parts, in their order. -/
structure Mirrors (copies : List (SymbolId × SymbolId)) (source copy : Outline) : Prop where
  name : copy.name = source.name
  access : copy.access = source.access
  kind : copy.kind = source.kind
  parameters : List.Forall₂ (fun part image => (part, image) ∈ copies) source.parameters copy.parameters
  contents : List.Forall₂ (fun part image => (part, image) ∈ copies) source.contents copy.contents
  constructors : List.Forall₂ (fun part image => (part, image) ∈ copies) source.constructors copy.constructors
  conversions : List.Forall₂ (fun part image => (part, image) ∈ copies) source.conversions copy.conversions
  bases : copy.bases = source.bases
  nominated : copy.nominated = source.nominated

theorem Mirrors.mono {copies more : List (SymbolId × SymbolId)} {source copy : Outline}
    (mirrors : Mirrors copies source copy) (sub : ∀ pair ∈ copies, pair ∈ more) : Mirrors more source copy where
  name := mirrors.name
  access := mirrors.access
  kind := mirrors.kind
  parameters := mirrors.parameters.imp fun _ _ => sub _
  contents := mirrors.contents.imp fun _ _ => sub _
  constructors := mirrors.constructors.imp fun _ _ => sub _
  conversions := mirrors.conversions.imp fun _ _ => sub _
  bases := mirrors.bases
  nominated := mirrors.nominated

/-- Between two tables of one copy, no copy is lost, only what is touched gets another outline, and every new copy
mirrors its source. -/
structure Advances (origin : Table) (position : Nat) (touched : SymbolId → Prop) (now next : Table) : Prop where
  size_le : now.size ≤ next.size
  copies : ∀ pair ∈ (now.copyContext position).copies, pair ∈ (next.copyContext position).copies
  others : ∀ id : SymbolId, id.index < now.size → ¬ touched id → (next.symbol id).outline = (now.symbol id).outline
  news : ∀ pair ∈ (next.copyContext position).copies, pair ∈ (now.copyContext position).copies ∨
    now.size ≤ pair.2.index ∧ pair.2.index < next.size ∧
      Mirrors (next.copyContext position).copies (origin.symbol pair.1).outline (next.symbol pair.2).outline

namespace Advances

variable {origin now next last : Table} {position : Nat} {touched : SymbolId → Prop}

theorem refl (now : Table) : Advances origin position touched now now :=
  ⟨Nat.le_refl _, fun _ member => member, fun _ _ _ => rfl, fun _ member => .inl member⟩

/-- Nothing new was copied. -/
theorem of_outlines (size_le : now.size ≤ next.size) (same : next.copyContext position = now.copyContext position)
    (outlines : ∀ id : SymbolId, id.index < now.size → ¬ touched id →
      (next.symbol id).outline = (now.symbol id).outline) : Advances origin position touched now next :=
  ⟨size_le, fun _ member => same ▸ member, outlines, fun _ member => .inl (same ▸ member)⟩

theorem mono {more : SymbolId → Prop} (advances : Advances origin position touched now next)
    (implies : ∀ id, touched id → more id) : Advances origin position more now next :=
  { advances with others := fun id lt untouched => advances.others id lt fun touches => untouched (implies id touches) }

/-- What is touched was there at the beginning. -/
theorem trans (first : Advances origin position touched now next) (second : Advances origin position touched next last)
    (old : ∀ id, touched id → id.index < now.size) : Advances origin position touched now last where
  size_le := Nat.le_trans first.size_le second.size_le
  copies := fun pair member => second.copies pair (first.copies pair member)
  others := fun id lt untouched =>
    (second.others id (Nat.lt_of_lt_of_le lt first.size_le) untouched).trans (first.others id lt untouched)
  news := by
    intro pair member
    -- What was copied first is not touched later, as only older symbols are.
    rcases second.news pair member with before | ⟨ge, lt, mirrors⟩
    · refine (first.news pair before).imp_right fun ⟨ge, lt, mirrors⟩ => ?_
      have huntouched : ¬ touched pair.2 := fun touches => by
        have hlt := old pair.2 touches
        omega
      refine ⟨ge, Nat.lt_of_lt_of_le lt second.size_le, ?_⟩
      rw [second.others pair.2 lt huntouched]
      exact mirrors.mono second.copies
    · exact .inr ⟨Nat.le_trans first.size_le ge, lt, mirrors⟩

end Advances

/-- Between two tables of one copy, nothing is copied, and every symbol has the outline that it had. -/
structure KeepsOutlines (position : Nat) (now next : Table) : Prop where
  size_le : now.size ≤ next.size
  context : next.copyContext position = now.copyContext position
  outlines : ∀ id : SymbolId, id.index < now.size → (next.symbol id).outline = (now.symbol id).outline

namespace KeepsOutlines

variable {now next last : Table} {position : Nat}

theorem refl (position : Nat) (now : Table) : KeepsOutlines position now now :=
  ⟨Nat.le_refl _, rfl, fun _ _ => rfl⟩

theorem trans (first : KeepsOutlines position now next) (second : KeepsOutlines position next last) :
    KeepsOutlines position now last where
  size_le := Nat.le_trans first.size_le second.size_le
  context := second.context.trans first.context
  outlines := fun id lt => (second.outlines id (Nat.lt_of_lt_of_le lt first.size_le)).trans (first.outlines id lt)

theorem advances {origin : Table} {touched : SymbolId → Prop} (keeps : KeepsOutlines position now next) :
    Advances origin position touched now next :=
  .of_outlines keeps.size_le keeps.context fun id lt _ => keeps.outlines id lt

end KeepsOutlines

/-! ## A copy that goes on -/

/-- A copy is under way, and parts are being copied. -/
structure Ongoing (origin : Table) (position : Nat) (begun : CopyContext) (busy : List DeferredWork) (now : Table) :
    Prop where
  underway : CopyUnderway origin position begun busy now
  filling : now.Filling .any origin.size position begun busy

namespace Ongoing

variable {origin now next : Table} {position : Nat} {begun : CopyContext} {busy : List DeferredWork}
  {source copy : SymbolId}

/-- A copy is younger than what there was when the copying began. -/
theorem fresh (ongoing : Ongoing origin position begun busy now)
    (member : (source, copy) ∈ (now.copyContext position).copies) :
    origin.size ≤ copy.index ∧ copy.index < now.size :=
  ongoing.filling.fresh ⟨source, member⟩

/-- A copy gets a part that is a copy, or a scope. -/
theorem edit (ongoing : Ongoing origin position begun [] now) {id : SymbolId} {edit : Edit}
    (fresh : origin.size ≤ id.index) (part : edit.IsPart) (noBase : ∀ link, edit ≠ .append (.parent link))
    (isCopy : ∀ new, edit.newPart? = some new → now.IsCopy position new)
    (within : Within now.size edit.mentions)
    (named : ∀ name member, edit = .insertMember name member → (now.symbol member).name = name)
    (symbols : next.symbols = now.symbols.modify id.index edit.apply) (templates : next.templates = now.templates) :
    Ongoing origin position begun [] next := by
  have hchange : Change (.copying origin.size position) now next :=
    .edit id edit (Regime.allows_fresh fresh (.inr part)) symbols templates within named (part.isNews _)
  exact ⟨ongoing.underway.enrich (.of_change hchange templates) symbols templates part noBase,
    ongoing.filling.edit ongoing.underway.sound.base_le fresh part isCopy symbols templates⟩

end Ongoing

/-- An edit touches one symbol at most. -/
theorem Advances.of_edit {origin now next : Table} {position : Nat} {touched : SymbolId → Prop} {id : SymbolId}
    {edit : Edit} (symbols : next.symbols = now.symbols.modify id.index edit.apply)
    (templates : next.templates = now.templates)
    (outline : ¬ touched id → ∀ symbol, (edit.apply symbol).outline = symbol.outline) :
    Advances origin position touched now next := by
  refine .of_outlines (Nat.le_of_eq (Table.size_of_modify symbols).symm)
    (Table.copyContext_eq (by rw [templates])) fun other _ untouched => ?_
  rw [Table.symbol_of_modify symbols]
  split
  · rename_i same
    exact outline (same.1 ▸ untouched) _
  · rfl

namespace Analysis

variable {origin now next : Table} {position : Nat} {begun : CopyContext} {busy : List DeferredWork}
  {source copy : SymbolId} {touched : SymbolId → Prop}

/-- In a copy that began in `origin`, the substituter reads the types of the templated declaration name by name. -/
structure ReadsNames (origin : Table) (substitute : Substituter) : Prop where
  moves : SubstitutesAlways substitute
  reads : ∀ {base floor position type now result next} (copy : SymbolId), (Regime.copying base floor).Sound now →
    now.templates.depth ≠ 0 → position < now.templates.contexts.size → now.Retains origin →
    (∃ made, ((now.copyContext position).templated, made) ∈ (now.copyContext position).copies) →
    type.Below origin.size → substitute position type now = .ok (some result) next →
    TypeRead origin next (now.copyContext position) copy type result

theorem readsNames_substituter (represented : origin.Represented) (bound depth : Nat) (eager : Bool) :
    ReadsNames origin (substituter (instantiateWithin bound) depth eager) where
  moves := fun base floor => moves_substituter (makesInstances_instantiateWithin bound base floor) depth eager
  reads := fun _ sound running lt retains copies below ends =>
    typeRead_of_substituter represented sound running lt retains copies below ends

/-- What is put into its place, or left for later, is left to the same contexts. -/
theorem contexts_of_carriesOut {work : DeferredWork} {ready : Option Descriptor}
    (carried : now.CarriesOut work ready next) : next.templates.contexts = now.templates.contexts := by
  cases ready with
  | none => rw [show next = now.enqueue work from carried]; rfl
  | some type => rw [Table.FinishedAt.templates_eq carried]

theorem size_of_carriesOut {work : DeferredWork} {ready : Option Descriptor}
    (carried : now.CarriesOut work ready next) : next.size = now.size := by
  cases ready with
  | none => rw [show next = now.enqueue work from carried]; rfl
  | some type =>
      rcases Table.FinishedAt.cases carried with rfl | ⟨edit, -, rfl⟩
      · rfl
      · rw [Table.size_perform]

section Steps

variable {substitute : Substituter} (represented : origin.Represented) (reads : ReadsNames origin substitute)

include represented reads

/-- A type is read, and put into its place or left for later.  Reading it leaves everything alone that there is. -/
theorem underway_read {work : DeferredWork} (underway : CopyUnderway origin position begun (work :: busy) now)
    (below : work.Below now.size) (fresh : origin.size ≤ work.target.index)
    (ends : (do
      let substituted ← substitute work.context work.type
      finishOrEnqueue work substituted : Analysis PUnit) now = .ok ⟨⟩ next) :
    CopyUnderway origin position begun busy next ∧ KeepsOutlines position now next ∧
      ∃ ready middle, now.Guards middle ∧ middle.templates.depth = now.templates.depth ∧
        middle.CarriesOut work ready next := by
  obtain ⟨ready, middle, hread, hfinish⟩ := bind_eq_ok.mp ends
  obtain ⟨hmoved, hready⟩ := (reads.moves _ _ work.context work.type now underway.sound.tight below.type).ok hread
  have hguards := hmoved.changes.guards rfl rfl
  have hretains : middle.Retains now := .of_changes hmoved.changes rfl
  have hcontext : middle.copyContext position = now.copyContext position :=
    Table.copyContext_eq (hguards.contexts position underway.lt)
  have hreads : ∀ source, (source, work.target) ∈ (middle.copyContext position).copies → ∀ result, ready = some result →
      TypeRead origin middle (middle.copyContext position) work.target work.type result := by
    intro source member result same
    subst same
    rw [hcontext] at member ⊢
    obtain ⟨hplace, hgiven⟩ := underway.works work (by simp) source member
    rw [hplace] at hread
    exact reads.reads work.target underway.sound underway.running underway.lt underway.retains underway.copiesTemplated
      (Symbol.typeAt_below (represented.within source) hgiven) hread
  obtain ⟨hnext, hcarried, houtlines⟩ :=
    (underway.inner hmoved).finish fresh (below.mono hmoved.size_le) hready hreads hfinish
  refine ⟨hnext, ⟨?_, ?_, fun id lt => ?_⟩, ready, middle, hguards, hmoved.depth, hcarried⟩
  · rw [size_of_carriesOut hcarried]
    exact hmoved.size_le
  · rw [← hcontext]
    exact Table.copyContext_eq (by rw [contexts_of_carriesOut hcarried])
  · rw [houtlines, (hretains.symbols id lt).outline_eq]

/-- A type of a copy is read, or left for later. -/
theorem advances_substituteInto {part : DeferredPart} {type : Descriptor}
    (ongoing : Ongoing origin position begun ({ target := copy, part, type, context := position } :: busy) now)
    (member : (source, copy) ∈ (now.copyContext position).copies)
    (ends : substituteInto substitute position copy part type now = .ok () next) :
    Ongoing origin position begun busy next ∧ Advances origin position touched now next := by
  obtain ⟨underway, filling⟩ := ongoing
  obtain ⟨hfresh, hlt⟩ := filling.fresh ⟨source, member⟩
  have hgiven : (origin.symbol source).typeAt part = some type := (underway.works _
    (List.mem_append_right _ (.head _)) source member).2
  have hbelow : DeferredWork.Below now.size { target := copy, part, type, context := position } :=
    ⟨(Symbol.typeAt_below (represented.within source) hgiven).mono underway.retains.size_le, hlt⟩
  obtain ⟨hnext, hkeeps, ready, middle, hguards, hdepth, hcarried⟩ :=
    underway_read represented reads underway hbelow hfresh ends
  have hle := underway.sound.base_le
  exact ⟨⟨hnext, (filling.guards hle hguards hdepth).carryOut (Nat.le_trans hle hguards.size_le) hfresh
    (Nat.lt_of_lt_of_le hlt hguards.size_le) (fun _ _ => trivial) hcarried⟩, hkeeps.advances⟩

end Steps

/-! ## Declarations -/

/-- When the parts of a declaration have been copied into an empty copy, the copy mirrors the declaration. -/
def FillsMirrors (origin : Table) (position : Nat) (begun : CopyContext)
    (fill : SymbolId → SymbolId → Analysis Unit) : Prop :=
  ∀ source copy now next, Ongoing origin position begun
      [{ target := copy, part := .type, type := (origin.symbol source).type, context := position }] now →
    (source, copy) ∈ (now.copyContext position).copies →
    (now.symbol copy).outline = (origin.symbol source).outline.bare → fill source copy now = .ok () next →
    Ongoing origin position begun [] next ∧ Advances origin position (· = copy) now next ∧
      Mirrors (next.copyContext position).copies (origin.symbol source).outline (next.symbol copy).outline

/-- A declaration is copied, and everything that is copied with it mirrors its source. -/
def CopiesMirrors (origin : Table) (position : Nat) (begun : CopyContext) (copyPart : SymbolId → Analysis SymbolId) :
    Prop :=
  ∀ part copy now next, Ongoing origin position begun [] now → part.index < origin.size →
    copyPart part now = .ok copy next →
    Ongoing origin position begun [] next ∧ Advances origin position (fun _ => False) now next ∧
      (part, copy) ∈ (next.copyContext position).copies

/-- A declaration of the template is copied for the first time, into the next symbol. -/
theorem ongoing_recorded {shell : Symbol} {recorded : Table} (ongoing : Ongoing origin position begun [] now)
    (old : source.index < origin.size) (new : (now.copyContext position).copies.lookup source = none)
    (type : shell.type = (origin.symbol source).type) (payload : ∃ payload : Payload, shell.payload = payload.shell)
    (unlinked : shell.aliasOf = none ∧ shell.forwardTarget = none) (within : Within now.size shell.mentions)
    (ends : recordCopy position source ⟨now.size⟩ (now.allocate shell).2 = .ok () recorded) :
    recorded.symbols = now.symbols.push shell ∧ recorded.copyContext position = { now.copyContext position with
        copies := (source, ⟨now.size⟩) :: (now.copyContext position).copies } ∧
      Ongoing origin position begun
        [{ target := ⟨now.size⟩, part := .type, type := (origin.symbol source).type, context := position }]
        recorded := by
  obtain ⟨underway, filling⟩ := ongoing
  obtain ⟨held, hheld⟩ := payload
  have hblank : shell.payload.Blank := hheld ▸ Payload.shell_blank held
  obtain ⟨created, hcreated⟩ : ∃ created, (now.allocate shell).2 = created := ⟨_, rfl⟩
  rw [hcreated] at ends
  have hpushedSymbols : created.symbols = now.symbols.push shell := by rw [← hcreated]; rfl
  have hpushedTemplates : created.templates = now.templates := by rw [← hcreated]; rfl
  have hchange : Change (.copying origin.size position) now created :=
    .create shell hpushedSymbols hpushedTemplates within (.of_blank hblank _)
      (fun _ => ⟨unlinked.1, unlinked.2, Symbol.specializations_of_blank hblank⟩)
      (.inl (Symbol.unlisted_of_blank hblank))
  have hcreatedMoved : Moved (.copying origin.size position) now created := .of_change hchange hpushedTemplates
  have hlt : now.size < created.size := by
    rw [Table.size_of_push hpushedSymbols]
    omega
  have hpushed := filling.push underway.sound.base_le hpushedSymbols hpushedTemplates
  have hsymbol : created.symbol ⟨now.size⟩ = shell := by rw [Table.symbol_of_push hpushedSymbols, if_pos rfl]
  have hexists : (⟨now.size⟩ : SymbolId).index < created.size := hlt
  obtain ⟨hmoved, hsymbols, htemplates⟩ :=
    (moves_recordCopy (hcreatedMoved.sound underway.sound) hpushed.running source hexists).ok ends
  rw [hpushedSymbols] at hsymbols
  rw [hpushedTemplates] at htemplates
  have hempty := Symbol.empty_of_shell hheld
  rw [← hsymbol] at hempty
  -- Nothing waits for a symbol that was not there.
  have hunawaited : ∀ work ∈ now.templates.queue, work.target ≠ ⟨now.size⟩ := by
    intro work queued same
    have hbelow := (underway.sound.work.queue work queued).target
    rw [same] at hbelow
    exact Nat.lt_irrefl _ hbelow
  have hunlinked : created.nextLink ⟨now.size⟩ = none := by simp [Table.nextLink, hsymbol, unlinked]
  have hcontext : created.copyContext position = now.copyContext position :=
    Table.copyContext_eq (by rw [hpushedTemplates])
  refine ⟨hsymbols, Table.copyContext_of_recorded underway.lt htemplates,
    underway.record (hcreatedMoved.trans hmoved) old type ⟨held, hheld⟩ unlinked hsymbols htemplates, ?_⟩
  exact (hpushed.recordCopy old (hcontext ▸ new) ⟨underway.sound.base_le, hlt⟩ hunlinked
    (fun id isCopy => (filling.fresh (by rwa [Table.IsCopy, ← hcontext])).2) (hpushedTemplates ▸ hunawaited) hempty.1
    hempty.2 (hsymbols.trans hpushedSymbols.symm) (hpushedTemplates ▸ htemplates)).1

theorem copiesMirrors_copyMember {fill : SymbolId → SymbolId → Analysis Unit}
    (fills : FillsMirrors origin position begun fill) :
    CopiesMirrors origin position begun (copyMember fill position) := by
  intro member copy now next ongoing old ends
  rw [copyMember, get_bind] at ends
  cases hcopy : (now.copyContext position).copies.lookup member with
  | some found =>
      simp only [hcopy] at ends
      cases ends
      exact ⟨ongoing, .refl _, mem_of_lookup hcopy⟩
  | none =>
      simp only [hcopy] at ends
      generalize hshell : ({ (now.symbol member).shell with
        inTemplate := now.insideMemberTemplate member (now.copyContext position).templated } : Symbol) = shell at ends
      obtain ⟨made, created, hcreate, ends⟩ := bind_eq_ok.mp ends
      cases hcreate
      obtain ⟨_, recorded, hrecord, ends⟩ := bind_eq_ok.mp ends
      obtain ⟨_, filled, hfill, ends⟩ := bind_eq_ok.mp ends
      cases ends
      have hmember := ongoing.underway.retains.symbols member old
      have hwithin := Symbol.shell_within (ongoing.underway.sound.represented.type_below member)
        (now.insideMemberTemplate member (now.copyContext position).templated)
      rw [hshell] at hwithin
      obtain ⟨hsymbols, hcontext, hrecorded⟩ := ongoing_recorded ongoing old hcopy
        (by rw [← hshell, ← hmember.type]; rfl) ⟨_, by rw [← hshell]; rfl⟩ (by rw [← hshell]; exact ⟨rfl, rfl⟩) hwithin
        hrecord
      have hbare : (recorded.symbol ⟨now.size⟩).outline = (origin.symbol member).outline.bare := by
        rw [Table.symbol_of_push hsymbols, if_pos rfl, ← hmember.outline_eq, ← Symbol.outline_shell, ← hshell]
        rfl
      have hsize := Table.size_of_push hsymbols
      obtain ⟨hongoing, hadvances, hmirrors⟩ :=
        fills member ⟨now.size⟩ recorded next hrecorded (by rw [hcontext]; exact .head _) hbare hfill
      refine ⟨hongoing, ⟨?_, fun pair before => hadvances.copies pair ?_, fun id lt _ => ?_, fun pair before => ?_⟩,
        hadvances.copies _ (by rw [hcontext]; exact .head _)⟩
      · exact Nat.le_trans (by omega) hadvances.size_le
      · rw [hcontext]
        exact .tail _ before
      · rw [hadvances.others id (by omega) fun same => Nat.ne_of_lt lt (congrArg SymbolId.index same),
          Table.symbol_of_push hsymbols, if_neg (Nat.ne_of_lt lt)]
      · rcases hadvances.news pair before with recordedPair | ⟨ge, lt, mirrors⟩
        · rw [hcontext] at recordedPair
          rcases List.mem_cons.mp recordedPair with rfl | copied
          · exact .inr ⟨Nat.le_refl _, Nat.lt_of_lt_of_le (show now.size < recorded.size by omega) hadvances.size_le,
              hmirrors⟩
          · exact .inl copied
        · exact .inr ⟨by omega, lt, mirrors⟩

/-! ## The lists of a declaration -/

/-- A step for each element of a list adds one entry to the outline of a copy.  The entries in the end correspond to
the elements. -/
theorem advances_forM {α β : Type} {list : List α} {step : α → Analysis PUnit} (outline : List β → Outline)
    (entry : List (SymbolId × SymbolId) → α → β → Prop)
    (mono : ∀ {copies more x y}, (∀ pair ∈ copies, pair ∈ more) → entry copies x y → entry more x y)
    (each : ∀ done x later ys now next, list = done ++ x :: later → done.length = ys.length →
      Ongoing origin position begun [] now → (source, copy) ∈ (now.copyContext position).copies →
      (now.symbol copy).outline = outline ys → step x now = .ok ⟨⟩ next →
      Ongoing origin position begun [] next ∧ Advances origin position (· = copy) now next ∧
        ∃ y, entry (next.copyContext position).copies x y ∧ (next.symbol copy).outline = outline (ys ++ [y]))
    (ongoing : Ongoing origin position begun [] now) (member : (source, copy) ∈ (now.copyContext position).copies)
    (start : (now.symbol copy).outline = outline []) (ends : list.forM step now = .ok ⟨⟩ next) :
    Ongoing origin position begun [] next ∧ Advances origin position (· = copy) now next ∧
      ∃ ys, List.Forall₂ (entry (next.copyContext position).copies) list ys ∧
        (next.symbol copy).outline = outline ys := by
  -- The elements before the ones that are left have their entries already.
  have hrest : ∀ rest done ys now, list = done ++ rest → Ongoing origin position begun [] now →
      (source, copy) ∈ (now.copyContext position).copies →
      List.Forall₂ (entry (now.copyContext position).copies) done ys → (now.symbol copy).outline = outline ys →
      rest.forM step now = .ok ⟨⟩ next →
      Ongoing origin position begun [] next ∧ Advances origin position (· = copy) now next ∧
        ∃ ys, List.Forall₂ (entry (next.copyContext position).copies) list ys ∧
          (next.symbol copy).outline = outline ys := by
    intro rest
    induction rest with
    | nil =>
        intro done ys now split ongoing member entries same ends
        cases ends
        rw [List.append_nil] at split
        exact ⟨ongoing, .refl _, ys, split ▸ entries, same⟩
    | cons x later ih =>
        intro done ys now split ongoing member entries same ends
        obtain ⟨_, middle, hstep, ends⟩ := bind_eq_ok.mp ((forM_cons step x later now).symm.trans ends)
        obtain ⟨hongoing, hadvances, y, hentry, houtline⟩ :=
          each done x later ys now middle split entries.length_eq ongoing member same hstep
        obtain ⟨hend, hlater, hall⟩ := ih (done ++ [x]) (ys ++ [y]) middle (by simp [split]) hongoing
          (hadvances.copies _ member)
          (List.rel_append (entries.imp fun _ _ => mono hadvances.copies) (.cons hentry .nil)) houtline ends
        refine ⟨hend, hadvances.trans hlater fun id same => ?_, hall⟩
        exact same ▸ (ongoing.fresh member).2
  exact hrest list [] [] now rfl ongoing member .nil start ends

/-- The parts of one list are copied one by one, and each copy is attached. -/
theorem advances_copyEach {copyPart : SymbolId → Analysis SymbolId} {attach : SymbolId → Analysis PUnit}
    {list : List SymbolId} (outline : List SymbolId → Outline) (copies : CopiesMirrors origin position begun copyPart)
    (old : Within origin.size list)
    (attaches : ∀ image ys now next, list ≠ [] → Ongoing origin position begun [] now →
      (source, copy) ∈ (now.copyContext position).copies → now.IsCopy position image →
      (now.symbol copy).outline = outline ys → attach image now = .ok ⟨⟩ next →
      Ongoing origin position begun [] next ∧ Advances origin position (· = copy) now next ∧
        (next.symbol copy).outline = outline (ys ++ [image]))
    (ongoing : Ongoing origin position begun [] now) (member : (source, copy) ∈ (now.copyContext position).copies)
    (start : (now.symbol copy).outline = outline [])
    (ends : (list.forM fun part => copyPart part >>= attach) now = .ok ⟨⟩ next) :
    Ongoing origin position begun [] next ∧ Advances origin position (· = copy) now next ∧
      ∃ images, List.Forall₂ (fun part image => (part, image) ∈ (next.copyContext position).copies) list images ∧
        (next.symbol copy).outline = outline images := by
  refine advances_forM outline (fun copies part image => (part, image) ∈ copies) (fun sub => sub _) ?_ ongoing member
    start ends
  intro done part later ys now next split _ ongoing member same ends
  obtain ⟨image, middle, hcopy, hattach⟩ := bind_eq_ok.mp ends
  have hpart : part.index < origin.size := old part (by simp [split])
  obtain ⟨hongoing, hcopied, himage⟩ := copies part image now middle ongoing hpart hcopy
  have hlt := (ongoing.fresh member).2
  have hsame : (middle.symbol copy).outline = outline ys := (hcopied.others copy hlt id).trans same
  obtain ⟨hnext, hattached, houtline⟩ := attaches image ys middle next (by simp [split]) hongoing
    (hcopied.copies _ member) ⟨part, himage⟩ hsame hattach
  refine ⟨hnext, (hcopied.mono fun _ => False.elim).trans hattached fun id same => same ▸ hlt, image,
    hattached.copies _ himage, houtline⟩

section Attaching

variable {image : SymbolId} {outline : List SymbolId → Outline} {images : List SymbolId}
  (ongoing : Ongoing origin position begun [] now) (member : (source, copy) ∈ (now.copyContext position).copies)
  (isCopy : now.IsCopy position image)

include ongoing

theorem advances_write {edit : Edit} (fresh : origin.size ≤ copy.index) (part : edit.IsPart)
    (noBase : ∀ link, edit ≠ .append (.parent link))
    (isCopy : ∀ new, edit.newPart? = some new → now.IsCopy position new)
    (within : Within now.size edit.mentions) (noMember : ∀ name member, edit ≠ .insertMember name member)
    (ends : write copy edit now = .ok () next) :
    next = now.write copy edit ∧ Ongoing origin position begun [] next ∧
      Advances origin position (· = copy) now next := by
  cases ends
  exact ⟨rfl, ongoing.edit fresh part noBase isCopy within (fun name member same => absurd same (noMember name member))
    rfl rfl, .of_edit rfl rfl fun untouched => absurd rfl untouched⟩

include isCopy

/-- A part belongs to the scope that it was copied into. -/
theorem advances_setScope {scope : SymbolId} (lt : scope.index < now.size)
    (ends : setScope image scope now = .ok () next) :
    Ongoing origin position begun [] next ∧ Advances origin position (fun _ => False) now next ∧
      next.size = now.size ∧ next.copyContext position = now.copyContext position ∧
      ∀ id, (next.symbol id).payload = (now.symbol id).payload := by
  cases ends
  have hfresh := (ongoing.filling.fresh isCopy).1
  refine ⟨ongoing.edit hfresh (by trivial) (by simp) (by rintro _ ⟨⟩) ?_ (by simp) rfl rfl, .of_edit rfl rfl ?_,
    Table.size_write _ _ _, rfl, fun id => ?_⟩
  · simpa [Edit.mentions, Assignment.mentions] using lt
  · exact fun _ symbol => Edit.outline_scope _ _ symbol
  · rw [Table.symbol_write]
    split <;> rfl

include member

theorem advances_appendParameter (same : (now.symbol copy).outline = outline images)
    (adds : ∀ images image, outline (images ++ [image]) =
      { outline images with parameters := (outline images).parameters ++ [image] })
    (ends : appendParameter copy image now = .ok () next) :
    Ongoing origin position begun [] next ∧ Advances origin position (· = copy) now next ∧
      (next.symbol copy).outline = outline (images ++ [image]) := by
  obtain ⟨hfresh, hlt⟩ := ongoing.fresh member
  have himage := (ongoing.filling.fresh isCopy).2
  have hadds : ∀ {edit : Edit}, edit.IsPart → (∀ link, edit ≠ .append (.parent link)) →
      (∀ new, edit.newPart? = some new → now.IsCopy position new) → Within now.size edit.mentions →
      (∀ name member, edit ≠ .insertMember name member) →
      (edit.apply (now.symbol copy)).outline =
        { (now.symbol copy).outline with parameters := (now.symbol copy).parameters ++ [image] } →
      write copy edit now = .ok () next →
      Ongoing origin position begun [] next ∧ Advances origin position (· = copy) now next ∧
        (next.symbol copy).outline = outline (images ++ [image]) := by
    intro edit part noBase isCopy within noMember added ends
    obtain ⟨rfl, hnext, hadvances⟩ := advances_write ongoing hfresh part noBase isCopy within noMember ends
    refine ⟨hnext, hadvances, ?_⟩
    rw [Table.symbol_write, if_pos ⟨rfl, hlt⟩, added, adds, ← same]
    rfl
  rw [appendParameter, get_bind] at ends
  cases hpayload : (now.symbol copy).payload with
  | function data =>
      simp only [hpayload] at ends
      exact hadds (by trivial) (by simp) (by rintro new ⟨⟩; exact isCopy)
        (by simpa [Edit.mentions, Entry.mentions] using himage) (by simp) (Edit.outline_parameter ⟨data, hpayload⟩) ends
  | template data =>
      simp only [hpayload] at ends
      exact hadds (by trivial) (by simp) (by rintro new ⟨⟩; exact isCopy)
        (by simpa [Edit.mentions, Entry.mentions] using himage) (by simp)
        (Edit.outline_templateParameter ⟨data, hpayload⟩) ends
  | _ => simp only [hpayload] at ends; cases ends

theorem advances_insertMember (same : (now.symbol copy).outline = outline images)
    (adds : ∀ images image, outline (images ++ [image]) =
      { outline images with contents := (outline images).contents ++ [image] })
    (ends : insertMember copy image now = .ok () next) :
    Ongoing origin position begun [] next ∧ Advances origin position (· = copy) now next ∧
      (next.symbol copy).outline = outline (images ++ [image]) := by
  obtain ⟨hfresh, hlt⟩ := ongoing.fresh member
  obtain ⟨himageFresh, himage⟩ := ongoing.filling.fresh isCopy
  obtain ⟨hholds, rfl⟩ := insertMember_eq_ok ends
  -- The member gets its scope first, which leaves all outlines alone.
  obtain ⟨placed, hplaced⟩ : ∃ placed, now.perform image (.assign (.scope (some copy)
      ((now.symbol copy).isTemplate || (now.symbol copy).inTemplate))) = placed := ⟨_, rfl⟩
  have hongoing : Ongoing origin position begun [] placed := by
    rw [← hplaced]
    refine ongoing.edit himageFresh (by trivial) (by simp) (by rintro _ ⟨⟩) ?_ (by simp) rfl rfl
    simpa [Edit.mentions, Assignment.mentions] using hlt
  have houtlines : ∀ id, (placed.symbol id).outline = (now.symbol id).outline := by
    intro id
    rw [← hplaced, Table.symbol_perform]
    split
    · exact Edit.outline_scope _ _ _
    · rfl
  have hsize : placed.size = now.size := by rw [← hplaced, Table.size_perform]
  have hcontext : placed.copyContext position = now.copyContext position := by rw [← hplaced]; rfl
  have hname : (placed.symbol image).name = (now.symbol image).name := congrArg Outline.name (houtlines image)
  have hadvances : Advances origin position (· = copy) now placed :=
    .of_outlines (Nat.le_of_eq hsize.symm) hcontext fun id _ _ => houtlines id
  rw [show now.enroll copy image = placed.perform copy (.insertMember (now.symbol image).name image) by
    rw [Table.enroll, hplaced]]
  refine ⟨hongoing.edit hfresh (by trivial) (by simp) ?_ ?_ ?_ rfl rfl,
    hadvances.trans (.of_edit rfl rfl fun untouched => absurd rfl untouched) fun id same => same ▸ hlt, ?_⟩
  · rintro new ⟨⟩
    rwa [Table.IsCopy, hcontext]
  · simpa [Edit.mentions, hsize] using himage
  · rintro name inserted ⟨⟩
    exact hname
  · have hholdsMembers := Symbol.holdsMembers_of_kind (congrArg Outline.kind (houtlines copy))
    rw [Table.symbol_perform, if_pos ⟨rfl, hsize ▸ hlt⟩, Edit.outline_member (hholdsMembers.trans hholds), adds, ← same,
      houtlines, show (placed.symbol copy).contents = (now.symbol copy).contents from
        congrArg Outline.contents (houtlines copy)]
    rfl

/-- Constructors and conversions belong to the class that they are copied into. -/
theorem advances_special {entry : SymbolId → Entry} (isPart : (Edit.append (entry image)).IsPart)
    (newPart : (Edit.append (entry image)).newPart? = some image) (mentions : (entry image).mentions = [image])
    (noBase : ∀ link, entry image ≠ .parent link) (same : (now.symbol copy).outline = outline images)
    (adds : ∀ symbol : Symbol, symbol.outline = outline images →
      ((Edit.append (entry image)).apply symbol).outline = outline (images ++ [image]))
    (ends : (do setScope image copy; write copy (.append (entry image)) : Analysis Unit) now = .ok () next) :
    Ongoing origin position begun [] next ∧ Advances origin position (· = copy) now next ∧
      (next.symbol copy).outline = outline (images ++ [image]) := by
  obtain ⟨hfresh, hlt⟩ := ongoing.fresh member
  obtain ⟨_, middle, hscope, hwrite⟩ := bind_eq_ok.mp ends
  obtain ⟨hongoing, hplaced, hsize, hcontext, -⟩ := advances_setScope ongoing isCopy hlt hscope
  have himage := (ongoing.filling.fresh isCopy).2
  obtain ⟨rfl, hnext, hadvances⟩ := advances_write hongoing hfresh isPart (by simpa using noBase)
    (by rw [newPart]; rintro new ⟨⟩; rwa [Table.IsCopy, hcontext])
    (by simpa [Edit.mentions, mentions, hsize] using himage) (by simp) hwrite
  refine ⟨hnext, (hplaced.mono fun _ => False.elim).trans hadvances fun id same => same ▸ hlt, ?_⟩
  rw [Table.symbol_write, if_pos ⟨rfl, hsize ▸ hlt⟩]
  exact adds _ ((hplaced.others copy hlt id).trans same)

end Attaching

section Parts

variable {substitute : Substituter} (represented : origin.Represented) (reads : ReadsNames origin substitute)
  (member : (source, copy) ∈ (now.copyContext position).copies)

include represented reads member

/-- The copy of a function takes over the return type, which is then read. -/
theorem advances_copyReturnType (ongoing : Ongoing origin position begun [] now)
    (ends : copyReturnType substitute position copy (origin.symbol source).returnType now = .ok () next) :
    Ongoing origin position begun [] next ∧ Advances origin position (· = copy) now next ∧
      (next.symbol copy).outline = (now.symbol copy).outline := by
  obtain ⟨hfresh, hlt⟩ := ongoing.fresh member
  cases hreturn : (origin.symbol source).returnType with
  | none =>
      rw [hreturn] at ends
      cases ends
      exact ⟨ongoing, .refl _, rfl⟩
  | some type =>
      rw [hreturn] at ends
      obtain ⟨_, middle, hwrite, ends⟩ := bind_eq_ok.mp ends
      cases hwrite
      have hbelow := Symbol.returnType_below (represented.within source) hreturn
      have hwithin : Within now.size (Edit.assign (.returnType (some type))).mentions :=
        hbelow.mono ongoing.underway.retains.size_le
      have hchange : Change (.copying origin.size position) now (now.write copy (.assign (.returnType (some type)))) :=
        .edit copy _ (Regime.allows_fresh hfresh (.inl (by trivial))) rfl rfl hwithin (by simp) (by trivial)
      have houtline : ∀ id, ((now.write copy (.assign (.returnType (some type)))).symbol id).outline =
          (now.symbol id).outline := by
        intro id
        rw [Table.symbol_write]
        split
        · exact Edit.outline_surface (by trivial) _
        · rfl
      have hongoing : Ongoing origin position begun
          [{ target := copy, part := .returnType, type, context := position }]
          (now.write copy (.assign (.returnType (some type)))) := by
        refine ⟨ongoing.underway.await (.of_change hchange rfl) rfl rfl (by trivial) (Edit.type_returnType _ _)
          (fun place found has => (Edit.Puts.returnType type).typeAt has |>.imp And.left And.right)
          fun other hother => ⟨rfl, ?_⟩, ongoing.filling.takeReturnType ongoing.underway.sound.base_le hfresh rfl rfl⟩
        obtain rfl : other = source := ongoing.underway.unique _ hother _ member rfl
        exact hreturn
      obtain ⟨hnext, hadvances⟩ := advances_substituteInto represented reads hongoing member ends
      have hassigned : Advances origin position (fun _ => False) now
          (now.write copy (.assign (.returnType (some type)))) :=
        .of_outlines (Nat.le_of_eq (Table.size_write _ _ _).symm) rfl fun id _ _ => houtline id
      have hall := hassigned.trans hadvances fun _ => False.elim
      exact ⟨hnext, hall.mono fun _ => False.elim, hall.others copy hlt id⟩

/-- A base is taken over, and then it is read. -/
theorem advances_base {link : BaseLink} {index : Nat} (ongoing : Ongoing origin position begun [] now)
    (has : (origin.symbol source).parents[index]? = some link) (count : (now.symbol copy).outline.bases.length = index)
    (kind : (now.symbol copy).outline.kind = (origin.symbol source).outline.kind)
    (ends : (do
      write copy (.append (.parent link))
      substituteInto substitute position copy (.parent index) (.ofSymbol link.parent) : Analysis Unit) now =
        .ok () next) :
    Ongoing origin position begun [] next ∧ Advances origin position (· = copy) now next ∧
      (next.symbol copy).outline = { (now.symbol copy).outline with
        bases := (now.symbol copy).outline.bases ++ [(link.access, link.isVirtual)] } := by
  obtain ⟨hfresh, hlt⟩ := ongoing.fresh member
  obtain ⟨_, middle, hwrite, ends⟩ := bind_eq_ok.mp ends
  cases hwrite
  have hisClass : (origin.symbol source).classData?.isSome = true := by
    cases hdata : (origin.symbol source).classData? with
    | none => simp [Symbol.parents, hdata] at has
    | some data => rfl
  have hisClassCopy := (Symbol.classData?_isSome_of_kind kind).trans hisClass
  have hparent : link.parent.index < origin.size :=
    Symbol.parents_within (represented.within source) _ (List.mem_map_of_mem (List.mem_of_getElem? has))
  have hwithin : Within now.size (Edit.append (.parent link)).mentions := by
    simpa [Edit.mentions, Entry.mentions] using Nat.lt_of_lt_of_le hparent ongoing.underway.retains.size_le
  have hchange : Change (.copying origin.size position) now (now.write copy (.append (.parent link))) :=
    .edit copy _ (Regime.allows_fresh hfresh (.inr (by trivial))) rfl rfl hwithin (by simp) (by trivial)
  have hcount : (now.symbol copy).parents.length = index := by
    rw [← count]
    simp [Symbol.outline]
  have hfilling : (now.write copy (.append (.parent link))).Filling .any origin.size position begun [] :=
    ongoing.filling.edit ongoing.underway.sound.base_le hfresh (show (Edit.append (.parent link)).IsPart by trivial)
      (by rintro _ ⟨⟩) rfl rfl
  have hongoing : Ongoing origin position begun
      [{ target := copy, part := .parent index, type := .ofSymbol link.parent, context := position }]
      (now.write copy (.append (.parent link))) := by
    refine ⟨ongoing.underway.await (.of_change hchange rfl) rfl rfl (by trivial) (Edit.types_apply (by trivial) _).1
      (fun place found placed => hcount ▸ Edit.typeAt_base placed) fun other hother => ⟨rfl, ?_⟩,
      hfilling.carry rfl⟩
    obtain rfl : other = source := ongoing.underway.unique _ hother _ member rfl
    simp [Symbol.typeAt, has]
  obtain ⟨hnext, hadvances⟩ := advances_substituteInto represented reads hongoing member ends
  have hadded : Advances origin position (· = copy) now (now.write copy (.append (.parent link))) :=
    .of_edit rfl rfl fun untouched => absurd rfl untouched
  refine ⟨hnext, hadded.trans (hadvances.mono fun _ => False.elim) fun id same => same ▸ hlt, ?_⟩
  rw [hadvances.others copy (by rwa [Table.size_write]) id, Table.symbol_write, if_pos ⟨rfl, hlt⟩,
    Edit.outline_base hisClassCopy]

/-- The bases of a class are taken over and read one by one. -/
theorem advances_copyBases (outline : List (Access × Bool) → Outline) (ongoing : Ongoing origin position begun [] now)
    (start : (now.symbol copy).outline = outline [])
    (adds : ∀ bases base, { outline bases with bases := (outline bases).bases ++ [base] } = outline (bases ++ [base]))
    (count : ∀ bases, (outline bases).bases.length = bases.length)
    (kind : ∀ bases, (outline bases).kind = (origin.symbol source).outline.kind)
    (ends : copyBases substitute position copy (origin.symbol source).parents now = .ok () next) :
    Ongoing origin position begun [] next ∧ Advances origin position (· = copy) now next ∧
      (next.symbol copy).outline = outline (origin.symbol source).outline.bases := by
  have heach : ∀ (done : List (BaseLink × Nat)) x later bases now next,
      (origin.symbol source).parents.zipIdx = done ++ x :: later → done.length = bases.length →
      Ongoing origin position begun [] now → (source, copy) ∈ (now.copyContext position).copies →
      (now.symbol copy).outline = outline bases →
      (do
        write copy (.append (.parent x.1))
        substituteInto substitute position copy (.parent x.2) (.ofSymbol x.1.parent) : Analysis PUnit) now =
          .ok ⟨⟩ next →
      Ongoing origin position begun [] next ∧ Advances origin position (· = copy) now next ∧
        ∃ base, (x.1.access, x.1.isVirtual) = base ∧ (next.symbol copy).outline = outline (bases ++ [base]) := by
    intro done x later bases now next split length ongoing member same ends
    have hx : (origin.symbol source).parents.zipIdx[done.length]? = some x := by simp [split]
    rw [List.getElem?_zipIdx, Option.map_eq_some_iff] at hx
    obtain ⟨link, hlink, rfl⟩ := hx
    rw [Nat.zero_add] at ends
    obtain ⟨hnext, hadvances, houtline⟩ :=
      advances_base represented reads member ongoing hlink (by rw [same, count, length]) (by rw [same, kind]) ends
    exact ⟨hnext, hadvances, _, rfl, by rw [houtline, same, adds]⟩
  obtain ⟨hnext, hadvances, bases, hbases, houtline⟩ := advances_forM outline
    (fun _ (x : BaseLink × Nat) base => (x.1.access, x.1.isVirtual) = base) (fun _ same => same) heach ongoing member
    start ends
  refine ⟨hnext, hadvances, houtline.trans (congrArg outline ?_)⟩
  rw [← List.forall₂_map_left_iff, List.forall₂_eq_eq_eq] at hbases
  calc bases
    _ = (origin.symbol source).parents.zipIdx.map fun x => (x.1.access, x.1.isVirtual) := hbases.symm
    _ = ((origin.symbol source).parents.zipIdx.map Prod.fst).map fun link => (link.access, link.isVirtual) := by
        rw [List.map_map]; rfl
    _ = (origin.symbol source).outline.bases := by rw [List.zipIdx_map_fst]; rfl

omit reads in
/-- The using-directives of a scope are taken over. -/
theorem advances_copyDirectives (outline : List SymbolId → Outline) (ongoing : Ongoing origin position begun [] now)
    (start : (now.symbol copy).outline = outline [])
    (adds : ∀ nominated id, { outline nominated with nominated := (outline nominated).nominated ++ [id] } =
      outline (nominated ++ [id]))
    (kind : ∀ nominated, (outline nominated).kind = (origin.symbol source).outline.kind)
    (ends : copyDirectives copy (origin.symbol source).directives now = .ok () next) :
    Ongoing origin position begun [] next ∧ Advances origin position (· = copy) now next ∧
      (next.symbol copy).outline = outline (origin.symbol source).outline.nominated := by
  have heach : ∀ done (directive : UsingDirective) later nominated now next,
      (origin.symbol source).directives = done ++ directive :: later → done.length = nominated.length →
      Ongoing origin position begun [] now → (source, copy) ∈ (now.copyContext position).copies →
      (now.symbol copy).outline = outline nominated →
      (write copy (.append (.directive { directive with scope := copy })) : Analysis PUnit) now = .ok ⟨⟩ next →
      Ongoing origin position begun [] next ∧ Advances origin position (· = copy) now next ∧
        ∃ id, directive.nominated = id ∧ (next.symbol copy).outline = outline (nominated ++ [id]) := by
    intro done directive later nominated now next split _ ongoing member same ends
    obtain ⟨hfresh, hlt⟩ := ongoing.fresh member
    have hdirective : directive ∈ (origin.symbol source).directives := by simp [split]
    have hholds : (origin.symbol source).holdsMembers = true := by
      cases hdecls : (origin.symbol source).decls? with
      | none => simp [Symbol.directives, hdecls] at hdirective
      | some decls => simp [Symbol.holdsMembers, hdecls]
    have hnominated : directive.nominated.index < now.size :=
      Nat.lt_of_lt_of_le (Within.flatMap.mp (Symbol.directives_within (represented.within source)) directive hdirective
        _ (by simp)) ongoing.underway.retains.size_le
    obtain ⟨rfl, hnext, hadvances⟩ := advances_write ongoing hfresh (by trivial) (by simp) (by rintro _ ⟨⟩)
      (by simp [Edit.mentions, Entry.mentions, hlt, hnominated]) (by simp) ends
    refine ⟨hnext, hadvances, _, rfl, ?_⟩
    rw [Table.symbol_write, if_pos ⟨rfl, hlt⟩, Edit.outline_directive, same, adds]
    exact (Symbol.holdsMembers_of_kind (by rw [same, kind])).trans hholds
  obtain ⟨hnext, hadvances, nominated, hall, houtline⟩ := advances_forM outline
    (fun _ (directive : UsingDirective) id => directive.nominated = id) (fun _ same => same) heach ongoing member start
    ends
  rw [← List.forall₂_map_left_iff, List.forall₂_eq_eq_eq] at hall
  exact ⟨hnext, hadvances, houtline.trans (congrArg outline hall.symm)⟩

end Parts

section Lists

variable {copyPart : SymbolId → Analysis SymbolId} {list : List SymbolId} (outline : List SymbolId → Outline)
  (copies : CopiesMirrors origin position begun copyPart) (old : Within origin.size list)
  (ongoing : Ongoing origin position begun [] now) (member : (source, copy) ∈ (now.copyContext position).copies)
  (start : (now.symbol copy).outline = outline [])

include copies old ongoing member start

theorem advances_copyParameters
    (adds : ∀ images image, outline (images ++ [image]) =
      { outline images with parameters := (outline images).parameters ++ [image] })
    (ends : copyParameters copyPart copy list now = .ok () next) :
    Ongoing origin position begun [] next ∧ Advances origin position (· = copy) now next ∧
      ∃ images, List.Forall₂ (fun part image => (part, image) ∈ (next.copyContext position).copies) list images ∧
        (next.symbol copy).outline = outline images := by
  refine advances_copyEach outline copies old (fun image images now next _ ongoing member isCopy same ends => ?_)
    ongoing member start ends
  have hlt := (ongoing.fresh member).2
  obtain ⟨_, middle, hscope, happend⟩ := bind_eq_ok.mp ends
  obtain ⟨hongoing, hplaced, -, hcontext, -⟩ := advances_setScope ongoing isCopy hlt hscope
  obtain ⟨hnext, hadvances, houtline⟩ := advances_appendParameter hongoing (hcontext ▸ member)
    (by rwa [Table.IsCopy, hcontext]) ((hplaced.others copy hlt id).trans same) adds happend
  exact ⟨hnext, (hplaced.mono fun _ => False.elim).trans hadvances fun id same => same ▸ hlt, houtline⟩

theorem advances_copyMembers
    (adds : ∀ images image, outline (images ++ [image]) =
      { outline images with contents := (outline images).contents ++ [image] })
    (ends : copyMembers copyPart copy list now = .ok () next) :
    Ongoing origin position begun [] next ∧ Advances origin position (· = copy) now next ∧
      ∃ images, List.Forall₂ (fun part image => (part, image) ∈ (next.copyContext position).copies) list images ∧
        (next.symbol copy).outline = outline images :=
  advances_copyEach outline copies old
    (fun _ _ _ _ _ ongoing member isCopy same ends => advances_insertMember ongoing member isCopy same adds ends)
    ongoing member start ends

theorem advances_copySpecialFunctions (entry : SymbolId → Entry) (isPart : ∀ id, (Edit.append (entry id)).IsPart)
    (newPart : ∀ id, (Edit.append (entry id)).newPart? = some id) (mentions : ∀ id, (entry id).mentions = [id])
    (noBase : ∀ id link, entry id ≠ .parent link)
    (adds : list ≠ [] → ∀ images image, ∀ symbol : Symbol, symbol.outline = outline images →
      ((Edit.append (entry image)).apply symbol).outline = outline (images ++ [image]))
    (ends : copySpecialFunctions copyPart entry copy list now = .ok () next) :
    Ongoing origin position begun [] next ∧ Advances origin position (· = copy) now next ∧
      ∃ images, List.Forall₂ (fun part image => (part, image) ∈ (next.copyContext position).copies) list images ∧
        (next.symbol copy).outline = outline images :=
  advances_copyEach outline copies old
    (fun image images _ _ some ongoing member isCopy same ends => advances_special ongoing member isCopy (isPart image)
      (newPart image) (mentions image) (noBase image) same (adds some images image) ends)
    ongoing member start ends

end Lists

/-- The parts of a declaration are copied into its empty copy, which then mirrors it. -/
theorem mirrors_copyContents {substitute : Substituter} (represented : origin.Represented)
    (reads : ReadsNames origin substitute) (depth : Nat) :
    FillsMirrors origin position begun (copyContents substitute position depth) := by
  induction depth with
  | zero =>
      intro source copy now next _ _ _ ends
      cases ends
  | succ depth ih =>
      intro source copy now next ongoing member bare ends
      have hcopies := copiesMirrors_copyMember ih
      have hold := ongoing.underway.sources _ member
      have hlt := (ongoing.fresh member).2
      have hgrows := ongoing.underway.retains.symbols source hold
      have hparts : Within origin.size (origin.symbol source).parts := Symbol.parts_within (represented.within source)
      simp only [Symbol.parts, Within.append] at hparts
      obtain ⟨⟨⟨hparameters, hcontents⟩, hconstructors⟩, hconversions⟩ := hparts
      have hreturn : (now.symbol source).returnType = (origin.symbol source).returnType := hgrows.typeAt_eq .returnType
      have hconstructorsEq : (now.symbol source).constructors = (origin.symbol source).constructors :=
        congrArg Outline.constructors hgrows.outline_eq
      have hconversionsEq : (now.symbol source).conversions = (origin.symbol source).conversions :=
        congrArg Outline.conversions hgrows.outline_eq
      rw [copyContents, get_bind] at ends
      rw [hgrows.type, hgrows.parameters, hreturn, hgrows.parents, hgrows.contents, hgrows.directives,
        hconstructorsEq, hconversionsEq] at ends
      obtain ⟨_, typed, htype, ends⟩ := bind_eq_ok.mp ends
      obtain ⟨_, second, hsecond, ends⟩ := bind_eq_ok.mp ends
      obtain ⟨_, third, hthird, ends⟩ := bind_eq_ok.mp ends
      obtain ⟨_, fourth, hfourth, ends⟩ := bind_eq_ok.mp ends
      obtain ⟨_, fifth, hfifth, ends⟩ := bind_eq_ok.mp ends
      obtain ⟨_, sixth, hsixth, ends⟩ := bind_eq_ok.mp ends
      obtain ⟨_, seventh, hseventh, heighth⟩ := bind_eq_ok.mp ends
      let model := (origin.symbol source).outline
      -- Each list is added to the outline that the copy has by then.
      obtain ⟨ongoing₁, advances₁⟩ : _ ∧ Advances origin position (fun _ => False) now typed :=
        advances_substituteInto represented reads ongoing member htype
      have member₁ := advances₁.copies _ member
      have outline₁ : (typed.symbol copy).outline = model.bare := (advances₁.others copy hlt id).trans bare
      obtain ⟨ongoing₂, advances₂, parameters, images₂, outline₂⟩ :=
        advances_copyParameters (fun images => { model.bare with parameters := images }) hcopies hparameters ongoing₁
          member₁ outline₁ (fun _ _ => rfl) hsecond
      have member₂ := advances₂.copies _ member₁
      obtain ⟨ongoing₃, advances₃, same₃⟩ := advances_copyReturnType represented reads member₂ ongoing₂ hthird
      have member₃ := advances₃.copies _ member₂
      obtain ⟨ongoing₄, advances₄, outline₄⟩ := advances_copyBases represented reads member₃
        (fun bases => { model.bare with parameters, bases }) ongoing₃ (same₃.trans outline₂) (fun _ _ => rfl)
        (fun _ => rfl) (fun _ => rfl) hfourth
      have member₄ := advances₄.copies _ member₃
      obtain ⟨ongoing₅, advances₅, contents, images₅, outline₅⟩ :=
        advances_copyMembers (fun contents => { model.bare with parameters, contents, bases := model.bases }) hcopies
          hcontents ongoing₄ member₄ outline₄ (fun _ _ => rfl) hfifth
      have member₅ := advances₅.copies _ member₄
      obtain ⟨ongoing₆, advances₆, outline₆⟩ := advances_copyDirectives represented member₅
        (fun nominated => { model.bare with parameters, contents, bases := model.bases, nominated }) ongoing₅ outline₅
        (fun _ _ => rfl) (fun _ => rfl) hsixth
      have member₆ := advances₆.copies _ member₅
      -- Where there are constructors or conversions to copy, the source is a class, and so its copy is one.
      have hisClass : (origin.symbol source).constructors ≠ [] ∨ (origin.symbol source).conversions ≠ [] →
          ∀ symbol : Symbol, symbol.outline.kind = model.kind → symbol.classData?.isSome = true :=
        fun special symbol same =>
          (Symbol.classData?_isSome_of_kind same).trans (Symbol.classData?_isSome_of_special special)
      obtain ⟨ongoing₇, advances₇, constructors, images₇, outline₇⟩ := advances_copySpecialFunctions
        (fun constructors => { model with parameters, contents, constructors, conversions := [] }) hcopies
        hconstructors ongoing₆ member₆ outline₆ .constructor (fun _ => trivial) (fun _ => rfl) (fun _ => rfl)
        (by simp)
        (fun some images image symbol same => by
          rw [Edit.outline_constructor (hisClass (.inl some) symbol (by rw [same])),
            show symbol.constructors = images from congrArg Outline.constructors same, same])
        hseventh
      have member₇ := advances₇.copies _ member₆
      obtain ⟨ongoing₈, advances₈, conversions, images₈, outline₈⟩ := advances_copySpecialFunctions
        (fun conversions => { model with parameters, contents, constructors, conversions }) hcopies
        hconversions ongoing₇ member₇ outline₇ .conversion (fun _ => trivial) (fun _ => rfl) (fun _ => rfl)
        (by simp)
        (fun some images image symbol same => by
          rw [Edit.outline_conversion (hisClass (.inr some) symbol (by rw [same])),
            show symbol.conversions = images from congrArg Outline.conversions same, same])
        heighth
      have hthere : ∀ id, id = copy → id.index < now.size := fun id same => same ▸ hlt
      have hadvances := (((((((advances₁.mono fun _ => False.elim).trans advances₂ hthere).trans advances₃
        hthere).trans advances₄ hthere).trans advances₅ hthere).trans advances₆ hthere).trans advances₇ hthere).trans
          advances₈ hthere
      have hsince₅ : ∀ pair ∈ (fifth.copyContext position).copies, pair ∈ (next.copyContext position).copies :=
        fun pair before => advances₈.copies _ (advances₇.copies _ (advances₆.copies _ before))
      have hsince₂ : ∀ pair ∈ (second.copyContext position).copies, pair ∈ (next.copyContext position).copies :=
        fun pair before => hsince₅ _ (advances₅.copies _ (advances₄.copies _ (advances₃.copies _ before)))
      refine ⟨ongoing₈, hadvances, ?_⟩
      rw [outline₈]
      exact ⟨rfl, rfl, rfl, images₂.imp fun _ _ => hsince₂ _, images₅.imp fun _ _ => hsince₅ _,
        images₇.imp fun _ _ => advances₈.copies _, images₈, rfl, rfl⟩

end Analysis

end NameBinding
