import NameBinding.Proofs.Table.Skeleton
import NameBinding.Proofs.Template.MirroredCopies

/-!
# Complete copies

A copy is complete when everything in the templated declaration has been copied, the copies are linked among each
other, and every type that had to wait was read.  Neither the links nor the types have a say in the outlines.

* `ongoing_opened`: the copy begins with the templated declaration alone.
* `mirrored_copyTemplate`: then every copy mirrors its source.
* `underway_drainQueue`: the types that had to wait are read.
* `CompleteCopy`: what the instance consists of in the end.

The main statement is `instantiated_copy_complete`, about an instantiation that makes a copy.
-/

namespace NameBinding

open Relation (ReflTransGen)

/-- The second symbol is a parameter, member, constructor or conversion of the first one. -/
def Table.HasPart (table : Table) (outer inner : SymbolId) : Prop := inner ∈ (table.symbol outer).parts

/-- Whatever is a part of a declaration has been copied if the copy mirrors the declaration. -/
theorem Mirrors.exists_copy {copies : List (SymbolId × SymbolId)} {source copy : Symbol}
    (mirrors : Mirrors copies source.outline copy.outline) {part : SymbolId} (isPart : part ∈ source.parts) :
    ∃ image, (part, image) ∈ copies := by
  have hlist : ∀ {parts images : List SymbolId}, List.Forall₂ (fun part image => (part, image) ∈ copies) parts images →
      part ∈ parts → ∃ image, (part, image) ∈ copies := fun all member =>
    (Analysis.exists_of_mem_forall₂ all.flip member).imp fun _ => And.right
  simp only [Symbol.parts, List.mem_append] at isPart
  rcases isPart with ((parameter | member) | constructor) | conversion
  · exact hlist mirrors.parameters parameter
  · exact hlist mirrors.contents member
  · exact hlist mirrors.constructors constructor
  · exact hlist mirrors.conversions conversion

namespace Analysis

variable {origin now next : Table} {position : Nat} {begun : CopyContext} {busy : List DeferredWork}
  {substitute : Substituter}

/-! ## The beginning -/

/-- A copy begins with the templated declaration, whose type is read first. -/
theorem ongoing_opened {opened : Table} {template templated : SymbolId} {args : List Descriptor} {base floor : Nat}
    (sound : (Regime.copying base floor).Sound origin) (running : origin.templates.depth ≠ 0)
    (old : templated.index < origin.size) (begins : OpenedFor template templated args origin opened) :
    Ongoing origin origin.templates.contexts.size
      (origin.firstContext template templated args)
      [{ target := ⟨origin.size⟩, part := .type, type := (origin.symbol templated).type,
         context := origin.templates.contexts.size }] opened := by
  have hcontext := begins.copyContext_eq
  have hcopies : (opened.copyContext origin.templates.contexts.size).copies = [(templated, ⟨origin.size⟩)] :=
    congrArg CopyContext.copies hcontext
  have hretains : opened.Retains origin := .of_changes begins.moved.changes rfl
  refine ⟨?underway, ?filling⟩
  case filling =>
    have hfilling := begins.filling .any sound.represented sound.work old running
    rwa [(hretains.symbols templated old).type] at hfilling
  case underway =>
    have hunlinked : opened.nextLink ⟨origin.size⟩ = none := by
      rw [Table.nextLink, begins.symbol]
      rfl
    constructor
    case sound => exact begins.moved.sound sound.tight
    case changes => exact begins.moved.changes
    case running => exact begins.moved.depth ▸ running
    case lt => simp [begins.contexts]
    case templated => rw [hcontext]
    case grown => exact hcontext ▸ .refl _
    case first => exact ⟨_, .head _⟩
    case sources => simpa [hcopies] using old
    case unique => simp [hcopies]
    case typedefs => simp [hcopies, begins.symbol, Symbol.shell]
    case unlinked => simp [hcopies, hunlinked]
    case read =>
      simp only [hcopies, List.forall_mem_singleton]
      intro part current has
      -- The instance has no other type yet.
      by_cases htype : part = .type
      · exact .inl ⟨_, List.mem_append_right _ (.head _), rfl, htype.symm⟩
      · rw [begins.symbol, Symbol.typeAt_of_shell rfl htype] at has
        cases has
    case works =>
      simp only [hcopies, begins.queue, List.mem_singleton, Prod.mk.injEq, List.mem_append]
      rintro work (queued | rfl) source ⟨rfl, target⟩
      · have hlt := (sound.work.queue work queued).target
        rw [target] at hlt
        exact absurd hlt (Nat.lt_irrefl _)
      · exact ⟨rfl, rfl⟩

/-! ## What comes after the copying -/

/-- Every copy mirrors its source, and has the types that its source has, read or waiting to be read. -/
structure MirroredCopy (origin : Table) (position : Nat) (begun : CopyContext) (now : Table) : Prop where
  underway : CopyUnderway origin position begun [] now
  fresh : ∀ pair ∈ (now.copyContext position).copies, origin.size ≤ pair.2.index ∧ pair.2.index < now.size
  lookup : ∀ pair ∈ (now.copyContext position).copies,
    (now.copyContext position).copies.lookup pair.1 = some pair.2
  mirrors : ∀ pair ∈ (now.copyContext position).copies,
    Mirrors (now.copyContext position).copies (origin.symbol pair.1).outline (now.symbol pair.2).outline

theorem MirroredCopy.keeps (mirrored : MirroredCopy origin position begun now)
    (underway : CopyUnderway origin position begun [] next) (keeps : KeepsOutlines position now next) :
    MirroredCopy origin position begun next where
  underway := underway
  fresh := fun pair member => (mirrored.fresh pair (keeps.context ▸ member)).imp_right fun lt =>
    Nat.lt_of_lt_of_le lt keeps.size_le
  lookup := keeps.context ▸ mirrored.lookup
  mirrors := by
    rw [keeps.context]
    intro pair member
    rw [keeps.outlines _ (mirrored.fresh pair member).2]
    exact mirrored.mirrors pair member

/-- The copies are linked among each other. -/
theorem underway_linkCopies (ongoing : Ongoing origin position begun [] now)
    (ends : linkCopies position now = .ok () next) :
    CopyUnderway origin position begun [] next ∧ KeepsOutlines position now next := by
  have hcopies := ongoing.filling.copies
  have hnone : now.LinksCopies (now.copyContext position) [] now :=
    ⟨rfl, rfl, fun pair member => absurd member List.not_mem_nil, fun x _ => rfl⟩
  obtain ⟨after, hafter, hlinks⟩ := linksCopies_forM hcopies _ [] now rfl hnone
  rw [linkCopies_apply] at ends
  cases hafter.symm.trans ends
  have hchange : Change (.copying origin.size position) now next :=
    .links origin.size (now.copyContext position) (Nat.le_refl _) hcopies hlinks
  refine ⟨ongoing.underway.link (.of_change hchange hlinks.templates_eq) hcopies hlinks,
    Nat.le_of_eq hlinks.size_eq.symm, Table.copyContext_eq (by rw [hlinks.templates_eq]), fun id _ => ?_⟩
  exact hlinks.read Symbol.outline (fun _ _ _ => rfl) id

section Reading

variable (represented : origin.Represented) (reads : ReadsNames origin substitute)

include represented reads

/-- The templated declaration is copied with everything in it. -/
theorem mirrored_copyTemplate {template made : SymbolId} {args : List Descriptor} {base floor depth : Nat}
    (sound : (Regime.copying base floor).Sound origin) (running : origin.templates.depth ≠ 0)
    (given : ∀ arg ∈ args, arg.Below origin.size) (news : Lacks (origin.symbol template).instances args)
    (ends : copyTemplate substitute depth template args origin = .ok made next) :
    ∃ templated, origin.templated? template = some templated ∧ made = ⟨origin.size⟩ ∧
      MirroredCopy origin origin.templates.contexts.size (origin.firstContext template templated args) next := by
  obtain ⟨hmade, hdeclares⟩ := copyTemplate_made ends
  obtain ⟨templated, htemplated⟩ := Option.isSome_iff_exists.mp hdeclares
  refine ⟨templated, htemplated, hmade, ?_⟩
  obtain ⟨opened, hopens, hcopy⟩ := copyTemplate_opens substitute depth sound running given news htemplated
  have hongoing := ongoing_opened sound running (sound.represented.templated?_lt htemplated) hopens
  have hcontext := hopens.copyContext_eq
  have hbare : (opened.symbol ⟨origin.size⟩).outline = (origin.symbol templated).outline.bare := by
    rw [hopens.symbol, ← Symbol.outline_shell]
    rfl
  rw [hcopy] at ends
  obtain ⟨_, filled, hfill, ends⟩ := bind_eq_ok.mp ends
  obtain ⟨_, linked, hlink, ends⟩ := bind_eq_ok.mp ends
  cases ends
  obtain ⟨hfilled, hadvances, hmirrors⟩ := mirrors_copyContents represented reads depth templated ⟨origin.size⟩ opened
    filled hongoing (by rw [hcontext]; exact .head _) hbare hfill
  obtain ⟨hlinked, hkeeps⟩ := underway_linkCopies hfilled hlink
  have hmirrored : MirroredCopy origin origin.templates.contexts.size (origin.firstContext template templated args)
      filled := by
    refine ⟨hfilled.underway, hfilled.filling.copies.fresh, hfilled.filling.copies.lookup, fun pair member => ?_⟩
    -- Besides the instance itself, everything was copied while the templated declaration was.
    rcases hadvances.news pair member with first | ⟨-, -, mirrors⟩
    · rw [hcontext] at first
      obtain rfl := List.mem_singleton.mp first
      exact hmirrors
    · exact mirrors
  exact hmirrored.keeps hlinked hkeeps

/-- Queued types are read, one after the other. -/
theorem underway_finishAll (list : List DeferredWork) :
    ∀ now next, CopyUnderway origin position begun list now →
      (∀ work ∈ list, work.Below now.size ∧ origin.size ≤ work.target.index) →
      (list.forM fun work => do
        let substituted ← substitute work.context work.type
        finishOrEnqueue work substituted) now = .ok () next →
      CopyUnderway origin position begun [] next ∧ KeepsOutlines position now next := by
  induction list with
  | nil =>
      intro now next underway _ ends
      cases ends
      exact ⟨underway, .refl _ _⟩
  | cons work rest ih =>
      intro now next underway below ends
      obtain ⟨hbelow, hfresh⟩ := below work (.head rest)
      obtain ⟨_, middle, hstep, ends⟩ := bind_eq_ok.mp ((forM_cons _ work rest now).symm.trans ends)
      obtain ⟨hmiddle, hkeeps, -⟩ := underway_read represented reads underway hbelow hfresh hstep
      obtain ⟨hnext, hrest⟩ := ih middle next hmiddle
        (fun other member => (below other (.tail work member)).imp_left fun old => old.mono hkeeps.size_le) ends
      exact ⟨hnext, hkeeps.trans hrest⟩

/-- The types that had to wait are read, in as many passes as it takes. -/
theorem underway_drainQueue (calm : origin.templates.queue = []) (name : Name) (passes : Nat) :
    ∀ now next, CopyUnderway origin position begun [] now → drainQueue substitute name passes now = .ok () next →
      CopyUnderway origin position begun [] next ∧ KeepsOutlines position now next ∧ next.templates.queue = [] := by
  induction passes with
  | zero =>
      intro now next underway ends
      rw [drainQueue, get_bind] at ends
      split at ends
      · rename_i hempty
        cases ends
        exact ⟨underway, .refl _ _, List.isEmpty_iff.mp hempty⟩
      · cases ends
  | succ passes ih =>
      intro now next underway ends
      rw [drainQueue, get_bind] at ends
      split at ends
      · rename_i hempty
        cases ends
        exact ⟨underway, .refl _ _, List.isEmpty_iff.mp hempty⟩
      · obtain ⟨_, emptied, hemptied, ends⟩ := bind_eq_ok.mp ends
        obtain ⟨_, middle, hpass, hrest⟩ := bind_eq_ok.mp ends
        cases hemptied
        -- What is queued waits for a copy, since nothing was queued when the copy began.
        have hqueued : ∀ work ∈ now.templates.queue, work.Below now.size ∧ origin.size ≤ work.target.index := by
          intro work queued
          refine ⟨underway.sound.work.queue work queued, ?_⟩
          exact (underway.changes.news queued).resolve_left (calm ▸ List.not_mem_nil)
        have hmoved : Moved (.copying origin.size position) now
            { now with templates := { now.templates with queue := [] } } := by
          refine moves_templates ⟨underway.sound.work.contexts, fun work member => absurd member List.not_mem_nil⟩
            (fun _ _ => rfl) (fun work queued old => ?_) (fun work member => absurd member List.not_mem_nil) rfl
            underway.running
          exact absurd old (Nat.not_lt_of_le (hqueued work queued).2)
        have hbusy : CopyUnderway origin position begun now.templates.queue
            { now with templates := { now.templates with queue := [] } } := by
          refine underway.of_moved hmoved underway.lt rfl (fun _ _ => rfl) (fun _ _ _ unlinked => unlinked)
            (fun pair _ part current has => .inr (.inl ⟨has, ?_⟩)) fun work waiting _ _ => .inl ?_
          · rintro ⟨work, waiting, found⟩
            exact ⟨work, by simpa using waiting, found⟩
          · simpa using waiting
        obtain ⟨hmiddle, hkeeps⟩ :=
          underway_finishAll represented reads now.templates.queue _ middle hbusy hqueued hpass
        obtain ⟨hnext, hlater, hdone⟩ := ih middle next hmiddle hrest
        exact ⟨hnext, KeepsOutlines.trans ⟨hkeeps.size_le, hkeeps.context, hkeeps.outlines⟩ hlater, hdone⟩

end Reading

end Analysis

/-! ## The instance -/

/-- The instance and everything in it.  The copy began in `origin`, with its context at `position`, and is complete in
`now`.  Everything in the templated declaration has a copy of its own, the instance is the copy of the templated
declaration itself, and every copy mirrors its source.  What stands in the place of a type of a copy is what the type
in this place of the source was read as. -/
structure CompleteCopy (origin now : Table) (position : Nat) (context : CopyContext) (made : SymbolId) : Prop where
  first : (context.templated, made) ∈ context.copies
  covers : ∀ source, ReflTransGen origin.HasPart context.templated source →
    (source, context.copyOf source) ∈ context.copies
  copyOf : ∀ pair ∈ context.copies, context.copyOf pair.1 = pair.2
  unique : ∀ a ∈ context.copies, ∀ b ∈ context.copies, a.2 = b.2 → a.1 = b.1
  fresh : ∀ pair ∈ context.copies, origin.size ≤ pair.2.index ∧ pair.2.index < now.size
  mirrors : ∀ pair ∈ context.copies, Mirrors context.copies (origin.symbol pair.1).outline (now.symbol pair.2).outline
  read : ∀ pair ∈ context.copies, ∀ part current, (now.symbol pair.2).typeAt part = some current →
    PartRead origin now position context pair part current

/-- When no work is left, a copy whose copies mirror their sources is complete. -/
theorem Analysis.MirroredCopy.complete {origin now : Table} {position : Nat} {begun : CopyContext} {made : SymbolId}
    (mirrored : MirroredCopy origin position begun now) (first : (begun.templated, made) ∈ begun.copies)
    (done : now.templates.queue = []) : CompleteCopy origin now position (now.copyContext position) made := by
  have hfirst : ((now.copyContext position).templated, made) ∈ (now.copyContext position).copies :=
    mirrored.underway.templated ▸ mirrored.underway.grown.copies _ first
  have hcopyOf : ∀ pair ∈ (now.copyContext position).copies, (now.copyContext position).copyOf pair.1 = pair.2 := by
    intro pair member
    rw [CopyContext.copyOf, mirrored.lookup pair member]
    rfl
  refine ⟨hfirst, fun source inside => ?_, hcopyOf, mirrored.underway.unique, mirrored.fresh, mirrored.mirrors, ?_⟩
  · -- What a declaration has as a part was copied with it.
    obtain ⟨copy, hcopy⟩ : ∃ copy, (source, copy) ∈ (now.copyContext position).copies := by
      induction inside with
      | refl => exact ⟨made, hfirst⟩
      | tail _ isPart ih =>
          obtain ⟨copy, hcopy⟩ := ih
          exact (mirrored.mirrors _ hcopy).exists_copy isPart
    rw [hcopyOf _ hcopy]
    exact hcopy
  · intro pair member part current has
    refine (mirrored.underway.read pair member part current has).resolve_left ?_
    rintro ⟨work, waiting, -⟩
    rw [done] at waiting
    cases waiting

/-- What the types of a complete copy name is a copy, or is named by an argument, or is an instance, or it was left
alone. -/
theorem CompleteCopy.linksTo {origin now : Table} {position : Nat} {context : CopyContext} {made source copy : SymbolId}
    (complete : CompleteCopy origin now position context made) (member : (source, copy) ∈ context.copies)
    {type : Descriptor} (has : (now.symbol copy).type = type ∨ (now.symbol copy).returnType = some type)
    {id : SymbolId} (linked : type.LinksTo id) :
    (∃ source, (source, id) ∈ context.copies) ∨ (∃ pair ∈ context.bindings, pair.2.LinksTo id) ∨ now.IsInstance id ∨
      context.bindings.lookup id = none ∧ origin.isWithin id context.templated = false ∧
        ∀ later, (id, later) ∈ context.copies → copy.index < later.index := by
  rcases has with rfl | returns
  · obtain ⟨given, read, -, hread, ⟨⟩⟩ := (complete.read _ member .type _ rfl).read
    exact hread.linksTo linked
  · obtain ⟨given, read, -, hread, ⟨⟩⟩ := (complete.read _ member .returnType _ returns).read
    exact hread.linksTo linked

namespace Analysis

/-- A class template is copied for arguments that have no instance yet.  The copy is complete.  What a type or a return
type of a copy names, at any depth, is a copy, or is named by an argument, or is an instance, or it stands outside of
the templated declaration, has no argument bound to it, and was not copied before the declaration that has the type.
A base of a copy is the class behind what the base of the source was read as, and a copy of a declaration that stands
for itself remains the base. -/
theorem instantiated_copy_complete (table : Table) (represented : table.Represented) (idle : table.Idle) (bound : Nat)
    (template : SymbolId) (args : List Descriptor) (given : ∀ arg ∈ args, arg.Below table.size)
    (absent : table.existingInstance? template args = none) (made : SymbolId) (after : Table)
    (ends : instantiateUncached (instantiateWithin bound) bound template args table = .ok made after) :
    ∃ middle context, completeCopy (instantiateWithin bound) bound template args (table.symbol template).name
        table.config.passLimit table.copyBegun = .ok made middle ∧
      after.symbols = middle.symbols ∧ middle.copyContext 0 = context ∧
      table.templated? template = some context.templated ∧
      context.bindings = ((table.symbol template).parameters.zip args).reverse ∧
      CompleteCopy table.copyBegun middle 0 context made ∧
      ∀ source copy, (source, copy) ∈ context.copies →
        ∀ type, (after.symbol copy).type = type ∨ (after.symbol copy).returnType = some type →
          ∀ id, type.LinksTo id →
            (∃ source, (source, id) ∈ context.copies) ∨ (∃ arg ∈ args, arg.LinksTo id) ∨ after.IsInstance id ∨
              table.isWithin id context.templated = false ∧
                (∀ arg, (id, arg) ∉ (table.symbol template).parameters.zip args) ∧
                ∀ later, (id, later) ∈ context.copies → copy.index < later.index := by
  obtain ⟨middle, hcopy, hsymbols⟩ := instantiateUncached_ok idle ends
  have hsound := idle.sound_copyBegun represented
  have hcontexts : table.copyBegun.templates.contexts.size = 0 := by
    show table.templates.contexts.size = 0
    rw [idle]
    rfl
  have hcalm : table.copyBegun.templates.queue = [] := by
    show table.templates.queue = []
    rw [idle]
  have hreads := fun eager => readsNames_substituter hsound.represented bound bound eager
  obtain ⟨first, filled, hfill, hdrained⟩ := bind_eq_ok.mp hcopy
  obtain ⟨_, last, hdrain, hdrained⟩ := bind_eq_ok.mp hdrained
  cases hdrained
  obtain ⟨templated, htemplated, hmade, hmirrored⟩ := mirrored_copyTemplate hsound.represented (hreads false) hsound
    (Nat.succ_ne_zero _) given (lacks_of_existingInstance? absent) hfill
  rw [hcontexts] at hmirrored
  obtain ⟨hunderway, hkeeps, hdone⟩ :=
    underway_drainQueue hsound.represented (hreads true) hcalm _ _ filled middle hmirrored.underway hdrain
  have hcomplete : CompleteCopy table.copyBegun middle 0 (middle.copyContext 0) made :=
    (hmirrored.keeps hunderway hkeeps).complete (hmade ▸ .head _) hdone
  have hbindings : (middle.copyContext 0).bindings = ((table.symbol template).parameters.zip args).reverse :=
    hunderway.grown.bindings
  have hsymbol : ∀ id, after.symbol id = middle.symbol id := Table.symbol_of_symbols_eq hsymbols
  refine ⟨middle, _, hcopy, hsymbols, rfl, hunderway.templated ▸ htemplated, hbindings, hcomplete, ?_⟩
  intro source copy member type has id linked
  rw [hsymbol] at has
  rcases hcomplete.linksTo member has linked with copied | ⟨pair, bound, inside⟩ | isInstance |
    ⟨unbound, outside, later⟩
  · exact .inl copied
  · rw [hbindings] at bound
    exact .inr (.inl ⟨pair.2, (List.of_mem_zip (List.mem_reverse.mp bound)).2, inside⟩)
  · refine .inr (.inr (.inl ?_))
    simpa only [Table.IsInstance, hsymbol] using isInstance
  · -- A table that begins a copy has the scopes that it had.
    have hsame : table.SameSkeleton table.copyBegun := ⟨rfl, rfl, fun _ => rfl⟩
    rw [Table.isWithin, hsame.scopeChain_eq] at outside
    refine .inr (.inr (.inr ⟨outside, fun arg bound => ?_, later⟩))
    rw [hbindings] at unbound
    exact absurd (List.lookup_eq_none_iff.mp unbound _ (List.mem_reverse.mpr bound)) (by simp)

/-- A template 1 of typedefs for its parameter 2; and a class template 4 with the parameter 5, whose class 6 has a
class 7, a template 9 of typedefs for the instance 8 of the first template for this class, and a class 13 with a base
that is a typedef of the template 9, for the parameter. -/
def declareTypedefBase : List Action :=
  declareTemplate 1 ⟨17⟩ (.createBasic ⟨17⟩ (Descriptor.ofSymbol ⟨2⟩).asTypedef) ++
    declareTemplate 4 ⟨19⟩ (.createClass ⟨19⟩ .struct) ++
    [.perform (.createClass ⟨20⟩ .struct), .perform (.addSymbol ⟨6⟩ ⟨7⟩),
      .perform (.instantiate ⟨1⟩ [.ofSymbol ⟨7⟩])] ++
    declareTemplate 9 ⟨21⟩ (.createBasic ⟨21⟩ (Descriptor.ofSymbol ⟨8⟩).asTypedef) ++
    [.perform (.addSymbol ⟨6⟩ ⟨9⟩), .perform (.instantiate ⟨9⟩ [.ofSymbol ⟨5⟩]),
      .perform (.createClass ⟨22⟩ .struct), .perform (.addParent ⟨13⟩ ⟨12⟩ .pub false),
      .perform (.addSymbol ⟨6⟩ ⟨13⟩)]

@[irreducible]
def typedefBaseTable : Table := (Table.new {}).ran declareTypedefBase

/-- The copy of the class has copies of all that is in it, in their order.  The base of the last class was read as an
instance, which is a typedef of another instance, of the template outside; and the class behind that is the class 7
itself.  So this base is no copy, although the class was copied. -/
theorem nested_base_behind_instances :
    ∃ after middle, instantiateUncached (instantiateWithin 4) 4 ⟨4⟩ [.ofKind .int] typedefBaseTable = .ok ⟨14⟩ after ∧
      after.symbols = middle.symbols ∧ (⟨7⟩, ⟨15⟩) ∈ (middle.copyContext 0).copies ∧
      Mirrors (middle.copyContext 0).copies (typedefBaseTable.symbol ⟨6⟩).outline (middle.symbol ⟨14⟩).outline ∧
      (after.symbol ⟨14⟩).contents = [⟨15⟩, ⟨16⟩, ⟨19⟩] ∧ (after.symbol ⟨19⟩).parents.map (·.parent) = [⟨7⟩] ∧
      ∃ link seen, middle.IsInstance link ∧ typedefBaseTable.copyBegun.WentThrough middle 0 seen ∧
        seen.classOf link = ⟨7⟩ := by
  have hcalm : typedefBaseTable.Calm := by
    have hreached : Reached Action.Joins ((Table.new {}).ran declareTypedefBase) :=
      Reached.ran (.new _) (by decide +kernel)
    rw [typedefBaseTable]
    exact hreached.calm
  have hgiven : ∀ arg ∈ [Descriptor.ofKind .int], arg.Below typedefBaseTable.size := by
    simpa using Descriptor.Below.ofKind _ _
  obtain ⟨after, hends, hcontents, hparents⟩ : ∃ after,
      instantiateUncached (instantiateWithin 4) 4 ⟨4⟩ [.ofKind .int] typedefBaseTable = .ok ⟨14⟩ after ∧
        (after.symbol ⟨14⟩).contents = [⟨15⟩, ⟨16⟩, ⟨19⟩] ∧ (after.symbol ⟨19⟩).parents.map (·.parent) = [⟨7⟩] :=
    ⟨_, eq_ok_of_ending (by decide +kernel), by decide +kernel, by decide +kernel⟩
  obtain ⟨middle, _, hcopy, hsymbols, rfl, -, hbindings, hcomplete, -⟩ := instantiated_copy_complete
    typedefBaseTable hcalm.represented hcalm.idle 4 ⟨4⟩ _ hgiven (by decide +kernel) ⟨14⟩ after hends
  obtain ⟨other, hother, hcopies⟩ : ∃ other, completeCopy (instantiateWithin 4) 4 ⟨4⟩ [.ofKind .int]
      (typedefBaseTable.symbol ⟨4⟩).name typedefBaseTable.config.passLimit typedefBaseTable.copyBegun = .ok ⟨14⟩ other ∧
        (other.copyContext 0).copies =
          [(⟨13⟩, ⟨19⟩), (⟨11⟩, ⟨18⟩), (⟨10⟩, ⟨17⟩), (⟨9⟩, ⟨16⟩), (⟨7⟩, ⟨15⟩), (⟨6⟩, ⟨14⟩)] :=
    ⟨_, eq_ok_of_ending (by decide +kernel), by decide +kernel⟩
  cases hother.symm.trans hcopy
  have hsymbol : ∀ id, after.symbol id = middle.symbol id := Table.symbol_of_symbols_eq hsymbols
  have hplace : (middle.symbol ⟨19⟩).typeAt (.parent 0) = some (.ofSymbol ⟨7⟩) := by
    rw [← hsymbol, Symbol.typeAt_parent, hparents]
    rfl
  refine ⟨after, middle, hends, hsymbols, by simp [hcopies], hcomplete.mirrors (⟨6⟩, ⟨14⟩) (by simp [hcopies]),
    hcontents, hparents, ?_⟩
  obtain ⟨base, read, hbase, hread, hplaced⟩ := (hcomplete.read (⟨13⟩, ⟨19⟩) (by simp [hcopies]) _ _ hplace).read
  have huse : (typedefBaseTable.copyBegun.symbol ⟨13⟩).typeAt (.parent 0) = some (.ofSymbol ⟨12⟩) := by
    have hsource : (typedefBaseTable.copyBegun.symbol ⟨13⟩).parents.map (·.parent) = [⟨12⟩] := by decide +kernel
    rw [Symbol.typeAt_parent, hsource]
    rfl
  obtain rfl : .ofSymbol ⟨12⟩ = base := Option.some.inj (huse.symm.trans hbase)
  generalize hclass : Descriptor.ofSymbol ⟨7⟩ = current at hplaced
  cases hplaced with
  | @base _ link seen linked _ through =>
      refine ⟨link, seen, ?_, through, (Option.some.inj (congrArg Descriptor.link hclass)).symm⟩
      obtain ⟨source, hsource, hname⟩ := hread.base link linked
      obtain rfl : ⟨12⟩ = source := Option.some.inj hsource
      cases hname with
      | argument bound =>
          have hparameters : (typedefBaseTable.symbol ⟨4⟩).parameters = [⟨5⟩] := by decide +kernel
          rw [hbindings, hparameters] at bound
          cases bound
      | copied member => simp [hcopies] at member
      | made isInstance => exact isInstance
      | outside _ plain =>
          have hplaceholder : (typedefBaseTable.copyBegun.symbol ⟨12⟩).isPlaceholder = true := by decide +kernel
          rw [hplaceholder] at plain
          cases plain

end Analysis

end NameBinding
