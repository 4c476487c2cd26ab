import NameBinding.Proofs.Table.Represented
import NameBinding.Proofs.Template.InstanceSteps

/-!
# How a table changes

Whatever the engine does to a table is a sequence of few changes: a symbol is added, a symbol is
edited, something other than the symbols changes, or the copies of a template are linked among each
other.  `Change` lists them, for a `Regime` that says which edits of which symbols are allowed and what
is out of reach: symbols below `base` and the work queued for them, copy contexts below `floor`.

From that list follows, one induction each, what a run keeps:

* `Changes.represented`: everything mentioned is in the table;
* `Changes.linksEnd`: every chain of links ends;
* `Changes.unspecialized`: no template has partial specializations;
* `Changes.sameParts`: the links, the types and the parts of the symbols below `base` stay as they are;
* `Changes.waits` and `Changes.news`: so does the work queued for them.
-/

namespace NameBinding

/-! ## Kinds of edits -/

/-- The partial specializations of a template. -/
def Symbol.specializations (symbol : Symbol) : List SymbolId :=
  (symbol.templateData?.map (·.specializations)).getD []

/-- The explicit specializations of a template. -/
def Symbol.explicits (symbol : Symbol) : List Instance :=
  (symbol.templateData?.map (·.explicits)).getD []

/-- The placeholders of a template. -/
def Symbol.placeholders (symbol : Symbol) : List Instance :=
  (symbol.templateData?.map (·.placeholders)).getD []

/-- None of the entries is for these arguments. -/
def Lacks (entries : List Instance) (args : List Descriptor) : Prop :=
  ∀ entry ∈ entries, Descriptor.sameAll entry.args args = false

/-- No explicit specialization, instance or placeholder is remembered. -/
structure Symbol.Unlisted (symbol : Symbol) : Prop where
  explicits : symbol.explicits = []
  instances : symbol.instances = []
  placeholders : symbol.placeholders = []

/-- The symbol stands for nothing else and has no partial specialization. -/
structure Symbol.Detached (symbol : Symbol) : Prop where
  aliasOf : symbol.aliasOf = none
  forwardTarget : symbol.forwardTarget = none
  specializations : symbol.specializations = []

/-- The declarations that are copied with a declaration: its parameters, members, constructors and
conversions. -/
def Symbol.parts (symbol : Symbol) : List SymbolId :=
  symbol.parameters ++ symbol.contents ++ symbol.constructors ++ symbol.conversions

/-- The same links, the same types and the same parts. -/
structure Symbol.SameParts (a b : Symbol) : Prop where
  aliasOf : a.aliasOf = b.aliasOf
  forwardTarget : a.forwardTarget = b.forwardTarget
  type : a.type = b.type
  returnType : a.returnType = b.returnType
  parts : a.parts = b.parts

namespace Symbol

theorem SameParts.refl (symbol : Symbol) : symbol.SameParts symbol := ⟨rfl, rfl, rfl, rfl, rfl⟩

theorem SameParts.trans {a b c : Symbol} (first : a.SameParts b) (second : b.SameParts c) :
    a.SameParts c where
  aliasOf := first.aliasOf.trans second.aliasOf
  forwardTarget := first.forwardTarget.trans second.forwardTarget
  type := first.type.trans second.type
  returnType := first.returnType.trans second.returnType
  parts := first.parts.trans second.parts

theorem parts_within {size : Nat} {symbol : Symbol} (within : Within size symbol.mentions) :
    Within size symbol.parts := by
  simp only [parts, Within.append]
  exact ⟨⟨⟨parameters_within within, contents_within within⟩, constructors_within within⟩,
    conversions_within within⟩

end Symbol

namespace Edit

/-- The edit leaves the links of a declaration alone. -/
def IsLinkless : Edit → Prop
  | .assign (.forwardTarget _) => False
  | .assign (.aliasOf _) => False
  | _ => True

/-- An edit after which every chain of links still ends: of no link, or of one whose target is the
symbol itself or does not lead back to it. -/
def IsSafe (table : Table) (id : SymbolId) (edit : Edit) : Prop :=
  edit.IsLinkless ∨
    ∃ target, edit = .assign (.forwardTarget (some target)) ∧
      (target = id ∨ ¬ table.Reaches target id)

/-- What the edit remembers for a tuple of arguments is the first that the symbol remembers for it.
Partial specializations leave room for a second instance. -/
def IsNews (symbol : Symbol) : Edit → Prop
  | .append (.explicit entry) => Lacks symbol.explicits entry.args
  | .append (.cached entry) => symbol.specializations = [] → Lacks symbol.instances entry.args
  | .append (.placeholder entry) => Lacks symbol.placeholders entry.args
  | _ => True

/-- An edit that copying a template may make of any symbol: what is remembered about instances, and a
type whose substitution is finished. -/
def IsSurface : Edit → Prop
  | .append (.cached _) => True
  | .append (.placeholder _) => True
  | .assign (.origin _) => True
  | .assign (.type _) => True
  | .assign (.returnType _) => True
  | .assign (.parent _ _) => True
  | _ => False

/-- An edit that puts a part into a copy. -/
def IsPart : Edit → Prop
  | .append (.parameter _) => True
  | .append (.templateParameter _) => True
  | .append (.parent _) => True
  | .append (.constructor _) => True
  | .append (.conversion _) => True
  | .append (.directive _) => True
  | .assign (.scope _ _) => True
  | .insertMember _ _ => True
  | _ => False

variable {edit : Edit}

theorem IsSurface.isLinkless (surface : edit.IsSurface) : edit.IsLinkless := by
  rcases edit with assignment | entry | ⟨name, member⟩
  · cases assignment <;> trivial
  · trivial
  · trivial

theorem IsPart.isLinkless (part : edit.IsPart) : edit.IsLinkless := by
  rcases edit with assignment | entry | ⟨name, member⟩
  · cases assignment <;> trivial
  · trivial
  · trivial

theorem IsSurface.ne_specialization (surface : edit.IsSurface) (id : SymbolId) :
    edit ≠ .append (.specialization id) := by
  rintro rfl
  exact surface

theorem IsPart.ne_specialization (part : edit.IsPart) (id : SymbolId) :
    edit ≠ .append (.specialization id) := by
  rintro rfl
  exact part

theorem IsPart.isNews (part : edit.IsPart) (symbol : Symbol) : edit.IsNews symbol := by
  rcases edit with assignment | entry | ⟨name, member⟩
  · trivial
  · cases entry with
    | explicit | cached | placeholder => exact part.elim
    | parameter | templateParameter | parent | constructor | conversion | directive
      | specialization => trivial
  · trivial

theorem IsCache.isSurface (cache : edit.IsCache) : edit.IsSurface := by
  rcases edit with assignment | entry | ⟨name, member⟩
  · cases assignment <;> trivial
  · cases entry <;> trivial
  · exact cache.elim

theorem links_apply (linkless : edit.IsLinkless) (symbol : Symbol) :
    (edit.apply symbol).aliasOf = symbol.aliasOf ∧
      (edit.apply symbol).forwardTarget = symbol.forwardTarget := by
  obtain ⟨name, scope, type, inTemplate, access, target, named, origin, link, payload⟩ := symbol
  rcases edit with assignment | entry | ⟨under, member⟩
  · cases assignment with
    | forwardTarget | aliasOf => exact linkless.elim
    | scope | type | access | origin => exact ⟨rfl, rfl⟩
    | returnType | varargs | parent | primary | definitionParameter =>
        cases payload <;> exact ⟨rfl, rfl⟩
  · cases entry <;> cases payload <;> exact ⟨rfl, rfl⟩
  · cases payload <;> exact ⟨rfl, rfl⟩

theorem specializations_apply (keeps : ∀ id, edit ≠ .append (.specialization id))
    (symbol : Symbol) : (edit.apply symbol).specializations = symbol.specializations := by
  obtain ⟨name, scope, type, inTemplate, access, target, named, origin, link, payload⟩ := symbol
  rcases edit with assignment | entry | ⟨under, member⟩
  · cases assignment <;> cases payload <;> rfl
  · cases entry with
    | specialization id => exact absurd rfl (keeps id)
    | _ => cases payload <;> rfl
  · cases payload <;> rfl

theorem specialized_apply (edit : Edit) {symbol : Symbol} (specialized : symbol.specializations ≠ []) :
    (edit.apply symbol).specializations ≠ [] := by
  by_cases hkeeps : ∀ id, edit ≠ .append (.specialization id)
  · rwa [specializations_apply hkeeps]
  · obtain ⟨id, rfl⟩ : ∃ id, edit = .append (.specialization id) := by simpa using hkeeps
    obtain ⟨name, scope, type, inTemplate, access, target, named, origin, link, payload⟩ := symbol
    cases payload with
    | template data => exact List.append_ne_nil_of_right_ne_nil _ (by simp)
    | basic | container | cls | function | placeholder => exact specialized

theorem sameParts_apply (cache : edit.IsCache) (symbol : Symbol) :
    (edit.apply symbol).SameParts symbol := by
  obtain ⟨name, scope, type, inTemplate, access, target, named, origin, link, payload⟩ := symbol
  rcases edit with assignment | entry | ⟨under, member⟩
  · cases assignment with
    | origin => exact ⟨rfl, rfl, rfl, rfl, rfl⟩
    | _ => exact cache.elim
  · cases entry with
    | cached | placeholder => cases payload <;> exact ⟨rfl, rfl, rfl, rfl, rfl⟩
    | _ => exact cache.elim
  · exact cache.elim

/-- A finished type is none of the parts. -/
theorem parts_apply (surface : edit.IsSurface) (symbol : Symbol) :
    (edit.apply symbol).parts = symbol.parts := by
  obtain ⟨name, scope, type, inTemplate, access, target, named, origin, link, payload⟩ := symbol
  rcases edit with assignment | entry | ⟨under, member⟩
  · cases assignment with
    | type | origin => rfl
    | returnType | parent => cases payload <;> rfl
    | _ => exact surface.elim
  · cases entry with
    | cached | placeholder => cases payload <;> rfl
    | _ => exact surface.elim
  · exact surface.elim

end Edit

/-! ## Running copies -/

/-- What is found under a key is one of the entries. -/
theorem mem_of_lookup {α β : Type} [BEq α] [LawfulBEq α] {entries : List (α × β)} {key : α}
    {value : β} (found : entries.lookup key = some value) : (key, value) ∈ entries := by
  obtain ⟨earlier, later, hentries, -⟩ := List.lookup_eq_some_iff.mp found
  simp [hentries]

/-- Where keys are distinct, every entry is found under its key. -/
theorem lookup_of_mem {α β : Type} [BEq α] [LawfulBEq α] {entries : List (α × β)} {key : α} {value : β}
    (distinct : (entries.map (·.1)).Nodup) (member : (key, value) ∈ entries) :
    entries.lookup key = some value := by
  induction entries with
  | nil => cases member
  | cons entry rest ih =>
      obtain ⟨hfirst, hrest⟩ := List.nodup_cons.mp distinct
      rcases List.mem_cons.mp member with rfl | later
      · rw [List.lookup_cons_self]
      · have hother : key ≠ entry.1 := by
          rintro rfl
          exact hfirst (List.mem_map.mpr ⟨_, later, rfl⟩)
        rw [List.lookup_cons, beq_eq_false_iff_ne.mpr hother]
        exact ih hrest later

namespace CopyContext

/-- What the arguments and copies of a context mention is below `size`. -/
structure Below (size : Nat) (context : CopyContext) : Prop where
  bindings : ∀ pair ∈ context.bindings, pair.2.Below size
  copies : ∀ pair ∈ context.copies, pair.2.index < size

theorem Below.mono {size bound : Nat} {context : CopyContext} (below : context.Below size)
    (le : size ≤ bound) : context.Below bound :=
  ⟨fun pair member => (below.bindings pair member).mono le,
    fun pair member => Nat.lt_of_lt_of_le (below.copies pair member) le⟩

end CopyContext

/-- What queued work mentions is below `size`. -/
structure DeferredWork.Below (size : Nat) (work : DeferredWork) : Prop where
  type : work.type.Below size
  target : work.target.index < size

theorem DeferredWork.Below.mono {size bound : Nat} {work : DeferredWork} (below : work.Below size)
    (le : size ≤ bound) : work.Below bound :=
  ⟨below.type.mono le, Nat.lt_of_lt_of_le below.target le⟩

namespace Table

/-- What running copies and queued work mention is in the table. -/
structure WorkBelow (table : Table) : Prop where
  contexts : ∀ context ∈ table.templates.contexts, context.Below table.size
  queue : ∀ work ∈ table.templates.queue, work.Below table.size

/-- No template has partial specializations. -/
def Unspecialized (table : Table) : Prop := ∀ id, (table.symbol id).specializations = []

/-- The copies of one context.  What is copied is older than `start` and only leads to symbols that
are; each copy is younger, stands for nothing yet, and is the copy of one declaration. -/
structure Copies (table : Table) (start : Nat) (context : CopyContext) : Prop where
  sources : ∀ pair ∈ context.copies, pair.1.index < start
  fresh : ∀ pair ∈ context.copies, start ≤ pair.2.index ∧ pair.2.index < table.size
  unlinked : ∀ pair ∈ context.copies, table.nextLink pair.2 = none
  lookup : ∀ pair ∈ context.copies, context.copies.lookup pair.1 = some pair.2
  unique : ∀ a ∈ context.copies, ∀ b ∈ context.copies, a.2 = b.2 → a.1 = b.1
  closed : ∀ id target, id.index < start → table.nextLink id = some target → target.index < start
  parts : ∀ id, id.index < start → Within start (table.symbol id).parts

/-- The copies in `done` have been given the links of what they were copied from. -/
structure LinksCopies (table : Table) (context : CopyContext) (done : List (SymbolId × SymbolId))
    (after : Table) : Prop where
  size_eq : after.size = table.size
  templates_eq : after.templates = table.templates
  linked : ∀ pair ∈ done, pair.1 ≠ context.templated →
    after.symbol pair.2 =
      { table.symbol pair.2 with
        forwardTarget := (table.symbol pair.1).forwardTarget.map context.copyOf
        aliasOf := (table.symbol pair.1).aliasOf.map context.copyOf }
  others : ∀ x, (∀ pair ∈ done, pair.2 = x → pair.1 = context.templated) →
    after.symbol x = table.symbol x

end Table

/-! ## Changes -/

/-- What is allowed: which edits of which symbols, the symbols and contexts that are out of reach, and
whether a use of a template without partial specializations is never ambiguous. -/
structure Regime where
  allows : Table → SymbolId → Edit → Prop
  base : Nat
  floor : Nat
  quiet : Prop
  /-- Of the symbols out of reach, only what is remembered about instances is edited. -/
  caches : ∀ table id edit, allows table id edit → id.index < base → edit.IsCache
  /-- Where nothing is ambiguous, no partial specialization is registered. -/
  plain : quiet → ∀ table id edit, allows table id edit →
    ∀ special, edit ≠ .append (.specialization special)

/-- One change of a table. -/
inductive Change (regime : Regime) : Table → Table → Prop where
  | create {table after : Table} (symbol : Symbol)
      (symbols : after.symbols = table.symbols.push symbol)
      (templates : after.templates = table.templates)
      (within : Within table.size symbol.mentions)
      (indexed : symbol.Indexed fun member => (table.symbol member).name)
      (detached : regime.quiet → symbol.Detached)
      (listed : symbol.Unlisted ∨ ∃ id, symbol.payload = (table.symbol id).payload) :
      Change regime table after
  | edit {table after : Table} (id : SymbolId) (edit : Edit) (allowed : regime.allows table id edit)
      (symbols : after.symbols = table.symbols.modify id.index edit.apply)
      (templates : after.templates = table.templates)
      (within : Within table.size edit.mentions)
      (named : ∀ name member, edit = .insertMember name member →
        (table.symbol member).name = name)
      (news : edit.IsNews (table.symbol id)) : Change regime table after
  | elsewhere {table after : Table} (symbols : after.symbols = table.symbols)
      (work : after.WorkBelow)
      (contexts : ∀ position < regime.floor,
        after.templates.contexts[position]? = table.templates.contexts[position]?)
      (waits : ∀ work ∈ table.templates.queue, work.target.index < regime.base →
        work ∈ after.templates.queue)
      (news : ∀ work ∈ after.templates.queue, work ∈ table.templates.queue ∨
        regime.base ≤ work.target.index) : Change regime table after
  | links {table after : Table} (start : Nat) (context : CopyContext) (le : regime.base ≤ start)
      (copies : table.Copies start context) (links : table.LinksCopies context context.copies after) :
      Change regime table after

/-- Any number of changes. -/
abbrev Changes (regime : Regime) : Table → Table → Prop := Relation.ReflTransGen (Change regime)

namespace Table

variable {table after : Table}

theorem WorkBelow.mono (work : table.WorkBelow) (templates : after.templates = table.templates)
    (le : table.size ≤ after.size) : after.WorkBelow := by
  constructor
  · intro context member
    rw [templates] at member
    exact (work.contexts context member).mono le
  · intro item member
    rw [templates] at member
    exact (work.queue item member).mono le

theorem WorkBelow.copyContext (work : table.WorkBelow) (position : Nat) :
    (table.copyContext position).Below table.size := by
  rw [Table.copyContext, Array.getD_eq_getD_getElem?]
  cases hcontext : table.templates.contexts[position]? with
  | none => exact ⟨fun pair member => absurd member List.not_mem_nil,
      fun pair member => absurd member List.not_mem_nil⟩
  | some context => exact work.contexts context (Array.mem_of_getElem? hcontext)

/-! ### New symbols and links -/

/-- A new symbol that is linked to nothing. -/
theorem nextLink_of_push {symbol : Symbol} (symbols : after.symbols = table.symbols.push symbol)
    (aliasOf : symbol.aliasOf = none) (forwardTarget : symbol.forwardTarget = none)
    (x : SymbolId) : after.nextLink x = table.nextLink x := by
  by_cases hx : x.index = table.size
  · have hnew : after.symbol x = symbol := by
      rw [symbol_of_push symbols, if_pos hx]
    have hold : table.nextLink x = none := by
      by_contra linked
      obtain ⟨next, hnext⟩ := Option.ne_none_iff_exists'.mp linked
      have hlt := lt_size_of_nextLink hnext
      omega
    rw [hold, nextLink, hnew, aliasOf, forwardTarget]
    rfl
  · have hsymbol : after.symbol x = table.symbol x := by
      rw [symbol_of_push symbols, if_neg hx]
    rw [nextLink, nextLink, hsymbol]

/-- The chain of a new symbol goes on with the chain of what it stands for. -/
theorem LinksEnd.of_push (represented : table.Represented) (ends : table.LinksEnd) {symbol : Symbol}
    (symbols : after.symbols = table.symbols.push symbol)
    (within : Within table.size symbol.mentions) : after.LinksEnd := by
  have hold : ∀ x : SymbolId, x.index ≠ table.size → after.nextLink x = table.nextLink x := by
    intro x hx
    have hsymbol : after.symbol x = table.symbol x := by
      rw [symbol_of_push symbols, if_neg hx]
    rw [nextLink, nextLink, hsymbol]
  -- No old chain reaches the new symbol.
  have hstands : ∀ x : SymbolId, x.index < table.size → ∃ root, after.Stands x root := by
    intro x hx
    obtain ⟨root, hroot⟩ := ends x
    refine ⟨root, hroot.congr fun y hreaches => hold y ?_⟩
    have hy : y.index < table.size :=
      Reaches.mem_of_closed hreaches hx fun a b _ hlink => represented.nextLink_lt hlink
    omega
  intro x
  cases hnext : after.nextLink x with
  | none => exact ⟨x, .refl hnext⟩
  | some next =>
      have hlt : next.index < table.size := by
        by_cases hnew : x.index = table.size
        · have hsymbol : after.symbol x = symbol := by
            rw [symbol_of_push symbols, if_pos hnew]
          obtain ⟨hlinks, -⟩ := Option.filter_eq_some_iff.mp hnext
          rw [hsymbol] at hlinks
          refine Symbol.links_lt within ?_
          rcases Option.or_eq_some_iff.mp hlinks with named | ⟨-, completed⟩
          · exact .inl named
          · exact .inr completed
        · rw [hold x hnew] at hnext
          exact represented.nextLink_lt hnext
      obtain ⟨root, hroot⟩ := hstands next hlt
      exact ⟨root, .head hnext hroot⟩

theorem LinksEnd.of_nextLink (ends : table.LinksEnd)
    (same : ∀ x, after.nextLink x = table.nextLink x) : after.LinksEnd := by
  intro x
  obtain ⟨root, hroot⟩ := ends x
  exact ⟨root, hroot.congr fun y _ => same y⟩

theorem nextLink_of_edit {id : SymbolId} {edit : Edit} (linkless : edit.IsLinkless)
    (symbols : after.symbols = table.symbols.modify id.index edit.apply) (x : SymbolId) :
    after.nextLink x = table.nextLink x := by
  have hlinks := Edit.links_apply linkless (table.symbol x)
  refine nextLink_of_symbol_eq ?_ ?_ <;>
  · rw [symbol_of_modify symbols]
    split
    · first | exact hlinks.1 | exact hlinks.2
    · rfl

namespace LinksCopies

variable {start : Nat} {context : CopyContext}

theorem copyOf_eq (copies : table.Copies start context) {source copy : SymbolId}
    (member : (source, copy) ∈ context.copies) : context.copyOf source = copy := by
  rw [CopyContext.copyOf, copies.lookup _ member]
  rfl

theorem nextLink_linked (links : table.LinksCopies context context.copies after)
    {source copy : SymbolId} (member : (source, copy) ∈ context.copies) (differs : source ≠ context.templated) :
    after.nextLink copy =
      (((table.symbol source).aliasOf.or (table.symbol source).forwardTarget).map
        context.copyOf).filter (· ≠ copy) := by
  rw [nextLink, links.linked _ member differs]
  cases (table.symbol source).aliasOf with
  | none => simp
  | some named => simp

theorem nextLink_others (links : table.LinksCopies context context.copies after) {x : SymbolId}
    (others : ∀ pair ∈ context.copies, pair.2 = x → pair.1 = context.templated) :
    after.nextLink x = table.nextLink x := by
  rw [nextLink, nextLink, links.others x others]

theorem nextLink_old (copies : table.Copies start context)
    (links : table.LinksCopies context context.copies after) {x : SymbolId} (old : x.index < start) :
    after.nextLink x = table.nextLink x := by
  refine links.nextLink_others fun pair member same => ?_
  have hfresh := (copies.fresh pair member).1
  rw [same] at hfresh
  omega

/-- A copy stands for the copy of what its source stands for; the templated declaration's own copy
stands for itself. -/
theorem stands_copy (copies : table.Copies start context)
    (links : table.LinksCopies context context.copies after) {source copy : SymbolId}
    (member : (source, copy) ∈ context.copies)
    (rest : ∀ next, table.nextLink source = some next →
      ∃ root, after.Stands (context.copyOf next) root) :
    ∃ root, after.Stands copy root := by
  by_cases htemplated : source = context.templated
  · have hothers : ∀ pair ∈ context.copies, pair.2 = copy → pair.1 = context.templated :=
      fun pair hpair same => (copies.unique pair hpair (source, copy) member same).trans htemplated
    exact ⟨copy, .refl ((links.nextLink_others hothers).trans (copies.unlinked _ member))⟩
  · cases hnext : after.nextLink copy with
    | none => exact ⟨copy, .refl hnext⟩
    | some next =>
        have hfilter := Option.filter_eq_some_iff.mp
          ((links.nextLink_linked member htemplated).symm.trans hnext)
        obtain ⟨target, htarget, rfl⟩ := Option.map_eq_some_iff.mp hfilter.1
        -- A link of the source to itself is a link of the copy to itself, which does not count.
        have hdiffers : target ≠ source := by
          rintro rfl
          simp [copyOf_eq copies member] at hfilter
        have hsource : table.nextLink source = some target := by
          simp [nextLink, htarget, hdiffers]
        obtain ⟨root, hroot⟩ := rest target hsource
        exact ⟨root, .head hnext hroot⟩

/-- The chain of an old symbol, as the copies see it: what is copied is replaced by its copy, and from
the first symbol that is not, the chain goes on among old symbols. -/
theorem stands_copyOf (ends : table.LinksEnd) (copies : table.Copies start context)
    (links : table.LinksCopies context context.copies after) {id : SymbolId} (old : id.index < start) :
    ∃ root, after.Stands (context.copyOf id) root := by
  have hstep : ∀ source : SymbolId, source.index < start →
      (∀ next, table.nextLink source = some next →
        ∃ root, after.Stands (context.copyOf next) root) →
      ∃ root, after.Stands (context.copyOf source) root := by
    intro source hold hrest
    cases hcopy : context.copies.lookup source with
    | some copy =>
        have hmember : (source, copy) ∈ context.copies := mem_of_lookup hcopy
        rw [copyOf_eq copies hmember]
        exact links.stands_copy copies hmember hrest
    | none =>
        have hself : context.copyOf source = source := by simp [CopyContext.copyOf, hcopy]
        obtain ⟨root, hroot⟩ := ends source
        rw [hself]
        refine ⟨root, hroot.congr fun y hreaches => links.nextLink_old copies ?_⟩
        exact Reaches.mem_of_closed hreaches hold fun a b ha hlink => copies.closed a b ha hlink
  obtain ⟨root, steps, chain⟩ := ends id
  induction chain with
  | last hend =>
      refine hstep root old fun next hnext => ?_
      simp [hend] at hnext
  | @link steps id next hlink _ ih =>
      refine hstep id old fun other hother => ?_
      rw [hlink, Option.some.injEq] at hother
      exact hother ▸ ih (copies.closed id next old hlink)

/-- Linking the copies lets no chain run in a circle. -/
theorem linksEnd (ends : table.LinksEnd) (copies : table.Copies start context)
    (links : table.LinksCopies context context.copies after) : after.LinksEnd := by
  intro x
  obtain ⟨root, steps, chain⟩ := ends x
  induction chain with
  | last hend =>
      by_cases hcopy : ∃ source, (source, root) ∈ context.copies
      · obtain ⟨source, hmember⟩ := hcopy
        have hstands := links.stands_copyOf ends copies (copies.sources _ hmember)
        rwa [copyOf_eq copies hmember] at hstands
      · refine ⟨root, .refl ((links.nextLink_others fun pair hpair same => ?_).trans hend)⟩
        exact absurd ⟨pair.1, same ▸ hpair⟩ hcopy
  | @link steps id next hlink _ ih =>
      by_cases hcopy : ∃ source, (source, id) ∈ context.copies
      · obtain ⟨source, hmember⟩ := hcopy
        rw [copies.unlinked _ hmember] at hlink
        cases hlink
      · obtain ⟨last, hlast⟩ := ih
        refine ⟨last, .head ((links.nextLink_others fun pair hpair same => ?_).trans hlink) hlast⟩
        exact absurd ⟨pair.1, same ▸ hpair⟩ hcopy

/-- A symbol is a copy that was linked, or it is as it was. -/
theorem cases {done : List (SymbolId × SymbolId)} (links : table.LinksCopies context done after)
    (x : SymbolId) :
    (∃ source, (source, x) ∈ done ∧ source ≠ context.templated) ∨
      after.symbol x = table.symbol x := by
  by_cases hlinked : ∃ source, (source, x) ∈ done ∧ source ≠ context.templated
  · exact .inl hlinked
  · refine .inr (links.others x fun pair hpair same => ?_)
    by_contra differs
    exact hlinked ⟨pair.1, same ▸ hpair, differs⟩

/-- The copies mention symbols of the table. -/
theorem represented (represented : table.Represented) (copies : table.Copies start context)
    (links : table.LinksCopies context context.copies after) : after.Represented := by
  have hcopyOf : ∀ target : SymbolId, target.index < table.size →
      (context.copyOf target).index < table.size := by
    intro target htarget
    rw [CopyContext.copyOf]
    cases hcopy : context.copies.lookup target with
    | none => exact htarget
    | some copy => exact (copies.fresh _ (mem_of_lookup hcopy)).2
  have hnames : ∀ x, (after.symbol x).name = (table.symbol x).name := by
    intro x
    rcases links.cases x with ⟨source, hmember, hdiffers⟩ | hsame
    · rw [links.linked _ hmember hdiffers]
    · rw [hsame]
  constructor
  · intro x
    rw [links.size_eq]
    rcases links.cases x with ⟨source, hmember, hdiffers⟩ | hsame
    · have hsource := represented.within source
      have hcopy := represented.within x
      rw [links.linked _ hmember hdiffers]
      simp only [Symbol.mentions, Within.append, Within.toList, Option.map_eq_some_iff] at hcopy ⊢
      refine ⟨⟨⟨⟨hcopy.1.1.1.1, ?_⟩, ?_⟩, hcopy.1.2⟩, hcopy.2⟩
      · rintro target ⟨old, hold, rfl⟩
        exact hcopyOf old (Symbol.links_lt hsource (.inr hold))
      · rintro target ⟨old, hold, rfl⟩
        exact hcopyOf old (Symbol.links_lt hsource (.inl hold))
    · rw [hsame]
      exact represented.within x
  · intro x
    simp only [hnames]
    rcases links.cases x with ⟨source, hmember, hdiffers⟩ | hsame
    · rw [links.linked _ hmember hdiffers]
      exact (represented.indexed x).of_eq rfl rfl
    · rw [hsame]
      exact represented.indexed x

end LinksCopies

/-- What is older than `table` and what was running in it has been left alone. -/
structure Guards (table after : Table) : Prop where
  size_le : table.size ≤ after.size
  sameParts : ∀ id : SymbolId, id.index < table.size →
    (after.symbol id).SameParts (table.symbol id)
  contexts : ∀ position < table.templates.contexts.size,
    after.templates.contexts[position]? = table.templates.contexts[position]?
  waits : ∀ work ∈ table.templates.queue, work.target.index < table.size → work ∈ after.templates.queue
  news : ∀ work ∈ after.templates.queue, work ∈ table.templates.queue ∨ table.size ≤ work.target.index

end Table

/-! ## What changes keep -/

namespace Change

variable {regime : Regime} {table after : Table}

theorem size_le (change : Change regime table after) : table.size ≤ after.size := by
  cases change with
  | create symbol symbols =>
      rw [Table.size_of_push symbols]
      omega
  | edit id edit allowed symbols => exact Nat.le_of_eq (Table.size_of_modify symbols).symm
  | elsewhere symbols => exact Nat.le_of_eq (Table.size_of_symbols_eq symbols).symm
  | links start context le copies links => exact Nat.le_of_eq links.size_eq.symm

theorem represented (change : Change regime table after) (represented : table.Represented) :
    after.Represented := by
  cases change with
  | create symbol symbols templates within indexed =>
      exact represented.of_push symbols within indexed
  | edit id edit allowed symbols templates within named =>
      exact represented.of_edit symbols within named
  | elsewhere symbols => exact represented.of_symbols symbols
  | links start context le copies links => exact links.represented represented copies

theorem work (change : Change regime table after) (work : table.WorkBelow) : after.WorkBelow := by
  have hsize := change.size_le
  cases change with
  | create symbol symbols templates => exact work.mono templates hsize
  | edit id edit allowed symbols templates => exact work.mono templates hsize
  | elsewhere symbols below => exact below
  | links start context le copies links => exact work.mono links.templates_eq hsize

theorem contexts (change : Change regime table after) {position : Nat}
    (lt : position < regime.floor) :
    after.templates.contexts[position]? = table.templates.contexts[position]? := by
  cases change with
  | create symbol symbols templates => rw [templates]
  | edit id edit allowed symbols templates => rw [templates]
  | elsewhere symbols below same => exact same position lt
  | links start context le copies links => rw [links.templates_eq]

/-- Work for what is out of reach goes on waiting. -/
theorem waits (change : Change regime table after) {work : DeferredWork}
    (queued : work ∈ table.templates.queue) (old : work.target.index < regime.base) :
    work ∈ after.templates.queue := by
  cases change with
  | create symbol symbols templates => rwa [templates]
  | edit id edit allowed symbols templates => rwa [templates]
  | elsewhere symbols below same waits => exact waits work queued old
  | links start context le copies links => rwa [links.templates_eq]

/-- Nothing is queued for what is out of reach. -/
theorem news (change : Change regime table after) {work : DeferredWork}
    (queued : work ∈ after.templates.queue) :
    work ∈ table.templates.queue ∨ regime.base ≤ work.target.index := by
  cases change with
  | create symbol symbols templates => exact .inl (templates ▸ queued)
  | edit id edit allowed symbols templates => exact .inl (templates ▸ queued)
  | elsewhere symbols below same waits news => exact news work queued
  | links start context le copies links => exact .inl (links.templates_eq ▸ queued)

theorem linksEnd (change : Change regime table after)
    (safe : ∀ table id edit, regime.allows table id edit → edit.IsSafe table id)
    (represented : table.Represented) (ends : table.LinksEnd) : after.LinksEnd := by
  cases change with
  | create symbol symbols templates within => exact ends.of_push represented symbols within
  | edit id edit allowed symbols =>
      rcases safe table id edit allowed with linkless | ⟨target, rfl, hsafe⟩
      · exact ends.of_nextLink (Table.nextLink_of_edit linkless symbols)
      · have hlinked : (table.link (id, target)).LinksEnd := by
          rcases hsafe with rfl | misses
          · exact ends.link_self target
          · exact ends.link misses
        refine hlinked.of_nextLink fun x => ?_
        rw [Table.nextLink, Table.nextLink, Table.symbol_of_modify symbols, Table.symbol_link]
        rfl
  | elsewhere symbols =>
      refine ends.of_nextLink fun x => ?_
      rw [Table.nextLink, Table.nextLink, Table.symbol_of_symbols_eq symbols]
  | links start context le copies links => exact links.linksEnd ends copies

theorem unspecialized (change : Change regime table after) (quiet : regime.quiet)
    (unspecialized : table.Unspecialized) : after.Unspecialized := by
  intro x
  cases change with
  | create symbol symbols templates within indexed detached =>
      rw [Table.symbol_of_push symbols]
      split
      · exact (detached quiet).specializations
      · exact unspecialized x
  | edit id edit allowed symbols =>
      rw [Table.symbol_of_modify symbols]
      split
      · rw [Edit.specializations_apply (regime.plain quiet table id edit allowed)]
        exact unspecialized x
      · exact unspecialized x
  | elsewhere symbols =>
      rw [Table.symbol_of_symbols_eq symbols]
      exact unspecialized x
  | links start context le copies links =>
      rcases links.cases x with ⟨source, hmember, hdiffers⟩ | hsame
      · rw [links.linked _ hmember hdiffers]
        exact unspecialized x
      · rw [hsame]
        exact unspecialized x

/-- Partial specializations are never taken back by a change. -/
theorem specialized (change : Change regime table after) {id : SymbolId}
    (specialized : (table.symbol id).specializations ≠ []) :
    (after.symbol id).specializations ≠ [] := by
  cases change with
  | create symbol symbols =>
      have hold : id.index < table.size := by
        refine Table.lt_size_of_symbol (fun symbol => !symbol.specializations.isEmpty) rfl ?_
        simpa using specialized
      rw [Table.symbol_of_push symbols, if_neg (by omega)]
      exact specialized
  | edit edited edit allowed symbols =>
      rw [Table.symbol_of_modify symbols]
      split
      · exact Edit.specialized_apply edit specialized
      · exact specialized
  | elsewhere symbols =>
      rw [Table.symbol_of_symbols_eq symbols]
      exact specialized
  | links start context le copies links =>
      rcases links.cases id with ⟨source, hmember, hdiffers⟩ | hsame
      · rw [links.linked _ hmember hdiffers]
        exact specialized
      · rw [hsame]
        exact specialized

/-- Copies are linked among each other and to what their sources are linked to. -/
theorem untargeted (change : Change regime table after) (quiet : regime.quiet)
    (linkless : ∀ table id edit, regime.allows table id edit → edit.IsLinkless) {id : SymbolId}
    (old : id.index < regime.base) (untargeted : table.Untargeted id) : after.Untargeted id := by
  intro x hx
  cases change with
  | create symbol symbols templates within indexed detached =>
      obtain ⟨haliasOf, htarget, -⟩ := detached quiet
      rw [Table.nextLink, Table.symbol_of_push symbols] at hx
      split at hx
      · simp [haliasOf, htarget] at hx
      · exact untargeted x hx
  | edit edited edit allowed symbols =>
      rw [Table.nextLink_of_edit (linkless table edited edit allowed) symbols] at hx
      exact untargeted x hx
  | elsewhere symbols =>
      rw [Table.nextLink, Table.symbol_of_symbols_eq symbols] at hx
      exact untargeted x hx
  | links start context le copies links =>
      rcases links.cases x with ⟨source, hmember, hdiffers⟩ | hsame
      · have hfilter := Option.filter_eq_some_iff.mp
          ((links.nextLink_linked hmember hdiffers).symm.trans hx)
        obtain ⟨target, htarget, hcopyOf⟩ := Option.map_eq_some_iff.mp hfilter.1
        cases hcopy : context.copies.lookup target with
        | some copy =>
            -- The copies are younger than the symbol.
            have hpair := mem_of_lookup hcopy
            have hfresh : start ≤ copy.index := (copies.fresh _ hpair).1
            rw [← Table.LinksCopies.copyOf_eq copies hpair, hcopyOf] at hfresh
            omega
        | none =>
            have hself : target = id := by simpa [CopyContext.copyOf, hcopy] using hcopyOf
            subst hself
            have hsource : target ≠ source := by
              rintro rfl
              simp [copies.lookup _ hmember] at hcopy
            exact untargeted source (by simp [Table.nextLink, htarget, hsource])
      · rw [Table.nextLink, hsame] at hx
        exact untargeted x hx

theorem sameParts (change : Change regime table after) (le : regime.base ≤ table.size)
    {x : SymbolId} (old : x.index < regime.base) :
    (after.symbol x).SameParts (table.symbol x) := by
  cases change with
  | create symbol symbols =>
      rw [Table.symbol_of_push symbols, if_neg (by omega)]
      exact .refl _
  | edit id edit allowed symbols =>
      rw [Table.symbol_of_modify symbols]
      split
      · rename_i hsame
        exact Edit.sameParts_apply (regime.caches table id edit allowed (hsame.1 ▸ old)) _
      · exact .refl _
  | elsewhere symbols =>
      rw [Table.symbol_of_symbols_eq symbols]
      exact .refl _
  | links start context base_le copies links =>
      -- Only copies are linked, and those are younger than `start`.
      rw [links.others x fun pair member same => ?_]
      · exact .refl _
      · have hfresh := (copies.fresh pair member).1
        rw [same] at hfresh
        omega

end Change

namespace Changes

variable {regime : Regime} {table after : Table}

theorem size_le (changes : Changes regime table after) : table.size ≤ after.size := by
  induction changes with
  | refl => exact Nat.le_refl _
  | tail _ change ih => exact Nat.le_trans ih change.size_le

theorem represented (changes : Changes regime table after) (represented : table.Represented) :
    after.Represented := by
  induction changes with
  | refl => exact represented
  | tail _ change ih => exact change.represented ih

theorem work (changes : Changes regime table after) (work : table.WorkBelow) : after.WorkBelow := by
  induction changes with
  | refl => exact work
  | tail _ change ih => exact change.work ih

theorem contexts (changes : Changes regime table after) {position : Nat}
    (lt : position < regime.floor) :
    after.templates.contexts[position]? = table.templates.contexts[position]? := by
  induction changes with
  | refl => rfl
  | tail _ change ih => exact (change.contexts lt).trans ih

theorem waits (changes : Changes regime table after) {work : DeferredWork}
    (queued : work ∈ table.templates.queue) (old : work.target.index < regime.base) :
    work ∈ after.templates.queue := by
  induction changes with
  | refl => exact queued
  | tail _ change ih => exact change.waits ih old

theorem news (changes : Changes regime table after) {work : DeferredWork}
    (queued : work ∈ after.templates.queue) :
    work ∈ table.templates.queue ∨ regime.base ≤ work.target.index := by
  induction changes with
  | refl => exact .inl queued
  | tail _ change ih => exact (change.news queued).elim ih .inr

theorem floor_le (changes : Changes regime table after)
    (le : regime.floor ≤ table.templates.contexts.size) :
    regime.floor ≤ after.templates.contexts.size := by
  cases hfloor : regime.floor with
  | zero => exact Nat.zero_le _
  | succ floor =>
      have hlast : floor < regime.floor := by omega
      have hsame := changes.contexts hlast
      have hfound : table.templates.contexts[floor]? = some _ :=
        Array.getElem?_eq_getElem (by omega)
      have hlt := (Array.getElem?_eq_some_iff.mp (hsame.trans hfound)).1
      omega

theorem linksEnd (changes : Changes regime table after)
    (safe : ∀ table id edit, regime.allows table id edit → edit.IsSafe table id)
    (represented : table.Represented) (ends : table.LinksEnd) : after.LinksEnd := by
  induction changes with
  | refl => exact ends
  | tail before change ih =>
      exact change.linksEnd safe (Changes.represented before represented) ih

theorem unspecialized (changes : Changes regime table after) (quiet : regime.quiet)
    (unspecialized : table.Unspecialized) : after.Unspecialized := by
  induction changes with
  | refl => exact unspecialized
  | tail _ change ih => exact change.unspecialized quiet ih

theorem specialized (changes : Changes regime table after) {id : SymbolId}
    (specialized : (table.symbol id).specializations ≠ []) :
    (after.symbol id).specializations ≠ [] := by
  induction changes with
  | refl => exact specialized
  | tail _ change ih => exact change.specialized ih

theorem untargeted (changes : Changes regime table after) (quiet : regime.quiet)
    (linkless : ∀ table id edit, regime.allows table id edit → edit.IsLinkless) {id : SymbolId}
    (old : id.index < regime.base) (untargeted : table.Untargeted id) : after.Untargeted id := by
  induction changes with
  | refl => exact untargeted
  | tail _ change ih => exact change.untargeted quiet linkless old ih

theorem sameParts (changes : Changes regime table after) (le : regime.base ≤ table.size)
    {x : SymbolId} (old : x.index < regime.base) :
    (after.symbol x).SameParts (table.symbol x) := by
  induction changes with
  | refl => exact .refl _
  | tail before change ih =>
      exact (change.sameParts (Nat.le_trans le (Changes.size_le before)) old).trans ih

/-- With everything out of reach that there is. -/
theorem guards (changes : Changes regime table after) (base : regime.base = table.size)
    (floor : regime.floor = table.templates.contexts.size) : table.Guards after where
  size_le := changes.size_le
  sameParts := fun _ old => changes.sameParts (Nat.le_of_eq base) (base ▸ old)
  contexts := fun _ lt => changes.contexts (floor ▸ lt)
  waits := fun _ queued old => changes.waits queued (base ▸ old)
  news := fun _ queued => base ▸ changes.news queued

end Changes

namespace Regime

/-- What one regime allows, the other one does. -/
structure Allows (outer inner : Regime) : Prop where
  edits : ∀ table id edit, inner.allows table id edit → outer.allows table id edit
  base : outer.base ≤ inner.base
  floor : outer.floor ≤ inner.floor
  quiet : outer.quiet → inner.quiet

theorem Allows.change {outer inner : Regime} (allows : outer.Allows inner) {table after : Table}
    (change : Change inner table after) : Change outer table after := by
  cases change with
  | create symbol symbols templates within indexed detached listed =>
      exact .create symbol symbols templates within indexed
        (fun quiet => detached (allows.quiet quiet)) listed
  | edit id edit allowed symbols templates within named news =>
      exact .edit id edit (allows.edits _ id edit allowed) symbols templates within named news
  | elsewhere symbols work contexts waits news =>
      exact .elsewhere symbols work
        (fun position lt => contexts position (Nat.lt_of_lt_of_le lt allows.floor))
        (fun work queued old => waits work queued (Nat.lt_of_lt_of_le old allows.base))
        fun work queued => (news work queued).imp_right (Nat.le_trans allows.base)
  | links start context le copies links =>
      exact .links start context (Nat.le_trans allows.base le) copies links

theorem Allows.changes {outer inner : Regime} (allows : outer.Allows inner) {table after : Table}
    (changes : Changes inner table after) : Changes outer table after := by
  induction changes with
  | refl => exact .refl
  | tail _ change ih => exact ih.tail (allows.change change)

/-- Copying a template: symbols below `base` keep their links, types and parts. -/
def copying (base floor : Nat) : Regime where
  allows _ id edit := edit.IsCache ∨ base ≤ id.index ∧ (edit.IsSurface ∨ edit.IsPart)
  base := base
  floor := floor
  quiet := True
  caches := by
    rintro - id edit (cache | ⟨fresh, -⟩) old
    · exact cache
    · omega
  plain := by
    rintro - - id edit (cache | ⟨-, surface | part⟩) special
    · exact cache.isSurface.ne_specialization special
    · exact surface.ne_specialization special
    · exact part.ne_specialization special

/-- Declaring something: any edit but one of a link. -/
def declaring : Regime where
  allows _ _ edit := edit.IsLinkless
  base := 0
  floor := 0
  quiet := False
  caches := fun _ id _ _ old => absurd old (Nat.not_lt_zero id.index)
  plain := False.elim

/-- Declaring something that may redirect declarations, as long as no chain comes back to itself. -/
def joining : Regime where
  allows table id edit := edit.IsSafe table id
  base := 0
  floor := 0
  quiet := False
  caches := fun _ id _ _ old => absurd old (Nat.not_lt_zero id.index)
  plain := False.elim

/-- Any edit at all. -/
def linking : Regime where
  allows _ _ _ := True
  base := 0
  floor := 0
  quiet := False
  caches := fun _ id _ _ old => absurd old (Nat.not_lt_zero id.index)
  plain := False.elim

theorem allows_fresh {base floor : Nat} {table : Table} {id : SymbolId} {edit : Edit}
    (fresh : base ≤ id.index) (either : edit.IsSurface ∨ edit.IsPart) :
    (copying base floor).allows table id edit :=
  .inr ⟨fresh, either⟩

theorem allows_copying {base floor base' floor' : Nat} (base_le : base ≤ base')
    (floor_le : floor ≤ floor') : (copying base floor).Allows (copying base' floor') where
  edits := by
    rintro - id edit (cache | ⟨fresh, either⟩)
    · exact .inl cache
    · exact .inr ⟨Nat.le_trans base_le fresh, either⟩
  base := base_le
  floor := floor_le
  quiet := id

theorem declaring_allows_copying (base floor : Nat) : declaring.Allows (copying base floor) where
  edits := by
    rintro - id edit (cache | ⟨-, surface | part⟩)
    · exact cache.isSurface.isLinkless
    · exact surface.isLinkless
    · exact part.isLinkless
  base := Nat.zero_le _
  floor := Nat.zero_le _
  quiet := False.elim

theorem joining_allows_declaring : joining.Allows declaring where
  edits := fun _ _ _ linkless => .inl linkless
  base := Nat.le_refl _
  floor := Nat.le_refl _
  quiet := id

end Regime

end NameBinding
