import NameBinding.Proofs.Table.Asking
import NameBinding.Proofs.Template.Matching

/-!
# The order of function templates in a grown table

Which of two function templates is more specialized is decided by matching the types of their parameters with each
other.  Where such a type names an instance, the origin of the instance is read, since an instance stands for a
template-id.  Apart from origins, nothing that is read changes in a table that grows.

* `Table.ReadsOrigin`: the symbols whose origins are read where a type is matched.
* `Grows.deduceType_eq`: types match as before where the origins that are read have been kept.

The main statement is `Grows.moreSpecializedFunction_eq`.
-/

namespace NameBinding

/-- A loop over a list gives the same if its steps do. -/
theorem foldlM_option_congr {α β : Type} {step other : β → α → Option β} {list : List α}
    (same : ∀ state, ∀ element ∈ list, step state element = other state element) (start : β) :
    list.foldlM step start = list.foldlM other start := by
  induction list generalizing start with
  | nil => rfl
  | cons first rest ih =>
      rw [List.foldlM_cons, List.foldlM_cons, same start first List.mem_cons_self]
      exact congrArg _ (funext fun next =>
        ih (fun state element member => same state element (List.mem_cons_of_mem first member)) next)

namespace Descriptor

/-- The types are built on the same declaration, with the same template arguments. -/
def SameBase (a b : Descriptor) : Prop := a.link = b.link ∧ a.templateArgs = b.templateArgs

theorem SameBase.trans {a b c : Descriptor} (first : a.SameBase b) (second : b.SameBase c) : a.SameBase c :=
  ⟨first.1.trans second.1, first.2.trans second.2⟩

theorem sameBase_stripReference (type : Descriptor) : type.stripReference.SameBase type := by
  unfold stripReference
  split <;> exact ⟨rfl, rfl⟩

theorem sameBase_stripTopCv (type : Descriptor) : type.stripTopCv.SameBase type := by
  obtain ⟨kind, flags, ops, link, args, sort, constant, value⟩ := type
  cases ops <;> exact ⟨rfl, rfl⟩

end Descriptor

namespace Table

variable {before after : Table} {type a b : Descriptor} {x template : SymbolId}

/-- What is around the base of a type has no part in replacing the base. -/
theorem flattenSteps_sameBase (same : a.SameBase b) (steps : Nat) :
    (before.flattenSteps steps a).SameBase (before.flattenSteps steps b) := by
  induction steps generalizing a b with
  | zero => exact same
  | succ steps ih =>
      cases hlink : b.link with
      | none =>
          rw [flattenSteps_of_unlinked (same.1.trans hlink), flattenSteps_of_unlinked hlink]
          exact same
      | some link =>
          simp only [flattenSteps, same.1.trans hlink, hlink]
          split
          · exact ⟨rfl, same.2⟩
          · split
            · exact same
            · refine ih ⟨?_, ?_⟩
              · rw [Descriptor.link_substituteBase, Descriptor.link_substituteBase]
              · rw [Descriptor.templateArgs_substituteBase, Descriptor.templateArgs_substituteBase]

theorem flattenType_flat (ends : before.LinksEnd) (typedefs : before.TypedefsEnd)
    (below : type.Below before.size) :
    before.flattenType (before.flattenType type) = before.flattenType type := by
  cases hlink : type.link with
  | none => rw [flattenType, flattenType, flattenSteps_of_unlinked hlink, flattenSteps_of_unlinked hlink]
  | some link =>
      obtain ⟨steps, chain⟩ := typedefs link (below.link hlink)
      exact chain.flattenSteps_flat ends hlink (Nat.lt_succ_of_le chain.steps_le) _

/-! ## Origins that are read -/

/-- The symbols whose origins are read where the type is matched: what it is built on, unless arguments are written
out, and what the arguments of its template-id name. -/
inductive ReadsOrigin (table : Table) : Descriptor → SymbolId → Prop where
  | base {type : Descriptor} {link : SymbolId} (linked : (table.flattenType type).link = some link)
      (plain : (table.flattenType type).templateArgs = []) : ReadsOrigin table type (table.canonical link)
  | argument {type arg : Descriptor} {template x : SymbolId} {args : List Descriptor}
      (parts : table.templateIdParts? (table.flattenType type) = some (template, args)) (member : arg ∈ args)
      (inside : ReadsOrigin table arg x) : ReadsOrigin table type x

theorem templateIdParts?_sameBase (same : a.SameBase b) :
    before.templateIdParts? a = before.templateIdParts? b := by
  simp only [templateIdParts?, same.1, same.2]

theorem ReadsOrigin.congr (same : (before.flattenType a).SameBase (before.flattenType b))
    (reads : before.ReadsOrigin a x) : before.ReadsOrigin b x := by
  cases reads with
  | base linked plain => exact .base (same.1.symm.trans linked) (same.2.symm.trans plain)
  | argument parts member inside =>
      exact .argument ((templateIdParts?_sameBase same).symm.trans parts) member inside

theorem Represented.readsOrigin_lt (represented : before.Represented) (below : type.Below before.size)
    (reads : before.ReadsOrigin type x) : x.index < before.size := by
  induction reads with
  | base linked _ => exact represented.canonical_lt ((represented.flattenType_below below).link linked)
  | argument parts member _ ih =>
      exact ih ((represented.templateIdParts?_below (represented.flattenType_below below) parts).2 _ member)

/-- Every origin that is read where the type is matched is the one that it was. -/
def KeepsOrigins (before after : Table) (type : Descriptor) : Prop :=
  ∀ x, before.ReadsOrigin type x → (after.symbol x).origin = (before.symbol x).origin

/-- For a flattened type the same origins are read, also below a reference and without qualifiers. -/
theorem KeepsOrigins.flattened (keeps : before.KeepsOrigins after type) (calm : before.Calm)
    (typedefs : before.TypedefsEnd) (below : type.Below before.size)
    (same : a.SameBase (before.flattenType type)) : before.KeepsOrigins after a := by
  refine fun x reads => keeps x (reads.congr ?_)
  have hsame : (before.flattenType a).SameBase (before.flattenType (before.flattenType type)) :=
    flattenSteps_sameBase same (before.size + 1)
  rwa [flattenType_flat calm.linksEnd typedefs below] at hsame

/-! ## A grown table -/

/-- One step of the comparison of two function templates: the type of a parameter of the second one is matched with
that of a parameter of the first one. -/
def matchParameters (table : Table) (parameters : List SymbolId) (known : Bindings) (x y : SymbolId) :
    Option Bindings :=
  let arg := (table.flattenType (table.symbol x).type).stripReference
  let pattern := (table.flattenType (table.symbol y).type).stripReference
  let limit := table.config.nestingLimit
  if table.mentions parameters pattern then table.deduceType parameters limit .exact known pattern arg
  else table.deduceType parameters limit .exact known pattern.stripTopCv arg.stripTopCv

namespace Grows

variable {parameters : List SymbolId}

theorem mentionsWithin_eq (grows : before.Grows after) (represented : before.Represented) (depth : Nat)
    (below : type.Below before.size) :
    after.mentionsWithin parameters depth type = before.mentionsWithin parameters depth type := by
  induction depth generalizing type with
  | zero => rfl
  | succ depth ih =>
      have hargs : ∀ {args : List Descriptor}, (∀ arg ∈ args, arg.Below before.size) →
          args.any (after.mentionsWithin parameters depth) = args.any (before.mentionsWithin parameters depth) := by
        intro args within
        rw [Bool.eq_iff_iff, List.any_eq_true, List.any_eq_true]
        refine exists_congr fun arg => and_congr_right fun member => ?_
        rw [ih (within arg member)]
      have hlink : (type.link.any fun link => link ∈ parameters ||
            (after.symbol link).placeholder?.any fun use =>
              use.template ∈ parameters || use.args.any (after.mentionsWithin parameters depth)) =
          type.link.any fun link => link ∈ parameters ||
            (before.symbol link).placeholder?.any fun use =>
              use.template ∈ parameters || use.args.any (before.mentionsWithin parameters depth) := by
        cases hlink : type.link with
        | none => rfl
        | some link =>
            simp only [Option.any_some, (grows.symbols link (below.link hlink)).placeholder?]
            cases hplaceholder : (before.symbol link).placeholder? with
            | none => rfl
            | some use =>
                have hwithin := Symbol.placeholder_within (represented.within link) hplaceholder
                simp only [TemplateUse.mentions, Within.cons, Descriptor.within_mentionsAll] at hwithin
                simp only [Option.any_some, hargs hwithin.2]
      simp only [mentionsWithin, hlink, hargs below.args]

variable (grows : before.Grows after) (calm : before.Calm)

include grows calm

theorem templateIdParts?_eq (below : type.Below before.size)
    (same : ∀ link, type.link = some link → type.templateArgs = [] →
      (after.symbol (before.canonical link)).origin = (before.symbol (before.canonical link)).origin) :
    after.templateIdParts? type = before.templateIdParts? type := by
  cases hlink : type.link with
  | none =>
      rw [templateIdParts?, templateIdParts?, hlink]
      rfl
  | some link =>
      have hlt := below.link hlink
      have hsymbol := grows.symbols _ (calm.represented.canonical_lt hlt)
      simp only [templateIdParts?, hlink, Option.bind_some, grows.canonical_eq calm hlt, hsymbol.placeholder?]
      cases hargs : type.templateArgs with
      | nil => rw [same link hlink hargs]
      | cons arg args => rfl

theorem bindParameter_eq {parameter : SymbolId} {mode : DeductionMode} {bindings : Bindings}
    {pattern arg : Descriptor} (lt : parameter.index < before.size) (given : arg.Below before.size) :
    after.bindParameter parameter mode bindings pattern arg =
      before.bindParameter parameter mode bindings pattern arg := by
  have hrest : { arg with ops := arg.ops.drop pattern.ops.length }.Below before.size :=
    given.withOps fun op member => given.ops op (List.mem_of_mem_drop member)
  simp only [bindParameter, (grows.symbols parameter lt).type,
    grows.argumentSort_eq calm (hrest.stripSpecifiers.stripDefault.setTopCv _)]

/-- Template-ids match as before if their arguments do. -/
theorem deduceTemplateId_eq {deduce other : Bindings → Descriptor → Descriptor → Option Bindings}
    {mode : DeductionMode} {bindings : Bindings} {pattern arg : Descriptor}
    (below : pattern.Below before.size) (given : arg.Below before.size)
    (samePattern : after.templateIdParts? pattern = before.templateIdParts? pattern)
    (sameArg : after.templateIdParts? arg = before.templateIdParts? arg)
    (deduces : ∀ patternTemplate patternArgs argTemplate argArgs,
      before.templateIdParts? pattern = some (patternTemplate, patternArgs) →
      before.templateIdParts? arg = some (argTemplate, argArgs) →
      ∀ known, ∀ p ∈ patternArgs, ∀ q ∈ argArgs, deduce known p q = other known p q) :
    after.deduceTemplateId parameters deduce mode bindings pattern arg =
      before.deduceTemplateId parameters other mode bindings pattern arg := by
  simp only [deduceTemplateId, samePattern, sameArg]
  cases hpattern : before.templateIdParts? pattern with
  | none => rfl
  | some patternParts =>
      obtain ⟨patternTemplate, patternArgs⟩ := patternParts
      cases harg : before.templateIdParts? arg with
      | none => rfl
      | some argParts =>
          obtain ⟨argTemplate, argArgs⟩ := argParts
          have hpatternLt := (calm.represented.templateIdParts?_below below hpattern).1
          have hargLt := (calm.represented.templateIdParts?_below given harg).1
          have hloop : ∀ bound : Bindings,
              (patternArgs.zip argArgs).foldlM (fun known pair => deduce known pair.1 pair.2) bound =
                (patternArgs.zip argArgs).foldlM (fun known pair => other known pair.1 pair.2) bound :=
            foldlM_option_congr fun known pair member =>
              deduces _ _ _ _ hpattern harg known pair.1 (List.of_mem_zip member).1 pair.2
                (List.of_mem_zip member).2
          simp only [Option.bind_eq_bind, Option.bind_some, grows.canonical_eq calm hpatternLt,
            grows.canonical_eq calm hargLt, hloop]

/-- Types match as before where the origins that are read have been kept. -/
theorem deduceType_eq (typedefs : before.TypedefsEnd)
    (within : ∀ parameter ∈ parameters, parameter.index < before.size) (depth : Nat) (mode : DeductionMode)
    (bindings : Bindings) {pattern arg : Descriptor} (below : pattern.Below before.size)
    (given : arg.Below before.size) (keepsPattern : before.KeepsOrigins after pattern)
    (keepsArg : before.KeepsOrigins after arg) :
    after.deduceType parameters depth mode bindings pattern arg =
      before.deduceType parameters depth mode bindings pattern arg := by
  induction depth generalizing mode bindings pattern arg with
  | zero => rfl
  | succ depth ih =>
      have hpattern := calm.represented.flattenType_below below
      have harg := calm.represented.flattenType_below given
      have hparts : ∀ {type : Descriptor}, type.Below before.size → before.KeepsOrigins after type →
          after.templateIdParts? (before.flattenType type) = before.templateIdParts? (before.flattenType type) :=
        fun htype keeps => grows.templateIdParts?_eq calm (calm.represented.flattenType_below htype)
          fun link linked plain => keeps _ (.base linked plain)
      have htemplateId : after.deduceTemplateId parameters (after.deduceType parameters depth .exact) mode bindings
            (before.flattenType pattern) (before.flattenType arg) =
          before.deduceTemplateId parameters (before.deduceType parameters depth .exact) mode bindings
            (before.flattenType pattern) (before.flattenType arg) := by
        refine grows.deduceTemplateId_eq calm hpattern harg (hparts below keepsPattern) (hparts given keepsArg) ?_
        intro patternTemplate patternArgs argTemplate argArgs patternParts argParts known p memberP q memberQ
        exact ih .exact known ((calm.represented.templateIdParts?_below hpattern patternParts).2 p memberP)
          ((calm.represented.templateIdParts?_below harg argParts).2 q memberQ)
          (fun x reads => keepsPattern x (.argument patternParts memberP reads))
          fun x reads => keepsArg x (.argument argParts memberQ reads)
      simp only [deduceType, grows.flattenType_eq calm typedefs below, grows.flattenType_eq calm typedefs given,
        htemplateId]
      cases hlink : (before.flattenType pattern).link with
      | none => rfl
      | some link =>
          dsimp only
          rw [Symbol.isPlaceholder, Symbol.isPlaceholder, (grows.symbols link (hpattern.link hlink)).placeholder?]
          split
          · rename_i hmember
            rw [Bool.and_eq_true, decide_eq_true_eq] at hmember
            exact grows.bindParameter_eq calm (within link hmember.1) harg
          · rfl

/-- One step of the comparison: a parameter of one template is matched with one of the other one. -/
theorem matchParameters_eq (typedefs : before.TypedefsEnd)
    (within : ∀ parameter ∈ parameters, parameter.index < before.size) (known : Bindings) {x y : SymbolId}
    (ltX : x.index < before.size) (ltY : y.index < before.size)
    (keepsX : before.KeepsOrigins after (before.symbol x).type)
    (keepsY : before.KeepsOrigins after (before.symbol y).type) :
    after.matchParameters parameters known x y = before.matchParameters parameters known x y := by
  have hbelow : ∀ z : SymbolId, (before.symbol z).type.Below before.size := calm.represented.type_below
  have hflat : ∀ z : SymbolId, (before.flattenType (before.symbol z).type).stripReference.Below before.size :=
    fun z => (calm.represented.flattenType_below (hbelow z)).stripReference
  have hbase := fun z : SymbolId =>
    Descriptor.sameBase_stripReference (before.flattenType (before.symbol z).type)
  have hbare := fun z : SymbolId =>
    Descriptor.sameBase_stripTopCv (before.flattenType (before.symbol z).type).stripReference
  have hqualified := grows.deduceType_eq calm typedefs within before.config.nestingLimit .exact known (hflat y)
    (hflat x) (keepsY.flattened calm typedefs (hbelow y) (hbase y))
    (keepsX.flattened calm typedefs (hbelow x) (hbase x))
  have hunqualified := grows.deduceType_eq calm typedefs within before.config.nestingLimit .exact known
    (hflat y).stripTopCv (hflat x).stripTopCv
    (keepsY.flattened calm typedefs (hbelow y) ((hbare y).trans (hbase y)))
    (keepsX.flattened calm typedefs (hbelow x) ((hbare x).trans (hbase x)))
  have hmentions : after.mentions parameters (before.flattenType (before.symbol y).type).stripReference =
      before.mentions parameters (before.flattenType (before.symbol y).type).stripReference := by
    rw [mentions, mentions, grows.config, grows.mentionsWithin_eq calm.represented _ (hflat y)]
  rw [matchParameters, matchParameters, (grows.symbols x ltX).type, (grows.symbols y ltY).type,
    grows.flattenType_eq calm typedefs (hbelow x), grows.flattenType_eq calm typedefs (hbelow y), grows.config,
    hmentions, hqualified, hunqualified]

/-- Of two function templates the same one is more specialized as before, if the origins
that are read for the types of their parameters have been kept. -/
theorem moreSpecializedFunction_eq (typedefs : before.TypedefsEnd) {first second : SymbolId}
    (ltFirst : first.index < before.size) (ltSecond : second.index < before.size)
    (keeps : ∀ template, template = first ∨ template = second → ∀ function,
      before.templated? template = some function → ∀ parameter ∈ (before.symbol function).parameters,
      before.KeepsOrigins after (before.symbol parameter).type) :
    after.moreSpecializedFunction first second = before.moreSpecializedFunction first second := by
  rw [moreSpecializedFunction, moreSpecializedFunction, grows.templated?_eq ltFirst, grows.templated?_eq ltSecond]
  cases hfirst : before.templated? first with
  | none => rfl
  | some functionFirst =>
      cases hsecond : before.templated? second with
      | none => rfl
      | some functionSecond =>
          have hltFirst := calm.represented.templated?_lt hfirst
          have hltSecond := calm.represented.templated?_lt hsecond
          simp only [(grows.symbols _ hltFirst).parameters, (grows.symbols _ hltSecond).parameters,
            (grows.symbols second ltSecond).parameters]
          refine congrArg (fun deduced => _ && Option.isSome deduced)
            (foldlM_option_congr (fun known pair member => ?_) _)
          obtain ⟨memberX, memberY⟩ := List.of_mem_zip member
          exact grows.matchParameters_eq calm typedefs (calm.represented.parameters_within second) known
            (calm.represented.parameters_within _ _ memberX) (calm.represented.parameters_within _ _ memberY)
            (keeps first (.inl rfl) _ hfirst _ memberX) (keeps second (.inr rfl) _ hsecond _ memberY)

end Grows

end Table

end NameBinding
