import NameBinding.Proofs.Table.Enclosing
import NameBinding.Proofs.Template.MemberPointers
import NameBinding.Proofs.Template.PlainArguments

/-!
# Classes that refer to themselves

A class template may have members whose types mention the template again, applied to its own parameters, such as
the links of a list.  While it is copied, its parameters read as the arguments, and so such a type reads as the
template applied to the arguments.  The instance that is being made is remembered for these already.

* `Table.OutsideOf`: a symbol is declared neither in the class nor as a parameter of its template.
* `Table.SelfReference` and `Table.MemberType`: the types that members may have.
* `Table.DataClass`: a class template with nothing but data members of such types.
* `Table.DataClass.grown`: it stays one while the table grows.
* `CopyRunning`: the class is being copied, and nothing else is under way.

The main statement is `substitute_memberType`: in a running copy, such a type is read at once, and no instance
is made for it.
-/

namespace NameBinding

/-! ## Arguments -/

namespace Specifiers

theorem withoutTypedef_of_not {specifiers : Specifiers} (not : specifiers.isTypedef = false) :
    specifiers.withoutTypedef = specifiers := by
  cases specifiers
  cases not
  rfl

theorem union_empty (specifiers : Specifiers) : specifiers.union {} = specifiers := by
  cases specifiers
  simp [union]

end Specifiers

namespace Descriptor

/-- The argument names the parameter and says nothing else. -/
structure JustNames (parameter : SymbolId) (arg : Descriptor) : Prop where
  link : arg.link = some parameter
  noArgs : arg.templateArgs = []
  noOps : arg.ops = []
  noFlags : arg.flags = {}
  noDefault : arg.defaultValue = none

theorem withTopCv_empty (type : Descriptor) : type.withTopCv {} = type := by
  obtain ⟨kind, flags, ops, link, args, sort, constant, value⟩ := type
  cases ops with
  | nil => simp [withTopCv, topCv, setTopCv, setBaseCv, baseCv, Cv.union]
  | cons op rest => simp [withTopCv, topCv, setTopCv, Cv.union]

/-- The name of a parameter is replaced by the argument as it is. -/
theorem JustNames.substituteBase {parameter : SymbolId} {arg : Descriptor} (names : arg.JustNames parameter)
    {replacement : Descriptor} (noTypedef : replacement.isTypedef = false)
    (noDefault : replacement.defaultValue = none) : arg.substituteBase replacement = replacement := by
  have hspecifiers := Specifiers.withoutTypedef_of_not noTypedef
  unfold Descriptor.substituteBase
  rw [baseCv, names.noFlags, names.noOps, names.noDefault, withTopCv_empty, hspecifiers, Specifiers.union_empty]
  cases replacement
  cases noDefault
  rfl

/-- A type whose base is replaced is a typedef if it was one. -/
theorem isTypedef_substituteBase (use replacement : Descriptor) :
    (use.substituteBase replacement).isTypedef = use.isTypedef := by
  simp [substituteBase, isTypedef, Specifiers.union, Specifiers.withoutTypedef]

end Descriptor

namespace Table

variable {table after : Table} {template templated : SymbolId} {type : Descriptor}

/-- Seeing through typedefs leaves the typedef specifier of the type itself alone. -/
theorem isTypedef_flattenSteps (table : Table) (steps : Nat) (type : Descriptor) :
    (table.flattenSteps steps type).isTypedef = type.isTypedef := by
  induction steps generalizing type with
  | zero => rfl
  | succ steps ih =>
      rw [flattenSteps]
      cases type.link with
      | none => rfl
      | some link =>
          dsimp only
          split
          · rfl
          · split
            · rfl
            · rw [ih, Descriptor.isTypedef_substituteBase]

/-! ## Classes -/

/-- The symbol is no parameter of the template, and the scopes around it make up a complete chain, on which the
class does not stand. -/
structure OutsideOf (table : Table) (template templated id : SymbolId) : Prop where
  noParameter : id ∉ (table.symbol template).parameters
  around : ∃ outer, table.Enclosed (id :: outer) ∧ templated ∉ id :: outer

/-- The arguments are the parameters of the template, one by one. -/
def OwnParameters (table : Table) (template : SymbolId) (args : List Descriptor) : Prop :=
  List.Forall₂ (fun parameter arg => arg.JustNames parameter) (table.symbol template).parameters args

/-- The base of the type is the template applied to its own parameters, written as a template-id or as a
placeholder. -/
inductive SelfReference (table : Table) (template templated : SymbolId) (type : Descriptor) : Prop where
  | templateId {link : SymbolId} (linked : type.link = some link) (outside : table.OutsideOf template templated link)
      (plain : (table.symbol link).placeholder? = none) (names : table.canonical link = template)
      (own : table.OwnParameters template type.templateArgs)
  | placeholder {link : SymbolId} {use : TemplateUse} (linked : type.link = some link)
      (outside : table.OutsideOf template templated link) (noArgs : type.templateArgs = [])
      (stands : (table.symbol link).placeholder? = some use) (names : use.template = template)
      (own : table.OwnParameters template use.args)

/-- Only a symbol of the table has such a type. -/
theorem SelfReference.lt_size {id : SymbolId}
    (refers : table.SelfReference template templated (table.symbol id).type) : id.index < table.size := by
  refine lt_size_of_symbol (·.type.link.isSome) rfl ?_
  cases refers with
  | templateId linked => exact Option.isSome_of_mem linked
  | placeholder linked => exact Option.isSome_of_mem linked

/-- The base of the type is builtin, a symbol outside of the template, a parameter, or the template applied to
its own parameters. -/
inductive MemberType (table : Table) (template templated : SymbolId) (type : Descriptor) : Prop where
  | builtin (unlinked : type.link = none) (noArgs : type.templateArgs = [])
  | outside {link : SymbolId} (linked : type.link = some link) (outside : table.OutsideOf template templated link)
      (plain : (table.symbol link).placeholder? = none) (noArgs : type.templateArgs = [])
  | parameter {link : SymbolId} (linked : type.link = some link)
      (own : link ∈ (table.symbol template).parameters) (noArgs : type.templateArgs = [])
  | itself (refers : table.SelfReference template templated type)

/-- A data member of the class: a symbol that holds nothing, declared in the class. -/
structure DataMember (table : Table) (template templated member : SymbolId) : Prop where
  inside : table.InsideOf member templated
  basic : (table.symbol member).payload = .basic
  type : table.MemberType template templated (table.symbol member).type
  noDefault : (table.symbol member).type.defaultValue = none

/-- A class template whose class has data members and nothing else, each of them once, and which has no
specializations. -/
structure DataClass (table : Table) (template templated : SymbolId) : Prop where
  canonical : table.canonical template = template
  proper : (table.symbol template).isTemplateParameter = false
  declares : table.templated? template = some templated
  someParameter : (table.symbol template).parameters ≠ []
  distinctParameters : (table.symbol template).parameters.Nodup
  noExplicits : (table.symbol template).explicits = []
  noSpecializations : (table.symbol template).specializations = []
  outside : table.OutsideOf template templated template
  isClass : ∃ decls, (table.symbol templated).payload = .cls { decls }
  builtin : (table.symbol templated).type.link = none
  noArgs : (table.symbol templated).type.templateArgs = []
  noDefault : (table.symbol templated).type.defaultValue = none
  distinctMembers : (table.symbol templated).contents.Nodup
  members : ∀ member ∈ (table.symbol templated).contents, table.DataMember template templated member

/-! ## While the table grows -/

/-- The scopes around a symbol of the table are symbols of the table. -/
theorem Enclosed.within (represented : table.Represented) {id : SymbolId} {outer : List SymbolId}
    (enclosed : table.Enclosed (id :: outer)) (lt : id.index < table.size) :
    ∀ scope ∈ id :: outer, scope.index < table.size := by
  induction outer generalizing id with
  | nil => simpa using lt
  | cons scope outer ih =>
      cases enclosed with
      | inside inside rest =>
          exact List.forall_mem_cons.mpr ⟨lt, ih rest (Symbol.scope_lt (represented.within id) inside)⟩

section Growth

variable {id : SymbolId} (grows : table.Grows after)

include grows

theorem Enclosed.grown {chain : List SymbolId} (enclosed : table.Enclosed chain)
    (within : ∀ id ∈ chain, id.index < table.size) : after.Enclosed chain := by
  have hscope : ∀ id : SymbolId, id.index < table.size → (after.symbol id).scope = (table.symbol id).scope :=
    fun id lt => (grows.symbols id lt).read Symbol.scope fun _ => rfl
  induction enclosed with
  | last outermost => exact .last ((hscope _ (within _ List.mem_cons_self)).trans outermost)
  | inside inside rest ih =>
      exact .inside ((hscope _ (within _ List.mem_cons_self)).trans inside)
        (ih fun id member => within id (List.mem_cons_of_mem _ member))

theorem OutsideOf.grown (represented : table.Represented) (outside : table.OutsideOf template templated id)
    (ltTemplate : template.index < table.size) (lt : id.index < table.size) :
    after.OutsideOf template templated id := by
  obtain ⟨outer, henclosed, haround⟩ := outside.around
  refine ⟨?_, outer, henclosed.grown grows (henclosed.within represented lt), haround⟩
  rw [(grows.symbols template ltTemplate).parameters]
  exact outside.noParameter

end Growth

section Calm

variable (grows : table.Grows after) (calm : table.Calm) (lt : template.index < table.size)

include grows calm lt

theorem SelfReference.grown (refers : table.SelfReference template templated type)
    (below : type.Below table.size) : after.SelfReference template templated type := by
  have hown : ∀ args, table.OwnParameters template args → after.OwnParameters template args := by
    intro args own
    rwa [OwnParameters, (grows.symbols template lt).parameters]
  cases refers with
  | templateId linked outside plain names own =>
      have hlink := below.link linked
      exact .templateId linked (outside.grown grows calm.represented lt hlink)
        ((grows.symbols _ hlink).placeholder?.trans plain) ((grows.canonical_eq calm hlink).trans names)
        (hown _ own)
  | placeholder linked outside noArgs stands names own =>
      have hlink := below.link linked
      exact .placeholder linked (outside.grown grows calm.represented lt hlink) noArgs
        ((grows.symbols _ hlink).placeholder?.trans stands) names (hown _ own)

theorem MemberType.grown (admits : table.MemberType template templated type) (below : type.Below table.size) :
    after.MemberType template templated type := by
  cases admits with
  | builtin unlinked noArgs => exact .builtin unlinked noArgs
  | outside linked outside plain noArgs =>
      have hlink := below.link linked
      exact .outside linked (outside.grown grows calm.represented lt hlink)
        ((grows.symbols _ hlink).placeholder?.trans plain) noArgs
  | parameter linked own noArgs =>
      refine .parameter linked ?_ noArgs
      rwa [(grows.symbols template lt).parameters]
  | itself refers => exact .itself (refers.grown grows calm lt below)

theorem DataMember.grown {member : SymbolId} (dataMember : table.DataMember template templated member) :
    after.DataMember template templated member := by
  have hsymbol := grows.symbols member dataMember.inside.lt_size
  refine ⟨?_, ?_, ?_, ?_⟩
  · exact (hsymbol.read Symbol.scope fun _ => rfl).trans dataMember.inside
  · exact (hsymbol.payload (by rw [Symbol.templateData?, dataMember.basic])).trans dataMember.basic
  · rw [hsymbol.type]
    exact dataMember.type.grown grows calm lt (calm.represented.type_below member)
  · rw [hsymbol.type]
    exact dataMember.noDefault

end Calm

namespace DataClass

variable (dataClass : table.DataClass template templated)

include dataClass

theorem isTemplate : (table.symbol template).isTemplate = true := isTemplate_of_templated? dataClass.declares

theorem lt_size : template.index < table.size :=
  lt_size_of_isTemplate dataClass.isTemplate

/-- What the class is made of stays while the table grows. -/
theorem grown (grows : table.Grows after) (calm : table.Calm) : after.DataClass template templated := by
  have hlt := dataClass.lt_size
  have hclass := calm.represented.templated?_lt dataClass.declares
  have htemplate := grows.symbols template hlt
  have htemplated := grows.symbols templated hclass
  obtain ⟨decls, hpayload⟩ := dataClass.isClass
  have hplain : (table.symbol templated).templateData? = none := by rw [Symbol.templateData?, hpayload]
  exact
    { canonical := (grows.canonical_eq calm hlt).trans dataClass.canonical
      proper := htemplate.isTemplateParameter.trans dataClass.proper
      declares := (grows.templated?_eq hlt).trans dataClass.declares
      someParameter := htemplate.parameters ▸ dataClass.someParameter
      distinctParameters := htemplate.parameters ▸ dataClass.distinctParameters
      noExplicits := htemplate.explicits.trans dataClass.noExplicits
      noSpecializations := htemplate.specializations.trans dataClass.noSpecializations
      outside := dataClass.outside.grown grows calm.represented hlt hlt
      isClass := ⟨decls, (htemplated.payload hplain).trans hpayload⟩
      builtin := htemplated.type ▸ dataClass.builtin
      noArgs := htemplated.type ▸ dataClass.noArgs
      noDefault := htemplated.type ▸ dataClass.noDefault
      distinctMembers := htemplated.contents ▸ dataClass.distinctMembers
      members := htemplated.contents ▸ fun member inside =>
        (dataClass.members member inside).grown grows calm hlt }

end DataClass

/-! ## What is outside of a class -/

namespace OutsideOf

variable {id : SymbolId} (outside : table.OutsideOf template templated id)

include outside

theorem ne : id ≠ templated := by
  obtain ⟨outer, -, haround⟩ := outside.around
  exact fun same => haround (same ▸ List.mem_cons_self)

theorem not_insideOf : ¬ table.InsideOf id templated := by
  intro inside
  obtain ⟨outer, henclosed, haround⟩ := outside.around
  cases henclosed with
  | last outermost =>
      rw [InsideOf, outermost] at inside
      cases inside
  | inside inside' =>
      cases Option.some.inj (inside.symm.trans inside')
      exact haround (List.mem_cons_of_mem _ List.mem_cons_self)

theorem isWithin_eq_false : table.isWithin id templated = false := by
  obtain ⟨outer, henclosed, haround⟩ := outside.around
  rw [isWithin, henclosed.scopeChain_eq, ← Bool.not_eq_true, List.contains_iff_mem]
  exact haround

end OutsideOf

/-- The type names no typedef, and no declaration that another one stands for. -/
def NamesItself (table : Table) (type : Descriptor) : Prop :=
  ∀ link, type.link = some link → table.canonical link = link ∧ (table.symbol link).type.isTypedef = false

theorem NamesItself.grown (names : table.NamesItself type) (grows : table.Grows after) (calm : table.Calm)
    (below : type.Below table.size) : after.NamesItself type := by
  intro link linked
  have hlink := below.link linked
  rw [grows.canonical_eq calm hlink, (grows.symbols link hlink).type]
  exact names link linked

theorem NamesItself.flattenType_eq (names : table.NamesItself type) : table.flattenType type = type := by
  cases hlink : type.link with
  | none => exact flattenSteps_of_unlinked hlink _
  | some link => exact flattenSteps_of_named hlink (names link hlink).1 (names link hlink).2 _

/-- The arguments are complete and spelled as they are, and no instance is remembered for them. -/
structure NewArguments (table : Table) (template : SymbolId) (args : List Descriptor) : Prop where
  length : args.length = (table.symbol template).parameters.length
  below : ∀ arg ∈ args, arg.Below table.size
  concrete : table.anyDependent args = false
  named : ∀ arg ∈ args, table.NamesItself arg
  noTypedef : ∀ arg ∈ args, arg.isTypedef = false
  noDefault : ∀ arg ∈ args, arg.defaultValue = none
  unknown : table.existingInstance? template args = none

end Table

/-! ## A running copy -/

namespace Analysis

/-- A type without a default value is read when its arguments are. -/
theorem substitute_read {instanceOf : SymbolId → List Descriptor → Analysis (Option SymbolId)} {now : Table}
    {type : Descriptor} {args : List Descriptor} {depth : Nat} (noDefault : type.defaultValue = none)
    (reads : mapReady (substitute instanceOf 0 depth) type.templateArgs now = .ok (some args) now) :
    substitute instanceOf 0 (depth + 1) type now =
      replaceBase instanceOf (substitute instanceOf 0 depth) now (now.copyContext 0)
        ((now.copyContext 0).readType type args none) now := by
  rw [substitute_succ, bind_ok reads, noDefault]
  rfl

end Analysis

/-- The class of the template is being copied into `made` for the arguments, `copies` have been made, and
nothing else is under way.  The instance is remembered. -/
structure CopyRunning (table : Table) (template templated : SymbolId) (args : List Descriptor) (made : SymbolId)
    (copies : List (SymbolId × SymbolId)) (now : Table) : Prop where
  grows : table.Grows now
  contexts : now.templates.contexts =
    #[⟨templated, ((table.symbol template).parameters.zip args).reverse, copies⟩]
  noWork : now.templates.queue = []
  cached : (now.symbol template).instances = (table.symbol template).instances ++ [⟨args, made⟩]
  sources : ∀ pair ∈ copies, pair.1 = templated ∨ table.InsideOf pair.1 templated
  fresh : ∀ pair ∈ copies, table.size ≤ pair.2.index

namespace CopyRunning

open Analysis

variable {table now : Table} {template templated made : SymbolId} {args : List Descriptor}
  {copies : List (SymbolId × SymbolId)} {type : Descriptor}
  (running : CopyRunning table template templated args made copies now)

include running

theorem copyContext_eq : now.copyContext 0 =
    ⟨templated, ((table.symbol template).parameters.zip args).reverse, copies⟩ := by
  rw [Table.copyContext, running.contexts]
  rfl

/-- Nothing outside of the class is copied. -/
theorem lookup_copies {id : SymbolId} (outside : table.OutsideOf template templated id) :
    copies.lookup id = none := by
  refine List.lookup_eq_none_iff.mpr fun pair member => ?_
  rw [bne_iff_ne]
  rintro rfl
  exact (running.sources pair member).elim outside.ne outside.not_insideOf

variable (calm : table.Calm) (dataClass : table.DataClass template templated)
  (given : table.NewArguments template args) {inst : Instantiator} {resolve : Descriptor → Analysis Descriptor}
  {instanceOf : SymbolId → List Descriptor → Analysis (Option SymbolId)} {depth : Nat}

section Parameters

include dataClass given

/-- A parameter reads as its argument. -/
theorem lookup_parameter {parameter : SymbolId} {arg : Descriptor}
    (member : (parameter, arg) ∈ (table.symbol template).parameters.zip args) :
    (now.copyContext 0).bindings.lookup parameter = some arg := by
  rw [running.copyContext_eq]
  -- The bindings stand in reverse order, which makes no difference since the parameters are distinct.
  refine lookup_of_mem ?_ (List.mem_reverse.mpr member)
  rw [List.map_reverse, List.nodup_reverse, List.map_fst_zip (Nat.le_of_eq given.length.symm)]
  exact dataClass.distinctParameters

omit dataClass given in
theorem lookup_noParameter {id : SymbolId} (noParameter : id ∉ (table.symbol template).parameters) :
    (now.copyContext 0).bindings.lookup id = none := by
  rw [running.copyContext_eq]
  refine List.lookup_eq_none_iff.mpr fun pair member => ?_
  rw [bne_iff_ne]
  rintro rfl
  exact noParameter (List.of_mem_zip (List.mem_reverse.mp member)).1

/-- The name of a parameter reads as the argument as it is. -/
theorem substitute_justNames {parameter : SymbolId} {arg replacement : Descriptor}
    (names : arg.JustNames parameter)
    (member : (parameter, replacement) ∈ (table.symbol template).parameters.zip args) :
    substitute instanceOf 0 (depth + 1) arg now = .ok (some replacement) now := by
  have hbound := running.lookup_parameter dataClass given member
  have hmember := (List.of_mem_zip member).2
  have hread : ((now.copyContext 0).readType arg [] none).JustNames parameter := by
    refine ⟨names.link, rfl, ?_, names.noFlags, rfl⟩
    show (now.copyContext 0).readOps arg.ops = []
    rw [names.noOps]
    rfl
  have hbase := hread.substituteBase (given.noTypedef _ hmember) (given.noDefault _ hmember)
  rw [substitute_succ, names.noArgs, names.noDefault]
  show replaceBase _ _ now (now.copyContext 0) ((now.copyContext 0).readType arg [] none) now = _
  simp only [replaceBase, hread.link, hbound, hread.noArgs, List.isEmpty_nil, if_true, hbase]
  rfl

/-- The own parameters of the template read as its arguments. -/
theorem mapReady_ownParameters {own : List Descriptor} (names : table.OwnParameters template own) :
    mapReady (substitute instanceOf 0 (depth + 1)) own now = .ok (some args) now := by
  -- The induction runs over a part of the parameters, while the bindings stay those of the whole list.
  have hall : ∀ {parameters own args' : List _}, List.Forall₂ (fun parameter arg => Descriptor.JustNames parameter arg)
      parameters own → args'.length = parameters.length →
      (∀ pair ∈ parameters.zip args', pair ∈ (table.symbol template).parameters.zip args) →
      mapReady (substitute instanceOf 0 (depth + 1)) own now = .ok (some args') now := by
    intro parameters own args' names
    induction names generalizing args' with
    | nil =>
        intro length _
        obtain rfl := List.length_eq_zero_iff.mp length
        rfl
    | cons first _ ih =>
        intro length members
        cases args' with
        | nil => cases length
        | cons arg args' =>
            have harg : substitute instanceOf 0 (depth + 1) _ now = .ok (some arg) now :=
              running.substitute_justNames dataClass given first (members _ List.mem_cons_self)
            have hrest := ih (Nat.succ.inj length) fun pair member =>
              members pair (List.mem_cons_of_mem _ member)
            rw [mapReady, bind_ok harg]
            show (mapReady _ _ >>= _) now = _
            rw [bind_ok hrest]
            rfl
  exact hall names given.length fun _ member => member

end Parameters

section Outside

variable {inner : Descriptor → Analysis (Option Descriptor)} {link : SymbolId} (linked : type.link = some link)
  (outside : table.OutsideOf template templated link) (lt : link.index < table.size)

include linked outside lt

/-- A symbol outside of the class stays, unless it makes up a template-id. -/
theorem replaceBase_outside (represented : table.Represented) (ltTemplate : template.index < table.size)
    (plain : (table.symbol link).placeholder? = none) :
    replaceBase instanceOf inner now (now.copyContext 0) type =
      if !type.templateArgs.isEmpty && (now.symbol (now.canonical link)).isTemplate then
        relink instanceOf { type with templateArgs := [] } link type.templateArgs
      else pure (some type) := by
  have hplain := ((running.grows.symbols link lt).placeholder?).trans plain
  have hwithin := (outside.grown running.grows represented ltTemplate lt).isWithin_eq_false
  have hbound := running.lookup_noParameter outside.noParameter
  have hcopy := running.lookup_copies outside
  rw [running.copyContext_eq] at hbound ⊢
  simp only [replaceBase, linked, hbound, hcopy, hplain, hwithin, Bool.and_false, Bool.false_eq_true, if_false]

/-- A placeholder reads as the instance of its template for its arguments. -/
theorem replaceBase_placeholder (names : table.OutsideOf template templated template) {use : TemplateUse}
    (stands : (table.symbol link).placeholder? = some use) (itself : use.template = template)
    (reads : mapReady inner use.args now = .ok (some args) now) :
    replaceBase instanceOf inner now (now.copyContext 0) type now =
      relink instanceOf type template args now := by
  have hstands := ((running.grows.symbols link lt).placeholder?).trans stands
  have hbound := running.lookup_noParameter outside.noParameter
  have hcopy := running.lookup_copies outside
  have htemplate : (now.copyContext 0).templateOf use.template = template := by
    have hbound := running.lookup_noParameter names.noParameter
    have hcopy := running.lookup_copies names
    rw [running.copyContext_eq] at hbound ⊢
    simp only [CopyContext.templateOf, itself, hbound, hcopy, Option.bind_none, Option.or_none, Option.getD_none]
  rw [running.copyContext_eq] at hbound htemplate ⊢
  simp only [replaceBase, linked, hbound, hcopy, hstands]
  rw [bind_ok reads]
  show relink instanceOf type (CopyContext.templateOf _ use.template) args now = _
  rw [htemplate]

end Outside

section Instances

include calm dataClass given

/-- The instance that is being made is found for the arguments. -/
theorem resolveInstance_made {link : SymbolId} (names : table.canonical link = template)
    (lt : link.index < table.size) :
    resolveInstance inst resolve false link args now = .ok (some made) now := by
  have hconcrete : now.anyDependent args = false :=
    (running.grows.anyDependent_eq args given.below).trans given.concrete
  have hcanonical : now.canonical link = template := (running.grows.canonical_eq calm lt).trans names
  -- The arguments are looked up in the form in which the instance is remembered: neither what they are flattened
  -- to nor what they are completed to differs from them.
  have hflat : args.map now.flattenType = args := by
    conv_rhs => rw [← List.map_id args]
    refine List.map_congr_left fun arg member => ?_
    exact ((given.named arg member).grown running.grows calm (given.below arg member)).flattenType_eq
  have hsymbol := running.grows.symbols template dataClass.lt_size
  have hlength : args.length = (now.symbol template).parameters.length := by
    rw [hsymbol.parameters]
    exact given.length
  have hcompleted : completeArguments resolve template args now = .ok args now := by
    refine completeArguments_eq_ok.mpr ⟨Nat.le_of_eq hlength, ?_⟩
    rw [completeFrom_complete hlength, map_stripDefault given.noDefault]
  -- No older entry fits, so that the search comes to the last one, which is the new instance.
  have hfound : now.existingInstance? template args = some made := by
    have hunknown := given.unknown
    rw [Table.existingInstance?_eq_map, Option.map_eq_none_iff, Option.or_eq_none_iff] at hunknown
    rw [Table.existingInstance?_eq_map, hsymbol.explicits, running.cached, hunknown.1, List.find?_append,
      hunknown.2]
    simp [(Descriptor.sameAll_iff args args).mpr rfl]
  rw [resolveInstance, get_bind, hconcrete]
  simp only [Bool.or_self, Bool.false_eq_true, if_false, hcanonical, hflat]
  have hattempt : attempt (completeArguments resolve template args) now = .ok (.ok args) now := by
    simp only [attempt, hcompleted]
  rw [bind_ok hattempt]
  show EStateM.Result.ok (now.existingInstance? template args) now = _
  rw [hfound]

/-- A template-id reads as the instance that is being made if its arguments do. -/
theorem relink_made {link : SymbolId} (names : table.canonical link = template) (lt : link.index < table.size)
    (type : Descriptor) :
    relink (resolveInstance inst resolve false) type link args now =
      .ok (some { type with link := some made }) now := by
  rw [relink, bind_ok (running.resolveInstance_made calm dataClass given names lt)]
  rfl

/-- The template applied to its own parameters reads as the instance that is being made. -/
theorem substitute_selfReference (refers : table.SelfReference template templated type)
    (noDefault : type.defaultValue = none) (below : type.Below table.size) :
    ∃ result, substitute (resolveInstance inst resolve false) 0 (depth + 2) type now = .ok (some result) now ∧
      result.link = some made := by
  have hlt := dataClass.lt_size
  cases refers with
  | @templateId link linked outside plain names own =>
      have hlink := below.link linked
      have hargs : mapReady (substitute (resolveInstance inst resolve false) 0 (depth + 1)) type.templateArgs now =
          .ok (some args) now := running.mapReady_ownParameters dataClass given own
      have hsomeArg : args.isEmpty = false := by
        rw [List.isEmpty_eq_false_iff, ← List.length_pos_iff, given.length, List.length_pos_iff]
        exact dataClass.someParameter
      have hisTemplate : (now.symbol (now.canonical link)).isTemplate = true := by
        rw [running.grows.canonical_eq calm hlink, names, (running.grows.symbols template hlt).isTemplate]
        exact dataClass.isTemplate
      have hread : ((now.copyContext 0).readType type args none).link = some link := linked
      refine ⟨{ (now.copyContext 0).readType type [] none with link := some made }, ?_, rfl⟩
      rw [substitute_read noDefault hargs,
        running.replaceBase_outside hread outside hlink calm.represented hlt plain,
        if_pos (by rw [CopyContext.readType, hsomeArg, hisTemplate]; rfl)]
      exact running.relink_made calm dataClass given names hlink _
  | @placeholder link use linked outside noArgs stands names own =>
      have hlink := below.link linked
      have hargs : mapReady (substitute (resolveInstance inst resolve false) 0 (depth + 1)) type.templateArgs now =
          .ok (some []) now := by
        rw [noArgs]
        rfl
      have hread : ((now.copyContext 0).readType type [] none).link = some link := linked
      refine ⟨{ (now.copyContext 0).readType type [] none with link := some made }, ?_, rfl⟩
      rw [substitute_read noDefault hargs,
        running.replaceBase_placeholder hread outside hlink dataClass.outside stands names
          (running.mapReady_ownParameters dataClass given own)]
      exact running.relink_made calm dataClass given dataClass.canonical hlt _

/-- Every type that a member may have is read at once, and nothing is made for it. -/
theorem substitute_memberType (admits : table.MemberType template templated type)
    (noDefault : type.defaultValue = none) (below : type.Below table.size) :
    ∃ result, substitute (resolveInstance inst resolve false) 0 (depth + 2) type now = .ok (some result) now ∧
      (table.SelfReference template templated type → result.link = some made) := by
  -- A type of another form could still refer to the template, and so this is decided before its form.
  by_cases refers : table.SelfReference template templated type
  · obtain ⟨result, hread, hlink⟩ :=
      running.substitute_selfReference calm dataClass given refers noDefault below
    exact ⟨result, hread, fun _ => hlink⟩
  · have hread : type.templateArgs = [] → substitute (resolveInstance inst resolve false) 0 (depth + 2) type now =
        replaceBase (resolveInstance inst resolve false)
          (substitute (resolveInstance inst resolve false) 0 (depth + 1)) now (now.copyContext 0)
          ((now.copyContext 0).readType type [] none) now := by
      intro noArgs
      refine substitute_read noDefault ?_
      rw [noArgs]
      rfl
    cases admits with
    | builtin unlinked noArgs =>
        have hlink : ((now.copyContext 0).readType type [] none).link = none := unlinked
        refine ⟨(now.copyContext 0).readType type [] none, ?_, fun again => absurd again refers⟩
        rw [hread noArgs]
        simp only [replaceBase, hlink]
        rfl
    | @outside link linked outside plain noArgs =>
        have hlink : ((now.copyContext 0).readType type [] none).link = some link := linked
        refine ⟨(now.copyContext 0).readType type [] none, ?_, fun again => absurd again refers⟩
        rw [hread noArgs, running.replaceBase_outside hlink outside (below.link linked)
          calm.represented dataClass.lt_size plain]
        rfl
    | @parameter link linked own noArgs =>
        have hlink : ((now.copyContext 0).readType type [] none).link = some link := linked
        have hzip := List.map_fst_zip (Nat.le_of_eq given.length.symm)
        rw [← hzip] at own
        obtain ⟨⟨parameter, arg⟩, hpair, rfl⟩ := List.mem_map.mp own
        refine ⟨((now.copyContext 0).readType type [] none).substituteBase arg, ?_,
          fun again => absurd again refers⟩
        rw [hread noArgs]
        simp only [replaceBase, hlink, running.lookup_parameter dataClass given hpair]
        rfl
    | itself again => exact absurd again refers

end Instances

end CopyRunning

end NameBinding
