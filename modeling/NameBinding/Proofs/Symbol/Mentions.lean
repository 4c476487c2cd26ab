import NameBinding.Proofs.Symbol.Reversal

/-!
# The symbols that a declaration mentions

A declaration refers to others by their positions in the table: its scope and links, the names in its
types at every depth, and the lists of its payload.  `mentions` collects all of them, and `Within size`
says that none lies behind the end of a table of that size.

* `Descriptor.Below`: a type that only names symbols below a size; every adjustment of types keeps it.
* `Edit.apply_within`: an edit brings in nothing but what it mentions itself.
* `Symbol.Indexed`: the members by name are the members in order, sorted by name; every edit that
  inserts a member under its own name keeps it.
-/

namespace NameBinding

/-- All of these are positions below `size`. -/
def Within (size : Nat) (ids : List SymbolId) : Prop := ∀ id ∈ ids, id.index < size

namespace Within

variable {size : Nat} {ids other : List SymbolId}

theorem mono {bound : Nat} (within : Within size ids) (le : size ≤ bound) : Within bound ids :=
  fun id member => Nat.lt_of_lt_of_le (within id member) le

@[simp]
theorem nil : Within size [] ↔ True := by
  simp [Within]

@[simp]
theorem cons (id : SymbolId) : Within size (id :: ids) ↔ id.index < size ∧ Within size ids := by
  simp [Within]

@[simp]
theorem append : Within size (ids ++ other) ↔ Within size ids ∧ Within size other := by
  simp only [Within, List.mem_append]
  constructor
  · intro within
    exact ⟨fun id member => within id (.inl member), fun id member => within id (.inr member)⟩
  · rintro ⟨first, second⟩ id (member | member)
    · exact first id member
    · exact second id member

theorem flatMap {α : Type} {list : List α} {mentions : α → List SymbolId} :
    Within size (list.flatMap mentions) ↔ ∀ element ∈ list, Within size (mentions element) := by
  simp only [Within, List.mem_flatMap]
  constructor
  · intro within element member id inside
    exact within id ⟨element, member, inside⟩
  · rintro within id ⟨element, member, inside⟩
    exact within element member id inside

theorem toList {target : Option SymbolId} :
    Within size target.toList ↔ ∀ id, target = some id → id.index < size := by
  simp [Within]

theorem subset (within : Within size ids) (sub : ∀ id ∈ other, id ∈ ids) : Within size other :=
  fun id member => within id (sub id member)

end Within

/-! ## Types -/

namespace Descriptor

mutual

/-- The symbols that a descriptor mentions, at every depth. -/
def mentions : Descriptor → List SymbolId
  | ⟨_, _, ops, link, args, _, _, value⟩ =>
      ops.filterMap (·.memberOf) ++ link.toList ++ mentionsAll args ++ mentionsDefault value

/-- The symbols that a list of descriptors mentions. -/
def mentionsAll : List Descriptor → List SymbolId
  | [] => []
  | type :: rest => mentions type ++ mentionsAll rest

/-- The symbols that an optional descriptor mentions. -/
def mentionsDefault : Option Descriptor → List SymbolId
  | none => []
  | some value => mentions value

end

/-- Only symbols below `size` are mentioned. -/
def Below (size : Nat) (type : Descriptor) : Prop := Within size type.mentions

variable {size : Nat} {type : Descriptor}

theorem within_mentionsAll {args : List Descriptor} :
    Within size (mentionsAll args) ↔ ∀ arg ∈ args, arg.Below size := by
  induction args with
  | nil => simp [mentionsAll]
  | cons first rest ih => simp [mentionsAll, ih, Below]

theorem within_mentionsDefault {value : Option Descriptor} :
    Within size (mentionsDefault value) ↔ ∀ type, value = some type → type.Below size := by
  cases value with
  | none => simp [mentionsDefault]
  | some type => simp [mentionsDefault, Below]

/-- What a descriptor mentions lies in its operators, its link, its arguments and its default. -/
theorem below_iff :
    type.Below size ↔
      (∀ op ∈ type.ops, ∀ id, op.memberOf = some id → id.index < size) ∧
        (∀ id, type.link = some id → id.index < size) ∧
        (∀ arg ∈ type.templateArgs, arg.Below size) ∧
        ∀ value, type.defaultValue = some value → value.Below size := by
  have hops : ∀ ops : List PtrOp, Within size (ops.filterMap (·.memberOf)) ↔
      ∀ op ∈ ops, ∀ id, op.memberOf = some id → id.index < size := by
    intro ops
    simp only [Within, List.mem_filterMap]
    constructor
    · exact fun within op member id same => within id ⟨op, member, same⟩
    · rintro within id ⟨op, member, same⟩
      exact within op member id same
  obtain ⟨kind, flags, ops, link, args, sort, constant, value⟩ := type
  simp only [Below, mentions, Within.append, hops, Within.toList, within_mentionsAll,
    within_mentionsDefault, and_assoc]

namespace Below

theorem mono {bound : Nat} (below : type.Below size) (le : size ≤ bound) : type.Below bound :=
  Within.mono below le

theorem ops (below : type.Below size) :
    ∀ op ∈ type.ops, ∀ id, op.memberOf = some id → id.index < size :=
  (below_iff.mp below).1

theorem link (below : type.Below size) {id : SymbolId} (linked : type.link = some id) :
    id.index < size :=
  (below_iff.mp below).2.1 id linked

theorem args (below : type.Below size) : ∀ arg ∈ type.templateArgs, arg.Below size :=
  (below_iff.mp below).2.2.1

theorem default (below : type.Below size) {value : Descriptor}
    (given : type.defaultValue = some value) : value.Below size :=
  (below_iff.mp below).2.2.2 value given

theorem ofKind (size : Nat) (kind : BaseKind) : (Descriptor.ofKind kind).Below size := by
  rw [below_iff]
  simp [Descriptor.ofKind]

theorem ofParameter (size : Nat) (sort : BaseKind) : (Descriptor.ofParameter sort).Below size := by
  rw [below_iff]
  simp [Descriptor.ofParameter]

theorem ofSymbol {id : SymbolId} (lt : id.index < size) : (Descriptor.ofSymbol id).Below size := by
  rw [below_iff]
  simpa [Descriptor.ofSymbol] using lt

theorem templateId {template : SymbolId} {args : List Descriptor} (lt : template.index < size)
    (below : ∀ arg ∈ args, arg.Below size) : (Descriptor.templateId template args).Below size := by
  rw [below_iff]
  simpa [Descriptor.templateId, lt] using below

/-! ### Adjustments -/

theorem withFlags (below : type.Below size) (flags : Flags) : (type.withFlags flags).Below size := by
  have hparts := below_iff.mp below
  exact below_iff.mpr hparts

theorem stripSpecifiers (below : type.Below size) : type.stripSpecifiers.Below size := by
  have hparts := below_iff.mp below
  exact below_iff.mpr hparts

theorem setBaseCv (below : type.Below size) (cv : Cv) : (type.setBaseCv cv).Below size := by
  have hparts := below_iff.mp below
  exact below_iff.mpr hparts

/-- Other operators that mention nothing new. -/
theorem withOps (below : type.Below size) {ops : List PtrOp}
    (within : ∀ op ∈ ops, ∀ id, op.memberOf = some id → id.index < size) :
    { type with ops }.Below size :=
  below_iff.mpr ⟨within, (below_iff.mp below).2⟩

theorem withLink (below : type.Below size) {id : SymbolId} (lt : id.index < size) :
    { type with link := some id }.Below size := by
  refine below_iff.mpr ⟨below.ops, ?_, below.args, fun _ => below.default⟩
  rintro other same
  cases same
  exact lt

theorem withArgs (below : type.Below size) {args : List Descriptor}
    (within : ∀ arg ∈ args, arg.Below size) : { type with templateArgs := args }.Below size :=
  below_iff.mpr ⟨below.ops, fun _ => below.link, within, fun _ => below.default⟩

theorem withDefault (below : type.Below size) {value : Option Descriptor}
    (within : ∀ given, value = some given → given.Below size) :
    { type with defaultValue := value }.Below size :=
  below_iff.mpr ⟨below.ops, fun _ => below.link, below.args, within⟩

theorem stripDefault (below : type.Below size) : type.stripDefault.Below size :=
  below.withDefault (by simp)

theorem setTopCv (below : type.Below size) (cv : Cv) : (type.setTopCv cv).Below size := by
  unfold Descriptor.setTopCv
  split
  · rename_i op rest hops
    refine below.withOps fun other member id same => ?_
    rcases List.mem_cons.mp member with rfl | later
    · exact below.ops op (by simp [hops]) id same
    · exact below.ops other (by simp [hops, later]) id same
  · exact below.setBaseCv cv

theorem withTopCv (below : type.Below size) (cv : Cv) : (type.withTopCv cv).Below size :=
  below.setTopCv _

theorem stripTopCv (below : type.Below size) : type.stripTopCv.Below size := below.setTopCv _

theorem stripReference (below : type.Below size) : type.stripReference.Below size := by
  unfold Descriptor.stripReference
  split
  · exact below.withOps fun op member => below.ops op (List.mem_of_mem_tail member)
  · exact below

theorem pointer (below : type.Below size) : type.pointer.Below size := by
  refine below.withOps fun op member id same => ?_
  rcases List.mem_cons.mp member with rfl | later
  · cases same
  · exact below.ops op later id same

theorem decay (below : type.Below size) : type.decay.Below size := by
  unfold Descriptor.decay
  split
  · rename_i op rest hops
    split
    · refine below.withOps fun other member id same => ?_
      rcases List.mem_cons.mp member with rfl | later
      · cases same
      · exact below.ops other (by simp [hops, later]) id same
    · exact below
  · split
    · exact below.pointer
    · exact below

theorem substituteBase {replacement : Descriptor} (below : type.Below size)
    (replaced : replacement.Below size) : (type.substituteBase replacement).Below size := by
  have htarget := replaced.withTopCv type.baseCv
  have hops : { replacement.withTopCv type.baseCv with
      ops := type.ops ++ (replacement.withTopCv type.baseCv).ops }.Below size := by
    refine htarget.withOps fun op member => ?_
    rcases List.mem_append.mp member with outer | inner
    · exact below.ops op outer
    · exact htarget.ops op inner
  have hdefault := hops.withDefault fun value => below.default
  have hparts := below_iff.mp hdefault
  exact below_iff.mpr hparts

end Below

end Descriptor

/-! ## Declarations -/

/-- The symbols that a template applied to arguments mentions. -/
def TemplateUse.mentions (use : TemplateUse) : List SymbolId :=
  use.template :: Descriptor.mentionsAll use.args

/-- The symbols that an instance mentions. -/
def Instance.mentions (entry : Instance) : List SymbolId :=
  entry.symbol :: Descriptor.mentionsAll entry.args

/-- The symbols that the members and using-directives of a scope mention. -/
def Declarations.mentions (decls : Declarations) : List SymbolId :=
  decls.byName.flatMap (·.2) ++ decls.contents
    ++ decls.directives.flatMap fun directive => [directive.scope, directive.nominated]

/-- The symbols that a class mentions. -/
def ClassData.mentions (data : ClassData) : List SymbolId :=
  data.decls.mentions ++ data.parents.map (·.parent) ++ data.constructors ++ data.conversions

/-- The symbols that a function mentions. -/
def FunctionData.mentions (data : FunctionData) : List SymbolId :=
  data.decls.mentions ++ data.parameters ++ Descriptor.mentionsDefault data.returnType

/-- The symbols that a template mentions. -/
def TemplateData.mentions (data : TemplateData) : List SymbolId :=
  data.decls.mentions ++ data.parameters ++ Descriptor.mentionsAll (data.patterns.getD [])
    ++ data.primary.toList ++ data.specializations ++ data.explicits.flatMap Instance.mentions
    ++ data.instances.flatMap Instance.mentions ++ data.placeholders.flatMap Instance.mentions
    ++ data.definitionParameters.map (·.2)

/-- The symbols that a payload mentions. -/
def Payload.mentions : Payload → List SymbolId
  | .basic => []
  | .container decls => decls.mentions
  | .cls data => data.mentions
  | .function data => data.mentions
  | .template data => data.mentions
  | .placeholder use => use.mentions

/-- The symbols that a declaration mentions. -/
def Symbol.mentions (symbol : Symbol) : List SymbolId :=
  symbol.scope.toList ++ symbol.type.mentions ++ symbol.forwardTarget.toList
    ++ symbol.aliasOf.toList ++ (symbol.origin.map TemplateUse.mentions).getD []
    ++ symbol.payload.mentions

/-- The symbols that an assignment brings in. -/
def Assignment.mentions : Assignment → List SymbolId
  | .scope outer _ => outer.toList
  | .type value => value.mentions
  | .access _ => []
  | .forwardTarget target => target.toList
  | .aliasOf target => target.toList
  | .origin value => (value.map TemplateUse.mentions).getD []
  | .returnType value => Descriptor.mentionsDefault value
  | .varargs _ => []
  | .parent _ base => [base]
  | .primary value => value.toList
  | .definitionParameter _ bound => bound.toList

/-- The symbols that a new entry brings in. -/
def Entry.mentions : Entry → List SymbolId
  | .parameter id | .templateParameter id | .constructor id | .conversion id
  | .specialization id => [id]
  | .parent link => [link.parent]
  | .directive added => [added.scope, added.nominated]
  | .explicit entry | .cached entry | .placeholder entry => entry.mentions

/-- The symbols that an edit brings in. -/
def Edit.mentions : Edit → List SymbolId
  | .assign assignment => assignment.mentions
  | .append entry => entry.mentions
  | .insertMember _ member => [member]

/-! ## Edits mention nothing else -/

section Apply

variable {size : Nat} {symbol : Symbol}

theorem MemberMap.within_insert {map : MemberMap} {name : Name} {id : SymbolId}
    (within : Within size (map.flatMap (·.2))) (lt : id.index < size) :
    Within size ((map.insert name id).flatMap (·.2)) := by
  induction map with
  | nil => simpa [insert] using lt
  | cons entry rest ih =>
      obtain ⟨key, ids⟩ := entry
      simp only [List.flatMap_cons, Within.append] at within
      by_cases hkey : key = name
      · simp [insert, hkey, within.1, within.2, lt]
      · simp [insert, hkey, within.1, ih within.2]

theorem within_bindName {bindings : List (Name × SymbolId)} {name : Name} {id : SymbolId}
    (within : Within size (bindings.map (·.2))) (lt : id.index < size) :
    Within size ((bindName bindings name id).map (·.2)) := by
  induction bindings with
  | nil => simpa [bindName] using lt
  | cons entry rest ih =>
      obtain ⟨key, bound⟩ := entry
      simp only [List.map_cons, Within.cons] at within
      by_cases hkey : key = name
      · simp [bindName, hkey, within.2, lt]
      · simp [bindName, hkey, within.1, ih within.2]

theorem within_unbindName {bindings : List (Name × SymbolId)} {name : Name}
    (within : Within size (bindings.map (·.2))) :
    Within size ((unbindName bindings name).map (·.2)) := by
  induction bindings with
  | nil => simp [unbindName]
  | cons entry rest ih =>
      obtain ⟨key, bound⟩ := entry
      simp only [List.map_cons, Within.cons] at within
      by_cases hkey : key = name
      · simp [unbindName, hkey, within.2]
      · simp [unbindName, hkey, within.1, ih within.2]

theorem within_modify_parent {links : List BaseLink} {position : Nat} {base : SymbolId}
    (within : Within size (links.map (·.parent))) (lt : base.index < size) :
    Within size ((links.modify position fun link => { link with parent := base }).map (·.parent)) := by
  induction links generalizing position with
  | nil => simp
  | cons link rest ih =>
      simp only [List.map_cons, Within.cons] at within
      cases position with
      | zero => simp [within.2, lt]
      | succ position => simp [within.1, ih within.2]

theorem Declarations.within_insert {decls : Declarations} {name : Name} {id : SymbolId}
    (within : Within size decls.mentions) (lt : id.index < size) :
    Within size (decls.insert name id).mentions := by
  simp only [mentions, insert, Within.append] at within ⊢
  refine ⟨⟨MemberMap.within_insert within.1.1 lt, within.1.2, ?_⟩, within.2⟩
  simpa using lt

theorem Symbol.payload_within (within : Within size symbol.mentions) :
    Within size symbol.payload.mentions := by
  simp only [mentions, Within.append] at within
  exact within.2

/-- The payload of a symbol counts separately. -/
theorem Symbol.within_payload (within : Within size symbol.mentions) {payload : Payload}
    (changed : Within size payload.mentions) : Within size { symbol with payload }.mentions := by
  simp only [mentions, Within.append] at within ⊢
  exact ⟨within.1, changed⟩

theorem Symbol.within_mapDecls (within : Within size symbol.mentions)
    {change : Declarations → Declarations}
    (changes : ∀ decls, Within size decls.mentions → Within size (change decls).mentions) :
    Within size (symbol.mapDecls change).mentions := by
  have hpayload := payload_within within
  unfold Symbol.mapDecls
  cases hkind : symbol.payload with
  | basic => simpa using within
  | placeholder use => simpa using within
  | container decls =>
      rw [hkind] at hpayload
      exact within_payload within (changes decls hpayload)
  | cls data =>
      rw [hkind] at hpayload
      refine within_payload within ?_
      simp only [Payload.mentions, ClassData.mentions, Within.append] at hpayload ⊢
      exact ⟨⟨⟨changes _ hpayload.1.1.1, hpayload.1.1.2⟩, hpayload.1.2⟩, hpayload.2⟩
  | function data =>
      rw [hkind] at hpayload
      refine within_payload within ?_
      simp only [Payload.mentions, FunctionData.mentions, Within.append] at hpayload ⊢
      exact ⟨⟨changes _ hpayload.1.1, hpayload.1.2⟩, hpayload.2⟩
  | template data =>
      rw [hkind] at hpayload
      refine within_payload within ?_
      simp only [Payload.mentions, TemplateData.mentions, Within.append, and_assoc] at hpayload ⊢
      exact ⟨changes _ hpayload.1, hpayload.2⟩

theorem Symbol.within_mapClass (within : Within size symbol.mentions)
    {change : ClassData → ClassData}
    (changes : ∀ data, Within size data.mentions → Within size (change data).mentions) :
    Within size (symbol.mapClass change).mentions := by
  have hpayload := payload_within within
  unfold Symbol.mapClass
  split
  · rename_i data hkind
    rw [hkind] at hpayload
    exact within_payload within (changes data hpayload)
  · exact within

theorem Symbol.within_mapFunction (within : Within size symbol.mentions)
    {change : FunctionData → FunctionData}
    (changes : ∀ data, Within size data.mentions → Within size (change data).mentions) :
    Within size (symbol.mapFunction change).mentions := by
  have hpayload := payload_within within
  unfold Symbol.mapFunction
  split
  · rename_i data hkind
    rw [hkind] at hpayload
    exact within_payload within (changes data hpayload)
  · exact within

theorem Symbol.within_mapTemplate (within : Within size symbol.mentions)
    {change : TemplateData → TemplateData}
    (changes : ∀ data, Within size data.mentions → Within size (change data).mentions) :
    Within size (symbol.mapTemplate change).mentions := by
  have hpayload := payload_within within
  unfold Symbol.mapTemplate
  split
  · rename_i data hkind
    rw [hkind] at hpayload
    exact within_payload within (changes data hpayload)
  · exact within

theorem Assignment.apply_within (assignment : Assignment) (within : Within size symbol.mentions)
    (new : Within size assignment.mentions) : Within size (assignment.apply symbol).mentions := by
  cases assignment with
  | scope | type | access | forwardTarget | aliasOf | origin =>
      simp only [Symbol.mentions, Assignment.mentions, Assignment.apply, Within.append] at within new ⊢
      simp only [within, new, and_self]
  | returnType value =>
      refine Symbol.within_mapFunction within fun data hdata => ?_
      simp only [FunctionData.mentions, Within.append] at hdata ⊢
      exact ⟨hdata.1, new⟩
  | varargs value => exact Symbol.within_mapFunction within fun data hdata => hdata
  | parent position base =>
      refine Symbol.within_mapClass within fun data hdata => ?_
      simp only [ClassData.mentions, Within.append] at hdata ⊢
      simp only [Assignment.mentions, Within.cons] at new
      exact ⟨⟨⟨hdata.1.1.1, within_modify_parent hdata.1.1.2 new.1⟩, hdata.1.2⟩, hdata.2⟩
  | primary value =>
      refine Symbol.within_mapTemplate within fun data hdata => ?_
      simp only [TemplateData.mentions, Within.append] at hdata ⊢
      simp only [Assignment.mentions] at new
      simp only [hdata, new, and_self]
  | definitionParameter name parameter =>
      refine Symbol.within_mapTemplate within fun data hdata => ?_
      simp only [TemplateData.mentions, Within.append] at hdata ⊢
      refine ⟨hdata.1, ?_⟩
      cases parameter with
      | none => exact within_unbindName hdata.2
      | some id => exact within_bindName hdata.2 (by simpa [Assignment.mentions] using new)

theorem Entry.append_within (entry : Entry) (within : Within size symbol.mentions)
    (new : Within size entry.mentions) : Within size (entry.append symbol).mentions := by
  cases entry with
  | directive added =>
      refine Symbol.within_mapDecls within fun decls hdecls => ?_
      simp only [Declarations.mentions, Within.append, List.flatMap_append] at hdecls ⊢
      exact ⟨hdecls.1, hdecls.2, by simpa [Entry.mentions] using new⟩
  | parameter id =>
      refine Symbol.within_mapFunction within fun data hdata => ?_
      simp only [FunctionData.mentions, Within.append] at hdata ⊢
      exact ⟨⟨hdata.1.1, hdata.1.2, new⟩, hdata.2⟩
  | parent link =>
      refine Symbol.within_mapClass within fun data hdata => ?_
      simp only [ClassData.mentions, Within.append, List.map_append] at hdata ⊢
      exact ⟨⟨⟨hdata.1.1.1, hdata.1.1.2, by simpa [Entry.mentions] using new⟩, hdata.1.2⟩, hdata.2⟩
  | constructor id =>
      refine Symbol.within_mapClass within fun data hdata => ?_
      simp only [ClassData.mentions, Within.append] at hdata ⊢
      exact ⟨⟨hdata.1.1, hdata.1.2, new⟩, hdata.2⟩
  | conversion id =>
      refine Symbol.within_mapClass within fun data hdata => ?_
      simp only [ClassData.mentions, Within.append] at hdata ⊢
      exact ⟨hdata.1, hdata.2, new⟩
  | templateParameter id | specialization id | explicit entry | cached entry
  | placeholder entry =>
      refine Symbol.within_mapTemplate within fun data hdata => ?_
      simp only [Entry.mentions] at new
      simp only [TemplateData.mentions, Within.append, List.flatMap_append, List.flatMap_cons,
        List.flatMap_nil, List.append_nil] at hdata ⊢
      simp only [hdata, new, and_self]

/-- An edit brings in nothing but what it mentions. -/
theorem Edit.apply_within (edit : Edit) (within : Within size symbol.mentions)
    (new : Within size edit.mentions) : Within size (edit.apply symbol).mentions := by
  cases edit with
  | assign assignment => exact assignment.apply_within within new
  | append entry => exact entry.append_within within new
  | insertMember name member =>
      refine Symbol.within_mapDecls within fun decls hdecls => ?_
      exact Declarations.within_insert hdecls (by simpa [Edit.mentions] using new)

end Apply

/-! ## Members by name -/

theorem MemberMap.get_insert (map : MemberMap) (name other : Name) (id : SymbolId) :
    (map.insert name id).get other =
      if other = name then map.get other ++ [id] else map.get other := by
  induction map with
  | nil =>
      by_cases hsame : other = name
      · simp [insert, get, List.lookup, hsame]
      · simp [insert, get, List.lookup, hsame, beq_eq_false_iff_ne.mpr hsame]
  | cons entry rest ih =>
      obtain ⟨key, ids⟩ := entry
      simp only [get] at ih
      by_cases hkey : key = name
      · subst hkey
        by_cases hsame : other = key
        · simp [insert, get, List.lookup, hsame]
        · simp [insert, get, List.lookup, hsame, beq_eq_false_iff_ne.mpr hsame]
      · by_cases hother : other = key
        · subst hother
          simp [insert, get, List.lookup, hkey]
        · simp [insert, get, List.lookup, hkey, beq_eq_false_iff_ne.mpr hother, ih]

namespace Symbol

theorem membersNamed_insert {symbol : Symbol} (holds : symbol.holdsMembers = true)
    (name other : Name) (id : SymbolId) :
    (symbol.mapDecls (·.insert name id)).membersNamed other =
      if other = name then symbol.membersNamed other ++ [id] else symbol.membersNamed other := by
  obtain ⟨_, scope, type, inTemplate, access, target, named, origin, link, payload⟩ := symbol
  cases payload with
  | basic => cases holds
  | placeholder use => cases holds
  | container | cls | function | template => exact MemberMap.get_insert _ name other id

theorem contents_insert {symbol : Symbol} (holds : symbol.holdsMembers = true) (name : Name)
    (id : SymbolId) :
    (symbol.mapDecls (·.insert name id)).contents = symbol.contents ++ [id] := by
  obtain ⟨_, scope, type, inTemplate, access, target, named, origin, link, payload⟩ := symbol
  cases payload with
  | basic => cases holds
  | placeholder use => cases holds
  | container | cls | function | template => rfl

/-- The members of each name are the members in order that have this name. -/
def Indexed (nameOf : SymbolId → Name) (symbol : Symbol) : Prop :=
  ∀ name, symbol.membersNamed name = symbol.contents.filter fun id => nameOf id = name

theorem Indexed.of_eq {nameOf : SymbolId → Name} {symbol other : Symbol}
    (indexed : symbol.Indexed nameOf) (members : other.membersNamed = symbol.membersNamed)
    (contents : other.contents = symbol.contents) : other.Indexed nameOf := by
  intro name
  rw [members, contents, indexed name]

/-- Only the names of the members count. -/
theorem Indexed.congr {nameOf other : SymbolId → Name} {symbol : Symbol}
    (indexed : symbol.Indexed nameOf) (same : ∀ id ∈ symbol.contents, other id = nameOf id) :
    symbol.Indexed other := by
  intro name
  rw [indexed name]
  refine List.filter_congr fun id member => ?_
  rw [same id member]

theorem contents_within {size : Nat} {symbol : Symbol} (within : Within size symbol.mentions) :
    Within size symbol.contents := by
  have hpayload := payload_within within
  obtain ⟨_, scope, type, inTemplate, access, target, named, origin, link, payload⟩ := symbol
  cases payload with
  | basic => simp [contents, decls?]
  | placeholder use => simp [contents, decls?]
  | container decls =>
      simp only [Payload.mentions, Declarations.mentions, Within.append] at hpayload
      exact hpayload.1.2
  | cls data =>
      simp only [Payload.mentions, ClassData.mentions, Declarations.mentions, Within.append]
        at hpayload
      exact hpayload.1.1.1.1.2
  | function data =>
      simp only [Payload.mentions, FunctionData.mentions, Declarations.mentions, Within.append]
        at hpayload
      exact hpayload.1.1.1.2
  | template data =>
      simp only [Payload.mentions, TemplateData.mentions, Declarations.mentions, Within.append]
        at hpayload
      exact hpayload.1.1.1.1.1.1.1.1.1.2

end Symbol

namespace Edit

/-- No edit changes the name of a declaration. -/
theorem name_apply (edit : Edit) (symbol : Symbol) : (edit.apply symbol).name = symbol.name := by
  obtain ⟨name, scope, type, inTemplate, access, target, named, origin, link, payload⟩ := symbol
  rcases edit with assignment | entry | ⟨under, member⟩
  · cases assignment <;> cases payload <;> rfl
  · cases entry <;> cases payload <;> rfl
  · cases payload <;> rfl

/-- Only an insertion changes the members. -/
theorem members_apply {edit : Edit} (keeps : ∀ name member, edit ≠ .insertMember name member)
    (symbol : Symbol) :
    (edit.apply symbol).membersNamed = symbol.membersNamed ∧
      (edit.apply symbol).contents = symbol.contents := by
  obtain ⟨name, scope, type, inTemplate, access, target, named, origin, link, payload⟩ := symbol
  rcases edit with assignment | entry | ⟨under, member⟩
  · cases assignment <;> cases payload <;> exact ⟨rfl, rfl⟩
  · cases entry <;> cases payload <;> exact ⟨rfl, rfl⟩
  · exact absurd rfl (keeps under member)

/-- A member that is inserted under its own name. -/
theorem apply_indexed {nameOf : SymbolId → Name} {edit : Edit} {symbol : Symbol}
    (named : ∀ name member, edit = .insertMember name member → nameOf member = name)
    (indexed : symbol.Indexed nameOf) : (edit.apply symbol).Indexed nameOf := by
  by_cases hinserts : ∃ name member, edit = .insertMember name member
  · obtain ⟨name, member, rfl⟩ := hinserts
    have hname := named name member rfl
    by_cases hholds : symbol.holdsMembers = true
    · intro other
      simp only [apply]
      rw [Symbol.membersNamed_insert hholds, Symbol.contents_insert hholds, indexed other,
        List.filter_append]
      by_cases hsame : other = name
      · simp [hsame, hname]
      · have hdiffers : name ≠ other := fun same => hsame same.symm
        simp [hsame, hname, hdiffers]
    · -- A symbol without members stays as it is.
      have hunchanged : (Edit.insertMember name member).apply symbol = symbol := by
        obtain ⟨_, scope, type, inTemplate, access, target, named, origin, link, payload⟩ := symbol
        cases payload <;> first | rfl | exact absurd rfl hholds
      rwa [hunchanged]
  · have hmembers := members_apply (fun name member same => hinserts ⟨name, member, same⟩) symbol
    exact indexed.of_eq hmembers.1 hmembers.2

end Edit

end NameBinding
