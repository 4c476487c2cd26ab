import NameBinding.Proofs.Symbol.Mentions
import NameBinding.Proofs.Table.Links
import NameBinding.Template.Resolution
import NameBinding.Table.Scope

/-!
# Tables whose symbols exist

`Represented table` is the representation invariant of a table: whatever its symbols mention is in the
table, and the members of a scope by name agree with its members in order.

* `Represented.of_push` and `Represented.of_modify`: it survives a new symbol and an edit that mention
  only symbols of the table.
* What the table computes from symbols of the table are symbols of the table: `canonical_lt`,
  `flattenType_below`, `classOf_lt`, `resolveNamespace_lt`, and what is read from lists.
-/

namespace NameBinding

/-! ## What is read from a symbol -/

namespace Symbol

variable {size : Nat} {symbol : Symbol} (within : Within size symbol.mentions)

include within

theorem type_below : symbol.type.Below size := by
  simp only [mentions, Within.append] at within
  exact within.1.1.1.1.2

theorem scope_lt {scope : SymbolId} (declared : symbol.scope = some scope) : scope.index < size := by
  simp only [mentions, Within.append, Within.toList] at within
  exact within.1.1.1.1.1 scope declared

theorem links_lt {target : SymbolId}
    (linked : symbol.aliasOf = some target ∨ symbol.forwardTarget = some target) :
    target.index < size := by
  simp only [mentions, Within.append, Within.toList] at within
  rcases linked with named | completed
  · exact within.1.1.2 target named
  · exact within.1.1.1.2 target completed

theorem origin_within {use : TemplateUse} (made : symbol.origin = some use) :
    Within size use.mentions := by
  simp only [mentions, Within.append] at within
  simpa [made] using within.1.2

theorem membersNamed_within (nameOf : SymbolId → Name) (indexed : symbol.Indexed nameOf)
    (name : Name) : Within size (symbol.membersNamed name) := by
  rw [indexed name]
  exact (contents_within within).subset fun id member => (List.mem_filter.mp member).1

theorem placeholder_within {use : TemplateUse} (stands : symbol.placeholder? = some use) :
    Within size use.mentions := by
  have hpayload := payload_within within
  unfold placeholder? at stands
  split at stands
  · rename_i other hkind
    cases stands
    rwa [hkind] at hpayload
  · cases stands

theorem classData_within {data : ClassData} (isClass : symbol.classData? = some data) :
    Within size data.mentions := by
  have hpayload := payload_within within
  unfold classData? at isClass
  split at isClass
  · rename_i other hkind
    cases isClass
    rwa [hkind] at hpayload
  · cases isClass

theorem functionData_within {data : FunctionData} (isFunction : symbol.functionData? = some data) :
    Within size data.mentions := by
  have hpayload := payload_within within
  unfold functionData? at isFunction
  split at isFunction
  · rename_i other hkind
    cases isFunction
    rwa [hkind] at hpayload
  · cases isFunction

theorem templateData_within {data : TemplateData} (isTemplate : symbol.templateData? = some data) :
    Within size data.mentions := by
  have hpayload := payload_within within
  unfold templateData? at isTemplate
  split at isTemplate
  · rename_i other hkind
    cases isTemplate
    rwa [hkind] at hpayload
  · cases isTemplate

theorem parameters_within : Within size symbol.parameters := by
  have hpayload := payload_within within
  unfold parameters
  split
  · rename_i data hkind
    simp only [hkind, Payload.mentions, FunctionData.mentions, Within.append] at hpayload
    exact hpayload.1.2
  · rename_i data hkind
    simp only [hkind, Payload.mentions, TemplateData.mentions, Within.append] at hpayload
    exact hpayload.1.1.1.1.1.1.1.2
  · simp

theorem parents_within : Within size (symbol.parents.map (·.parent)) := by
  unfold parents
  cases hdata : symbol.classData? with
  | none => simp
  | some data =>
      have hwithin := classData_within within hdata
      simp only [ClassData.mentions, Within.append] at hwithin
      exact hwithin.1.1.2

theorem constructors_within : Within size symbol.constructors := by
  unfold constructors
  cases hdata : symbol.classData? with
  | none => simp
  | some data =>
      have hwithin := classData_within within hdata
      simp only [ClassData.mentions, Within.append] at hwithin
      exact hwithin.1.2

theorem conversions_within : Within size symbol.conversions := by
  unfold conversions
  cases hdata : symbol.classData? with
  | none => simp
  | some data =>
      have hwithin := classData_within within hdata
      simp only [ClassData.mentions, Within.append] at hwithin
      exact hwithin.2

theorem returnType_below {type : Descriptor} (declared : symbol.returnType = some type) :
    type.Below size := by
  unfold returnType at declared
  obtain ⟨data, hdata, htype⟩ := Option.bind_eq_some_iff.mp declared
  have hwithin := functionData_within within hdata
  simp only [FunctionData.mentions, Within.append, Descriptor.within_mentionsDefault] at hwithin
  exact hwithin.2 type htype

theorem decls_within {decls : Declarations} (holds : symbol.decls? = some decls) :
    Within size decls.mentions := by
  have hpayload := payload_within within
  unfold decls? at holds
  cases hkind : symbol.payload <;> rw [hkind] at holds hpayload <;> cases holds
  · exact hpayload
  · simp only [Payload.mentions, ClassData.mentions, Within.append] at hpayload
    exact hpayload.1.1.1
  · simp only [Payload.mentions, FunctionData.mentions, Within.append] at hpayload
    exact hpayload.1.1
  · simp only [Payload.mentions, TemplateData.mentions, Within.append] at hpayload
    exact hpayload.1.1.1.1.1.1.1.1

theorem directives_within :
    Within size (symbol.directives.flatMap fun used => [used.scope, used.nominated]) := by
  unfold directives
  cases hdecls : symbol.decls? with
  | none => simp
  | some decls =>
      have hwithin := decls_within within hdecls
      simp only [Declarations.mentions, Within.append] at hwithin
      exact hwithin.2

end Symbol

namespace Table

/-! ## The invariant -/

/-- Everything that is mentioned in the table is in the table, and the members of each name are the
members in order that have this name. -/
structure Represented (table : Table) : Prop where
  within : ∀ id, Within table.size (table.symbol id).mentions
  indexed : ∀ id, (table.symbol id).Indexed fun member => (table.symbol member).name

namespace Represented

variable {table after : Table} {id : SymbolId}

theorem of_symbols (represented : table.Represented) (symbols : after.symbols = table.symbols) :
    after.Represented where
  within := by
    intro id
    rw [symbol_of_symbols_eq symbols, size_of_symbols_eq symbols]
    exact represented.within id
  indexed := by
    intro id
    simp only [symbol_of_symbols_eq symbols]
    exact represented.indexed id

/-- A new symbol that mentions only symbols of the table. -/
theorem of_push (represented : table.Represented) {symbol : Symbol}
    (symbols : after.symbols = table.symbols.push symbol)
    (within : Within table.size symbol.mentions)
    (indexed : symbol.Indexed fun member => (table.symbol member).name) : after.Represented := by
  have hnames : ∀ other : Symbol, Within table.size other.mentions →
      (other.Indexed fun member => (table.symbol member).name) →
      other.Indexed fun member => (after.symbol member).name := by
    intro other hwithin hindexed
    refine hindexed.congr fun member hmember => ?_
    have hlt := Symbol.contents_within hwithin member hmember
    rw [symbol_of_push symbols, if_neg (by omega)]
  constructor
  · intro id
    rw [symbol_of_push symbols, size_of_push symbols]
    split
    · exact within.mono (Nat.le_succ _)
    · exact (represented.within id).mono (Nat.le_succ _)
  · intro id
    rw [symbol_of_push symbols]
    split
    · exact hnames symbol within indexed
    · exact hnames _ (represented.within id) (represented.indexed id)

/-- A change of one symbol that keeps its name. -/
theorem of_modify (represented : table.Represented) {change : Symbol → Symbol}
    (symbols : after.symbols = table.symbols.modify id.index change)
    (names : (change (table.symbol id)).name = (table.symbol id).name)
    (within : Within table.size (change (table.symbol id)).mentions)
    (indexed : (change (table.symbol id)).Indexed fun member => (table.symbol member).name) :
    after.Represented := by
  have hnames : ∀ x, (after.symbol x).name = (table.symbol x).name := by
    intro x
    rw [symbol_of_modify symbols]
    split
    · rename_i hsame
      rw [← hsame.1, names]
    · rfl
  constructor
  · intro x
    rw [symbol_of_modify symbols, size_of_modify symbols]
    split
    · rename_i hsame
      rw [← hsame.1]
      exact within
    · exact represented.within x
  · intro x
    simp only [hnames]
    rw [symbol_of_modify symbols]
    split
    · rename_i hsame
      rw [← hsame.1]
      exact indexed
    · exact represented.indexed x

/-- An edit that mentions only symbols of the table and inserts members under their own names. -/
theorem of_edit (represented : table.Represented) {edit : Edit}
    (symbols : after.symbols = table.symbols.modify id.index edit.apply)
    (within : Within table.size edit.mentions)
    (named : ∀ name member, edit = .insertMember name member →
      (table.symbol member).name = name) : after.Represented :=
  represented.of_modify symbols (edit.name_apply _)
    (edit.apply_within (represented.within id) within)
    (Edit.apply_indexed named (represented.indexed id))

/-! ## What is computed from symbols of the table -/

section Reading

variable (represented : table.Represented)

include represented

theorem nextLink_lt {next : SymbolId} (linked : table.nextLink id = some next) :
    next.index < table.size := by
  obtain ⟨hlinks, -⟩ := Option.filter_eq_some_iff.mp linked
  refine Symbol.links_lt (represented.within id) ?_
  rcases Option.or_eq_some_iff.mp hlinks with named | ⟨-, completed⟩
  · exact .inl named
  · exact .inr completed

theorem canonical_lt (lt : id.index < table.size) : (table.canonical id).index < table.size := by
  have hfollow : ∀ steps x, x.index < table.size →
      (table.followLinks steps x).index < table.size := by
    intro steps
    induction steps with
    | zero => exact fun x hx => hx
    | succ steps ih =>
        intro x hx
        simp only [followLinks]
        split
        · rename_i next hnext
          exact ih next (represented.nextLink_lt hnext)
        · exact hx
  exact hfollow _ id lt

theorem type_below (id : SymbolId) : (table.symbol id).type.Below table.size :=
  Symbol.type_below (represented.within id)

theorem flattenType_below {type : Descriptor} (below : type.Below table.size) :
    (table.flattenType type).Below table.size := by
  have hsteps : ∀ steps (type : Descriptor), type.Below table.size →
      (table.flattenSteps steps type).Below table.size := by
    intro steps
    induction steps with
    | zero => exact fun type hbelow => hbelow
    | succ steps ih =>
        intro type hbelow
        simp only [flattenSteps]
        split
        · exact hbelow
        · rename_i link hlink
          split
          · exact hbelow.withLink (represented.canonical_lt (hbelow.link hlink))
          · split
            · exact hbelow
            · exact ih _ (hbelow.substituteBase (represented.type_below _))
  exact hsteps _ type below

theorem classOf_lt (lt : id.index < table.size) : (table.classOf id).index < table.size := by
  have hentity := represented.canonical_lt lt
  simp only [classOf]
  split
  · split
    · rename_i link hlink
      have hflat := represented.flattenType_below (represented.type_below (table.canonical id))
      exact represented.canonical_lt (hflat.link hlink)
    · exact hentity
  · exact hentity

theorem resolveNamespace_lt (lt : id.index < table.size) :
    (table.resolveNamespace id).index < table.size := by
  have hsteps : ∀ steps x, x.index < table.size →
      (table.resolveNamespaceSteps steps x).index < table.size := by
    intro steps
    induction steps with
    | zero => exact fun x hx => hx
    | succ steps ih =>
        intro x hx
        simp only [resolveNamespaceSteps]
        split
        · rename_i target htarget
          split
          · exact ih target ((represented.type_below _).link htarget)
          · exact represented.canonical_lt hx
        · exact represented.canonical_lt hx
  exact hsteps _ id lt

theorem members_within (scope : SymbolId) (name : Name) :
    Within table.size (table.members scope name) :=
  Symbol.membersNamed_within (represented.within scope) _ (represented.indexed scope) name

theorem parameters_within (id : SymbolId) : Within table.size (table.symbol id).parameters :=
  Symbol.parameters_within (represented.within id)

theorem templateData_within {data : TemplateData}
    (isTemplate : (table.symbol id).templateData? = some data) : Within table.size data.mentions :=
  Symbol.templateData_within (represented.within id) isTemplate

theorem templated?_lt {templated : SymbolId} (declared : table.templated? id = some templated) :
    templated.index < table.size := by
  simp only [templated?] at declared
  obtain ⟨data, hdata, hhead⟩ := Option.bind_eq_some_iff.mp declared
  -- The templated declaration is a member of the template under the template's own name.
  have hmember : templated ∈ table.members id (table.symbol id).name := by
    have hdecls : (table.symbol id).decls? = some data.decls := by
      simp only [Symbol.templateData?] at hdata
      split at hdata
      · rename_i hkind
        cases hdata
        simp [Symbol.decls?, hkind]
      · cases hdata
    simp only [members, Symbol.membersNamed, hdecls, Option.map_some, Option.getD_some]
    exact List.mem_of_head? hhead
  exact represented.members_within id _ templated hmember

theorem signature_below (function : SymbolId) :
    ∀ type ∈ table.signature function, type.Below table.size := by
  have hadjusted : ∀ type : Descriptor, type.Below table.size →
      (table.adjustedParameter type).Below table.size := by
    intro type hbelow
    have hflat := represented.flattenType_below hbelow
    have hchoice : ∀ decays : Bool, Descriptor.Below table.size
        (if decays then (table.flattenType type).decay else (table.flattenType type).stripTopCv) := by
      intro decays
      split
      · exact hflat.decay
      · exact hflat.stripTopCv
    exact (hchoice _).stripSpecifiers.stripDefault
  intro type member
  simp only [signature] at member
  split at member
  · split at member
    · cases member
    · rw [List.mem_singleton.mp member]
      exact hadjusted _ (represented.type_below _)
  · obtain ⟨parameter, -, rfl⟩ := List.mem_map.mp member
    exact hadjusted _ (represented.type_below _)

end Reading

end Represented

end Table

end NameBinding
