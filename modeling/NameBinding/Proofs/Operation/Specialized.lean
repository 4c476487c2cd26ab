import NameBinding.Proofs.Operation.Repetition
import NameBinding.Proofs.Template.PlainArguments

/-!
# Explicit specializations are found

An explicit specialization is registered for a list of arguments that is completed as it is given, whereas an
instantiation first sees through the typedefs of its arguments and replaces their template-ids.  So what was
registered is found by every list of arguments that comes to the registered one, which the registered spelling
itself need not do: after `template<> struct S<I>` with a typedef `I` of `int`, nothing finds `S<I>`.

* `Table.SpecializesWhole`: the declaration specializes the template, and not a member of an instance.
* `Table.registered`: the table after an explicit specialization was registered.
* `instantiate_completed`: the instance remembered for the completed arguments is the one that is given.

The main statement is `explicit_specialization_found`; the example below it shows what it leaves out.
-/

namespace NameBinding

/-! ## Registering -/

/-- What registering an explicit specialization does to symbols. -/
def Edit.Registers : Edit → Prop
  | .append (.explicit _) => True
  | .assign (.origin _) => True
  | .assign (.scope _ _) => True
  | _ => False

theorem Edit.Registers.isLinkless {edit : Edit} (registers : edit.Registers) : edit.IsLinkless := by
  rcases edit with assignment | entry | ⟨name, member⟩
  · cases assignment with
    | origin | scope => trivial
    | _ => exact registers.elim
  · cases entry with
    | explicit => trivial
    | _ => exact registers.elim
  · exact registers.elim

theorem Edit.Registers.sameUse {edit : Edit} (registers : edit.Registers) (symbol : Symbol) :
    (edit.apply symbol).SameUse symbol := by
  obtain ⟨name, scope, type, inTemplate, access, target, named, origin, link, payload⟩ := symbol
  rcases edit with assignment | entry | ⟨name, member⟩
  · cases assignment with
    | origin | scope => exact ⟨rfl, rfl, rfl, rfl⟩
    | _ => exact registers.elim
  · cases entry with
    | explicit => cases payload <;> exact ⟨rfl, rfl, rfl, rfl⟩
    | _ => exact registers.elim
  · exact registers.elim

namespace Table

variable {table : Table} {template id x : SymbolId} {args : List Descriptor}

theorem sameUses_perform {edit : Edit} (registers : edit.Registers) (table : Table) (id : SymbolId) :
    table.SameUses (table.perform id edit) := by
  refine ⟨rfl, fun x => ?_⟩
  rw [symbol_perform]
  split
  · exact registers.sameUse _
  · exact .refl _

/-- The table after an explicit specialization was registered. -/
def registered (table : Table) (template : SymbolId) (args : List Descriptor) (id : SymbolId) : Table :=
  let listed := (table.perform template (.append (.explicit ⟨args, id⟩))).perform id
    (.assign (.origin (some ⟨template, args⟩)))
  if (table.symbol id).scope.isNone then
    listed.perform id (.assign (.scope (table.symbol template).scope (table.symbol id).inTemplate))
  else listed

/-- Only some edits of symbols lead to the table. -/
theorem registered_cases (property : Table → Prop) (holds : property table)
    (kept : ∀ table id edit, edit.Registers → property table → property (table.perform id edit)) :
    property (table.registered template args id) := by
  have hlisted := kept _ id (.assign (.origin (some ⟨template, args⟩))) trivial
    (kept table template (.append (.explicit ⟨args, id⟩)) trivial holds)
  unfold registered
  dsimp only
  split
  · exact kept _ _ _ trivial hlisted
  · exact hlisted

theorem sameUses_registered (table : Table) (template : SymbolId) (args : List Descriptor) (id : SymbolId) :
    table.SameUses (table.registered template args id) :=
  registered_cases table.SameUses (.refl table) fun middle x _ registers same =>
    same.trans (sameUses_perform registers middle x)

theorem nextLink_registered (x : SymbolId) :
    (table.registered template args id).nextLink x = table.nextLink x :=
  registered_cases (fun after => after.nextLink x = table.nextLink x) rfl
    fun _ _ _ registers same => (nextLink_of_edit registers.isLinkless rfl x).trans same

/-- The list of explicit specializations after one was appended. -/
theorem explicits_perform (isTemplate : (table.symbol template).isTemplate = true) (entry : Instance) :
    ((table.perform template (.append (.explicit entry))).symbol template).explicits =
      (table.symbol template).explicits ++ [entry] := by
  have hlt := lt_size_of_symbol (·.isTemplate) rfl isTemplate
  obtain ⟨data, hpayload⟩ := Analysis.payload_of_isTemplate isTemplate
  rw [symbol_perform, if_pos ⟨rfl, hlt⟩]
  simp [Edit.apply, Entry.append, Symbol.mapTemplate, hpayload, Symbol.explicits, Symbol.templateData?]

theorem size_registered : (table.registered template args id).size = table.size :=
  registered_cases (fun after => after.size = table.size) rfl
    fun after x edit _ same => (size_perform after x edit).trans same

/-- What is registered last is the one that is found, unless something was registered before. -/
theorem existingInstance?_registered (isTemplate : (table.symbol template).isTemplate = true)
    (new : Lacks (table.symbol template).explicits args) :
    (table.registered template args id).existingInstance? template args = some id := by
  have hexplicits : ((table.registered template args id).symbol template).explicits =
      (table.symbol template).explicits ++ [⟨args, id⟩] := by
    have hassign : ∀ (after : Table) (assignment : Assignment), (Edit.assign assignment).Registers →
        ((after.perform id (.assign assignment)).symbol template).explicits =
          (after.symbol template).explicits := by
      intro after assignment registers
      rw [symbol_perform]
      split
      · cases assignment with
        | origin | scope => rfl
        | _ => exact registers.elim
      · rfl
    have hlisted : ((table.perform template (.append (.explicit ⟨args, id⟩))).symbol template).explicits =
        (table.symbol template).explicits ++ [⟨args, id⟩] := explicits_perform isTemplate ⟨args, id⟩
    unfold registered
    dsimp only
    split
    · rw [hassign _ (.scope _ _) trivial, hassign _ (.origin _) trivial, hlisted]
    · rw [hassign _ (.origin _) trivial, hlisted]
  have hnone : (table.symbol template).explicits.find? (fun entry =>
      Descriptor.sameAll entry.args args) = none :=
    List.find?_eq_none.mpr fun entry member => by simp [new entry member]
  have hself : Descriptor.sameAll args args = true := (Descriptor.sameAll_iff _ _).mpr rfl
  rw [existingInstance?_eq_map, hexplicits, List.find?_append, hnone, Option.none_or,
    List.find?_singleton, if_pos hself]
  rfl

/-- The declaration specializes the whole template, and not a member of one of its instances. -/
def SpecializesWhole (table : Table) (template id : SymbolId) : Prop :=
  ∀ templated, table.templated? (table.canonical template) = some templated →
    (table.symbol templated).type.kind.isClass = true → table.declClass id = .tag

end Table

namespace Analysis

variable {table after last : Table} {template id made : SymbolId} {args completed : List Descriptor}

/-- Registering a specialization completes the arguments as they are given. -/
theorem specializeTemplate_ok (ends : specializeTemplate template args id table = .ok made after) :
    made = id ∧ ∃ completed middle, completeArguments resolveType template args table = .ok completed middle ∧
      Lacks (middle.symbol template).explicits completed ∧ after = middle.registered template completed id := by
  obtain ⟨completed, middle, hcompleted, ends⟩ := bind_eq_ok.mp ends
  rw [get_bind] at ends
  dsimp only at ends
  split at ends
  · cases ends
  · rename_i hnew
    have hlacks : Lacks (middle.symbol template).explicits completed := by
      simpa [Lacks, Symbol.explicits] using hnew
    obtain ⟨_, first, hfirst, ends⟩ := bind_eq_ok.mp ends
    cases hfirst
    obtain ⟨_, second, hsecond, ends⟩ := bind_eq_ok.mp ends
    cases hsecond
    split at ends
    · rename_i hnowhere
      obtain ⟨_, third, hthird, ends⟩ := bind_eq_ok.mp ends
      cases hthird
      cases ends
      exact ⟨rfl, completed, middle, hcompleted, hlacks, by rw [Table.registered, if_pos hnowhere]⟩
    · rename_i hplaced
      cases ends
      exact ⟨rfl, completed, middle, hcompleted, hlacks, by rw [Table.registered, if_neg hplaced]⟩

/-- Specializing the whole template. -/
theorem addExplicitSpecialization_ok (whole : table.SpecializesWhole template id)
    (ends : addExplicitSpecialization template args id table = .ok made after) :
    (table.symbol (table.canonical template)).isTemplate = true ∧
      specializeTemplate (table.canonical template) args id table = .ok made after := by
  rw [addExplicitSpecialization, get_bind] at ends
  cases htemplated : table.templated? (table.canonical template) with
  | none =>
      simp only [htemplated] at ends
      cases ends
  | some templated =>
      have htag := whole templated htemplated
      simp only [htemplated] at ends
      rw [if_neg (by simpa using htag)] at ends
      exact ⟨Table.isTemplate_of_templated? htemplated, ends⟩

/-- Completing arguments as they are given lets the table grow. -/
theorem advances_completeArguments (calm : table.Calm) (below : ∀ arg ∈ args, arg.Below table.size)
    (ends : completeArguments resolveType template args table = .ok completed after) :
    table.Advances after ∧ ∀ arg ∈ completed, arg.Below after.size := by
  obtain ⟨hmoved, hbelow⟩ :=
    (moves_completeArguments moves_resolveType template (calm.soundFor rfl rfl) below).ok ends
  have hgrowth := (tracks_completeArguments (keeps_resolveType Growth.instantiationKeeps) template args table
    ⟨calm.idle, .refl table⟩).1
  rw [ends] at hgrowth
  exact ⟨⟨hgrowth.1.grows, calm.moved hmoved⟩, hbelow⟩

/-! ## Finding -/

/-- The instance that is remembered for the completed arguments is the one that is given. -/
theorem instantiate_completed (deep : table.config.nestingLimit ≠ 0)
    (isTemplate : (table.symbol (table.canonical template)).isTemplate = true)
    (proper : (table.symbol (table.canonical template)).isTemplateParameter = false)
    (valid : args.all (·.isValid) = true) (completes : completedFor template args table = .ok completed last)
    (concrete : last.anyDependent completed = false)
    (fits : firstMismatch? last (last.symbol (table.canonical template)).parameters completed = none)
    (known : last.existingInstance? (table.canonical template) completed = some made) :
    instantiate template args table = .ok made last := by
  obtain ⟨depth, hdepth⟩ := Nat.exists_eq_add_one_of_ne_zero deep
  rw [completedFor, get_bind, hdepth] at completes
  rw [instantiate, get_bind, hdepth]
  refine instantiateStep_eq_ok.mpr ⟨isTemplate, valid, completed, last, completes, ?_⟩
  rw [instanceFor_fits (by rw [proper, concrete]; rfl) fits]
  exact concreteInstance_known known

/-- An instantiation with `args` looks up `key`, or what is the same but for default values, and its table is
`last` by then. -/
structure CompletesTo (template : SymbolId) (args key : List Descriptor) (table last : Table) : Prop where
  below : ∀ arg ∈ args, arg.Below table.size
  valid : args.all (·.isValid) = true
  completes : ∃ found, completedFor template args table = .ok found last ∧
    Descriptor.sameAll found key = true

/-- Completing arguments lets the table grow. -/
theorem CompletesTo.advances {key : List Descriptor} (completes : CompletesTo template args key table last)
    (calm : table.Calm) : table.Advances last := by
  obtain ⟨found, hrun, -⟩ := completes.completes
  rw [completedFor, get_bind] at hrun
  exact ((recalls_instantiateWithin last _).advances_completedArguments calm completes.below hrun).1

/-- A table that knows the instance for some arguments gives it for all that it completes to the same ones. -/
theorem instantiate_known (calm : table.Calm) (deep : table.config.nestingLimit ≠ 0)
    (isTemplate : (table.symbol (table.canonical template)).isTemplate = true)
    (proper : (table.symbol (table.canonical template)).isTemplateParameter = false)
    (below : ∀ arg ∈ completed, arg.Below table.size) (concrete : table.anyDependent completed = false)
    (fits : firstMismatch? table (table.symbol (table.canonical template)).parameters completed = none)
    (known : table.existingInstance? (table.canonical template) completed = some made)
    (completes : CompletesTo template args completed table last) :
    instantiate template args table = .ok made last := by
  have hentity := calm.represented.canonical_lt (Table.lt_size_of_canonical isTemplate)
  have hgrows := (completes.advances calm).grows
  obtain ⟨-, valid, found, hrun, hsame⟩ := completes
  have hbare := (Descriptor.sameAll_iff found completed).mp hsame
  refine instantiate_completed deep isTemplate proper valid hrun ?_ ?_ ?_
  · rw [last.anyDependent_of_bareAll hbare, hgrows.anyDependent_eq completed below, concrete]
  · rw [(hgrows.symbols _ hentity).parameters,
      firstMismatch?_again calm hgrows (calm.represented.parameters_within _) below hbare, fits]
  · rw [last.existingInstance?_of_bareAll _ hbare]
    exact hgrows.existingInstance?_eq hentity known

/-- Plain arguments are completed to the same list again, if a table declares the same. -/
theorem completedFor_plain (deep : 1 < table.config.nestingLimit) (same : table.SameUses after)
    (stands : after.canonical template = table.canonical template)
    (plain : ∀ arg ∈ args, PlainIn table after arg)
    (defaults : ∀ parameter ∈ (table.symbol (table.canonical template)).parameters.drop args.length,
      table.PlainDefault parameter ∧ after.PlainDefault parameter)
    (ends : completeArguments resolveType (table.canonical template) args table = .ok completed last) :
    last = table ∧ completedFor template args after = .ok completed after := by
  obtain ⟨depth, hdepth⟩ := Nat.exists_eq_add_of_lt deep
  have hlimit : table.config.nestingLimit = depth + 2 := by omega
  have hleaves : LeavesPlain table resolveType := by
    intro type hplain
    rw [resolveType, get_bind, hlimit]
    exact leavesPlain_resolveTemplateIds table _ _ type hplain
  have hleaves' : LeavesPlain after (resolveTemplateIds (instantiateWithin (depth + 1)) (depth + 1)) :=
    leavesPlain_resolveTemplateIds after _ _
  obtain ⟨hlength, hcompleted⟩ := completeArguments_eq_ok.mp ends
  obtain ⟨rfl, hagain⟩ := completeFrom_plain same hleaves hleaves' plain (by simp) defaults hcompleted
  have hagain := hagain (after.symbol (after.canonical template)).name 0
  refine ⟨rfl, ?_⟩
  rw [completedFor, get_bind, same.config, hlimit]
  refine completedArguments_eq_ok.mpr ⟨args, after,
    mapM_fixed fun arg member => hleaves' arg (plain arg member).2, completeArguments_eq_ok.mpr ?_⟩
  rw [stands] at hagain ⊢
  rw [(same.symbols _).parameters]
  exact ⟨hlength, hagain⟩

/-- An explicit specialization of a whole template is found.  Let it be registered for arguments that are
concrete and fit the parameters, once they are completed as they are given.  Then it is the instance for every
list of arguments that an instantiation completes to the same list, and so it is for the arguments it was
registered with, if these, and the default arguments that complete them, are plain. -/
theorem explicit_specialization_found (table : Table) (calm : table.Calm)
    (deep : 1 < table.config.nestingLimit) (template id : SymbolId) (lt : id.index < table.size)
    (args : List Descriptor) (below : ∀ arg ∈ args, arg.Below table.size)
    (proper : (table.symbol (table.canonical template)).isTemplateParameter = false)
    (whole : table.SpecializesWhole template id) (made : SymbolId) (after : Table)
    (ends : addExplicitSpecialization template args id table = .ok made after) :
    made = id ∧ ∃ completed middle,
      completeArguments resolveType (table.canonical template) args table = .ok completed middle ∧
      (after.anyDependent completed = false →
        firstMismatch? after (table.symbol (table.canonical template)).parameters completed = none →
        (∀ others last, CompletesTo template others completed after last →
          instantiate template others after = .ok id last) ∧
        (args.all (·.isValid) = true → (∀ arg ∈ args, table.Plain arg) →
          (∀ parameter ∈ (table.symbol (table.canonical template)).parameters.drop args.length,
            table.PlainDefault parameter) →
          instantiate template args after = .ok id after)) := by
  obtain ⟨hisTemplate, hends⟩ := addExplicitSpecialization_ok whole ends
  have hlt := Table.lt_size_of_canonical hisTemplate
  have hentity := calm.represented.canonical_lt hlt
  have hcalm : after.Calm :=
    calm.moved ((moves_specializeTemplate (calm.soundFor rfl rfl) hentity lt below).ok hends).1
  obtain ⟨rfl, completed, middle, hcompleted, hnew, rfl⟩ := specializeTemplate_ok hends
  obtain ⟨hadvances, hbelow⟩ := advances_completeArguments calm below hcompleted
  have hsame := middle.sameUses_registered (table.canonical template) completed made
  have hentity' : (table.canonical template).index < middle.size :=
    Nat.lt_of_lt_of_le hentity hadvances.grows.size_le
  have hsymbol := (hsame.symbols (table.canonical template)).trans
    (hadvances.grows.symbols _ hentity).sameUse
  have hstands : ∀ x : SymbolId, x.index < table.size →
      (middle.registered (table.canonical template) completed made).canonical x = table.canonical x := by
    intro x hx
    rw [← hadvances.grows.canonical_eq calm hx]
    exact ((hadvances.calm.linksEnd.stands x).congr fun y _ => Table.nextLink_registered y).canonical_eq
  refine ⟨rfl, completed, middle, hcompleted, fun concrete fits => ?_⟩
  have hfound : ∀ others last, CompletesTo template others completed
      (middle.registered (table.canonical template) completed made) last →
      instantiate template others (middle.registered (table.canonical template) completed made) =
        .ok made last := by
    intro others last completes
    refine instantiate_known hcalm ?_ ?_ ?_ ?_ concrete ?_ ?_ completes
    · rw [hsame.config, hadvances.grows.config]
      omega
    · rw [hstands _ hlt, hsymbol.isTemplate, hisTemplate]
    · rw [hstands _ hlt, hsymbol.isTemplateParameter, proper]
    · rw [Table.size_registered]
      exact hbelow
    · rw [hstands _ hlt, hsymbol.parameters, fits]
    · rw [hstands _ hlt]
      exact Table.existingInstance?_registered
        ((hadvances.grows.symbols _ hentity).isTemplate.trans hisTemplate) hnew
  refine ⟨hfound, fun valid plain defaults => ?_⟩
  -- Completing plain arguments has not changed the table.
  obtain ⟨rfl, -⟩ := completedFor_plain deep (.refl table) rfl (fun arg member => ⟨plain arg member, plain arg member⟩)
    (fun parameter member => ⟨defaults parameter member, defaults parameter member⟩) hcompleted
  have hplain : ∀ arg ∈ args, PlainIn middle (middle.registered (middle.canonical template) completed made) arg :=
    fun arg member => ⟨plain arg member,
      hsame.plain (plain arg member) fun link linked => hstands link ((below arg member).link linked)⟩
  obtain ⟨-, hagain⟩ := completedFor_plain deep hsame (hstands _ hlt) hplain
    (fun parameter member => ⟨defaults parameter member,
      hsame.plainDefault (defaults parameter member) fun value link default linked =>
        hstands link (((calm.represented.type_below parameter).default default).link linked)⟩) hcompleted
  have hbelow : ∀ arg ∈ args,
      arg.Below (middle.registered (middle.canonical template) completed made).size := by
    rw [Table.size_registered]
    exact below
  exact hfound args _ ⟨hbelow, valid, completed, hagain, (Descriptor.sameAll_iff _ _).mpr rfl⟩

end Analysis

/-! ## Runs -/

open Analysis

/-- A class template `S<T>`, a typedef `I` of `int`, and a class that becomes an explicit specialization. -/
def specializableTemplate : List Action :=
  declareTemplate 1 ⟨17⟩ (.createClass ⟨17⟩ .struct) ++
    [.perform (.createBasic ⟨21⟩ (Descriptor.ofKind .int).asTypedef), .perform (.createClass ⟨17⟩ .struct)]

/-- The table in which `S` is specialized. -/
@[irreducible]
def specializableTable : Table := (Table.new { nestingLimit := 8 }).ran specializableTemplate

/-- The table after the class was registered as an explicit specialization of `S`. -/
@[irreducible]
def specializedTable (args : List Descriptor) : Table :=
  finalTable specializableTable (addExplicitSpecialization ⟨1⟩ args ⟨5⟩)

/-- An explicit specialization that is registered for the typedef is not found for it: `S<I>` is another
instance. -/
example : ending (addExplicitSpecialization ⟨1⟩ [.ofSymbol ⟨4⟩] ⟨5⟩ specializableTable) = .ok ⟨5⟩ ∧
    endsPassing (· != ⟨5⟩) (instantiate ⟨1⟩ [.ofSymbol ⟨4⟩] (specializedTable [.ofSymbol ⟨4⟩])) = true := by
  decide +kernel

theorem calm_specializableTable : specializableTable.Calm := by
  have hreached : Reached Action.Joins ((Table.new { nestingLimit := 8 }).ran specializableTemplate) :=
    Reached.ran (.new _) (by decide +kernel)
  rw [specializableTable]
  exact hreached.calm

theorem specialize_int :
    addExplicitSpecialization ⟨1⟩ [.ofKind .int] ⟨5⟩ specializableTable =
      .ok ⟨5⟩ (specializedTable [.ofKind .int]) := by
  rw [specializedTable]
  exact eq_ok_of_ending (by decide +kernel)

/-- The explicit specialization `S<int>` is found for `int`. -/
theorem specialization_of_int_found :
    specializableTable.Calm ∧
      addExplicitSpecialization ⟨1⟩ [.ofKind .int] ⟨5⟩ specializableTable =
        .ok ⟨5⟩ (specializedTable [.ofKind .int]) ∧
      instantiate ⟨1⟩ [.ofKind .int] (specializedTable [.ofKind .int]) =
        .ok ⟨5⟩ (specializedTable [.ofKind .int]) := by
  have hwhole : specializableTable.SpecializesWhole ⟨1⟩ ⟨5⟩ := by
    intro templated _ _
    decide +kernel
  obtain ⟨-, completed, middle, hcompleted, hfound⟩ :=
    explicit_specialization_found specializableTable calm_specializableTable (by decide +kernel) ⟨1⟩ ⟨5⟩
      (by decide +kernel) [.ofKind .int] (by simpa using Descriptor.Below.ofKind _ _) (by decide +kernel)
      hwhole ⟨5⟩ (specializedTable [.ofKind .int]) specialize_int
  have hpasses : endsPassing
      (fun completed => !(specializedTable [.ofKind .int]).anyDependent completed &&
        (firstMismatch? (specializedTable [.ofKind .int])
          (specializableTable.symbol (specializableTable.canonical ⟨1⟩)).parameters completed).isNone)
      (completeArguments resolveType (specializableTable.canonical ⟨1⟩) [.ofKind .int] specializableTable) =
        true := by decide +kernel
  simp only [hcompleted, endsPassing, Bool.and_eq_true, Bool.not_eq_true',
    Option.isNone_iff_eq_none] at hpasses
  obtain ⟨hconcrete, hfits⟩ := hpasses
  obtain ⟨-, hgiven⟩ := hfound hconcrete hfits
  exact ⟨calm_specializableTable, specialize_int,
    hgiven (by decide +kernel) (by decide +kernel) (by decide +kernel)⟩

end NameBinding
