import NameBinding.Proofs.Operation.Specialized

/-!
# Completing a template that was used

When a definition completes the forward declaration of a template, the declaration stands for the definition
from then on.  What was remembered about its instances stays with the declaration, where no instantiation looks
any more.

* `Table.SameMemory`: the tables declare the same, and all templates remember the same.
* `instantiate_remembered`: what is instantiated is remembered for the completed arguments.

The main statement is `completed_template_instances`: after the completion, an instantiation gives what the
definition remembers for the completed arguments, or a new symbol.
-/

namespace NameBinding

/-! ## Declarations that join a scope -/

/-- The tables declare the same, and all templates remember the same. -/
structure Table.SameMemory (table after : Table) : Prop where
  uses : table.SameUses after
  size_eq : after.size = table.size
  explicits : ∀ x, (after.symbol x).explicits = (table.symbol x).explicits
  instances : ∀ x, (after.symbol x).instances = (table.symbol x).instances
  specializations : ∀ x, (after.symbol x).specializations = (table.symbol x).specializations

theorem Edit.IsJoin.sameUse {edit : Edit} (join : edit.IsJoin) (symbol : Symbol) :
    (edit.apply symbol).SameUse symbol := by
  obtain ⟨name, scope, type, inTemplate, access, target, named, origin, link, payload⟩ := symbol
  rcases edit with assignment | entry | ⟨name, member⟩
  · cases assignment with
    | scope | forwardTarget => exact ⟨rfl, rfl, rfl, rfl⟩
    | _ => exact join.elim
  · exact join.elim
  · cases payload <;> exact ⟨rfl, rfl, rfl, rfl⟩

theorem Edit.IsJoin.templateData? {edit : Edit} (join : edit.IsJoin) (symbol : Symbol) :
    (edit.apply symbol).explicits = symbol.explicits ∧ (edit.apply symbol).instances = symbol.instances ∧
      (edit.apply symbol).specializations = symbol.specializations := by
  obtain ⟨name, scope, type, inTemplate, access, target, named, origin, link, payload⟩ := symbol
  rcases edit with assignment | entry | ⟨name, member⟩
  · cases assignment with
    | scope | forwardTarget => exact ⟨rfl, rfl, rfl⟩
    | _ => exact join.elim
  · exact join.elim
  · cases payload <;> exact ⟨rfl, rfl, rfl⟩

namespace Table.SameMemory

open Analysis

variable {table after last : Table}

theorem refl (table : Table) : table.SameMemory table :=
  ⟨.refl table, rfl, fun _ => rfl, fun _ => rfl, fun _ => rfl⟩

theorem perform (same : table.SameMemory after) (id : SymbolId) {edit : Edit} (join : edit.IsJoin) :
    table.SameMemory (after.perform id edit) := by
  have hsymbol : ∀ x, ((after.perform id edit).symbol x).SameUse (after.symbol x) ∧
      ((after.perform id edit).symbol x).explicits = (after.symbol x).explicits ∧
      ((after.perform id edit).symbol x).instances = (after.symbol x).instances ∧
      ((after.perform id edit).symbol x).specializations = (after.symbol x).specializations := by
    intro x
    rw [symbol_perform]
    split
    · exact ⟨join.sameUse _, join.templateData? _⟩
    · exact ⟨.refl _, rfl, rfl, rfl⟩
  exact ⟨same.uses.trans ⟨rfl, fun x => (hsymbol x).1⟩, (size_perform after id edit).trans same.size_eq,
    fun x => (hsymbol x).2.1.trans (same.explicits x), fun x => (hsymbol x).2.2.1.trans (same.instances x),
    fun x => (hsymbol x).2.2.2.trans (same.specializations x)⟩

/-- A declaration that joins a scope changes what no template remembers. -/
theorem of_addSymbol {scope id : SymbolId} (ends : addSymbol scope id table = .ok () after) :
    table.SameMemory after := by
  have hkeeps : Keeps table.SameMemory (addSymbol scope id) :=
    Joining.keeps_addSymbol (fun id _ join =>
      Yields.update (fun _ same => same.perform id join) fun _ _ _ => trivial) scope id
  have hsame := (hkeeps table (.refl table)).1
  rw [ends] at hsame
  exact hsame.1

theorem existingInstance?_eq (same : table.SameMemory after) (template : SymbolId) (args : List Descriptor) :
    after.existingInstance? template args = table.existingInstance? template args := by
  rw [existingInstance?_eq_map, existingInstance?_eq_map, same.explicits, same.instances]

end Table.SameMemory

/-! ## Instances of a completed template -/

namespace Analysis

variable {table after last : Table} {template made : SymbolId} {args key : List Descriptor}

/-- What is instantiated is remembered for the completed arguments, unless they are dependent. -/
theorem instantiate_remembered (calm : table.Calm) (below : ∀ arg ∈ args, arg.Below table.size)
    (proper : (table.symbol (table.canonical template)).isTemplateParameter = false)
    (ends : instantiate template args table = .ok made after) (each : after.OneInstanceEach) :
    table.Advances after ∧ ∃ completed middle, completedFor template args table = .ok completed middle ∧
      (∀ arg ∈ completed, arg.Below after.size) ∧
      (after.anyDependent completed = false →
        after.existingInstance? (table.canonical template) completed = some made) := by
  have hrun : instantiateWithin table.config.nestingLimit template args table = .ok made after := ends
  obtain ⟨hafter, -⟩ := (recalls_instantiateWithin after table.config.nestingLimit).advances calm below hrun
  cases hdepth : table.config.nestingLimit with
  | zero =>
      rw [hdepth] at hrun
      cases hrun
  | succ depth =>
      rw [hdepth] at hrun
      have hrecalls := recalls_instantiateWithin after depth
      have hcopies := remembersCopies_instantiateUncached depth
      obtain ⟨isTemplate, -, completed, middle, hcompleted, hmade⟩ := instantiateStep_eq_ok.mp hrun
      have hentity := calm.represented.canonical_lt (Table.lt_size_of_canonical isTemplate)
      obtain ⟨hmiddle, hbelow⟩ := hrecalls.advances_completedArguments calm below hcompleted
      have hlt := Nat.lt_of_lt_of_le hentity hmiddle.grows.size_le
      have hlast := advances_instanceFor hrecalls hcopies hmiddle.calm hlt hbelow hmade
      refine ⟨hafter, completed, middle, ?_, fun arg member => (hbelow arg member).mono hlast.grows.size_le,
        fun concrete => ?_⟩
      · rw [completedFor, get_bind, hdepth]
        exact hcompleted
      · rw [hlast.grows.anyDependent_eq completed hbelow] at concrete
        have hconcrete : ((table.symbol (table.canonical template)).isTemplateParameter ||
            middle.anyDependent completed) = false := by rw [proper, concrete]; rfl
        rw [instanceFor_fits hconcrete (fits_of_instanceFor_ok hconcrete hmade)] at hmade
        exact existingInstance?_of_concreteInstance hrecalls hcopies hmiddle.calm
          ((hmiddle.grows.symbols _ hentity).isTemplate.trans isTemplate) hbelow each hmade

/-- An instance that is not remembered, and of no partial specialization, is a new symbol. -/
theorem instantiate_new (calm : table.Calm)
    (proper : (table.symbol (table.canonical template)).isTemplateParameter = false)
    (given : ∀ arg ∈ key, arg.Below table.size) (concrete : table.anyDependent key = false)
    (completes : CompletesTo template args key table last)
    (unknown : last.existingInstance? (table.canonical template) key = none)
    (unspecialized : (last.symbol (table.canonical template)).specializations = [])
    (ends : instantiate template args table = .ok made after) : made = ⟨last.size⟩ := by
  have hadvances := completes.advances calm
  obtain ⟨-, -, found, hcompleted, hsame⟩ := completes
  have hbare := (Descriptor.sameAll_iff found key).mp hsame
  have hrun : instantiateWithin table.config.nestingLimit template args table = .ok made after := ends
  rw [completedFor, get_bind] at hcompleted
  cases hdepth : table.config.nestingLimit with
  | zero =>
      rw [hdepth] at hrun
      cases hrun
  | succ depth =>
      rw [hdepth] at hrun hcompleted
      obtain ⟨-, -, other, middle, hother, hmade⟩ := instantiateStep_eq_ok.mp hrun
      have hsame := hcompleted.symm.trans hother
      cases hsame
      have hconcrete : ((table.symbol (table.canonical template)).isTemplateParameter ||
          last.anyDependent found) = false := by
        rw [proper, last.anyDependent_of_bareAll hbare, hadvances.grows.anyDependent_eq key given, concrete]
        rfl
      rw [instanceFor_fits hconcrete (fits_of_instanceFor_ok hconcrete hmade)] at hmade
      rw [← last.existingInstance?_of_bareAll _ hbare] at unknown
      cases ConcreteRun.of_ok hmade with
      | known known => simp [unknown] at known
      | specialized absent selects =>
          exact absurd unspecialized (specialized_of_selectSpecialization selects)
      | copied absent hcopied => exact instantiateUncached_made hadvances.calm.idle hcopied

/-- One plain argument for each parameter is all that is needed. -/
theorem completedFor_full (deep : 1 < table.config.nestingLimit) (plain : ∀ arg ∈ args, table.Plain arg)
    (length : args.length = (table.symbol (table.canonical template)).parameters.length) :
    completedFor template args table = .ok (args.map Descriptor.stripDefault) table := by
  obtain ⟨depth, hdepth⟩ := Nat.exists_eq_add_of_lt deep
  have hlimit : table.config.nestingLimit - 1 = depth + 1 := by omega
  rw [completedFor, get_bind, hlimit]
  exact completedArguments_eq_ok.mpr ⟨args, table,
    mapM_fixed fun arg member => (plain arg member).resolveTemplateIds_eq _ depth,
    completeArguments_eq_ok.mpr ⟨Nat.le_of_eq length, completeFrom_complete length⟩⟩

/-- A forward declaration of a template is used, and completed later.  Let an instantiation of `f` succeed with
`s`, and let `d` be added to a scope later such that `f` stands for it.  Then `f` still remembers `s` for the
completed arguments `key`, but an instantiation that looks up `key` gives what `d` remembers for it.  So it gives
an instance of the same entity if `d` remembers one, but a symbol that was not there if `d` remembers nothing for
`key` and has no partial specialization.  The arguments themselves look up `key` if they are plain and there is
one for each parameter. -/
theorem completed_template_instances (table : Table) (calm : table.Calm)
    (deep : 1 < table.config.nestingLimit) (f scope d : SymbolId) (args : List Descriptor)
    (below : ∀ arg ∈ args, arg.Below table.size)
    (proper : (table.symbol (table.canonical f)).isTemplateParameter = false)
    (s : SymbolId) (made : Table) (ends : instantiate f args table = .ok s made)
    (each : made.OneInstanceEach) (before : Table) (asked : Asked made before)
    (outer : scope.index < before.size) (lt : d.index < before.size) (after : Table)
    (adds : addSymbol scope d before = .ok () after) (linksEnd : after.LinksEnd)
    (completes : after.canonical f = d) (isTemplate : (after.symbol d).isTemplate = true)
    (proper' : (after.symbol d).isTemplateParameter = false) :
    ∃ key middle, completedFor f args table = .ok key middle ∧
      (args.all (·.isValid) = true → (∀ arg ∈ args, PlainIn table after arg) →
        args.length = (table.symbol (table.canonical f)).parameters.length →
        args.length = (after.symbol d).parameters.length → CompletesTo f args key after after) ∧
      (after.anyDependent key = false →
        after.existingInstance? (table.canonical f) key = some s ∧
        (firstMismatch? after (after.symbol d).parameters key = none →
          ∀ others last, CompletesTo f others key after last →
            (∀ known, after.existingInstance? d key = some known →
              after.canonical s = after.canonical known →
              instantiate f others after = .ok known last ∧ last.canonical s = last.canonical known) ∧
            (last.existingInstance? d key = none → (last.symbol d).specializations = [] →
              ∀ other final, instantiate f others after = .ok other final → after.size ≤ other.index))) := by
  obtain ⟨hmade, key, middle, hkey, hbelow, hremembered⟩ :=
    instantiate_remembered calm below proper ends each
  have hbefore := asked.advances hmade.calm
  have hmoved := ((moves_addSymbol (allowsLinks_linking d) (hbefore.calm.soundFor rfl rfl) trivial
    outer lt).ok adds).1
  have hcalm : after.Calm :=
    ⟨hmoved.idle hbefore.calm.idle, hmoved.changes.represented hbefore.calm.represented, linksEnd⟩
  have hsame := Table.SameMemory.of_addSymbol adds
  have hentity : (table.canonical f).index < made.size := by
    cases hdepth : table.config.nestingLimit with
    | zero => omega
    | succ depth =>
        have hrun : instantiateWithin table.config.nestingLimit f args table = .ok s made := ends
        rw [hdepth] at hrun
        have hlt := Table.lt_size_of_canonical (instantiateStep_eq_ok.mp hrun).1
        exact Nat.lt_of_lt_of_le (calm.represented.canonical_lt hlt) hmade.grows.size_le
  have hgiven : ∀ arg ∈ key, arg.Below after.size := by
    intro arg member
    rw [hsame.size_eq]
    exact (hbelow arg member).mono hbefore.grows.size_le
  have hlimit : after.config.nestingLimit = table.config.nestingLimit := by
    rw [hsame.uses.config, hbefore.grows.config, hmade.grows.config]
  refine ⟨key, middle, hkey, fun valid plain length length' => ?_, fun concrete => ?_⟩
  · have hfirst := completedFor_full deep (fun arg member => (plain arg member).1) length
    rw [hkey] at hfirst
    cases hfirst
    have hagain := completedFor_full (by omega) (fun arg member => (plain arg member).2)
      (completes ▸ length' : args.length = (after.symbol (after.canonical f)).parameters.length)
    have hsize : table.size ≤ after.size := by
      rw [hsame.size_eq]
      exact Nat.le_trans hmade.grows.size_le hbefore.grows.size_le
    exact ⟨fun arg member => (below arg member).mono hsize, valid, _, hagain,
      (Descriptor.sameAll_iff _ _).mpr rfl⟩
  have hconcrete : made.anyDependent key = false := by
    rw [← hbefore.grows.anyDependent_eq key hbelow,
      ← Table.anyDependent_congr (fun x _ => hsame.uses.isDependentSymbol_eq x) key hgiven, concrete]
  have hknown : after.existingInstance? (table.canonical f) key = some s := by
    rw [hsame.existingInstance?_eq]
    exact hbefore.grows.existingInstance?_eq hentity (hremembered hconcrete)
  refine ⟨hknown, fun fits others last hothers => ⟨fun known hinherited same => ?_, ?_⟩⟩
  · have hgrows := (hothers.advances hcalm).grows
    refine ⟨instantiate_known hcalm (by omega) (completes ▸ isTemplate) (completes ▸ proper') hgiven concrete
      (completes ▸ fits) (completes ▸ hinherited) hothers, ?_⟩
    rw [hgrows.canonical_eq hcalm (hcalm.represented.existingInstance?_lt hknown),
      hgrows.canonical_eq hcalm (hcalm.represented.existingInstance?_lt hinherited), same]
  · intro unknown unspecialized other final hother
    have hnew := instantiate_new hcalm (completes ▸ proper') hgiven concrete hothers (completes ▸ unknown)
      (completes ▸ unspecialized) hother
    rw [hnew]
    exact (hothers.advances hcalm).grows.size_le

end Analysis

/-! ## Runs -/

open Analysis

/-- A class template that is declared in the global namespace and one that defines it, and a class that is the
explicit specialization of both for `int`. -/
def declaredTemplate : List Action :=
  declareTemplate 1 ⟨17⟩ (.createClass ⟨17⟩ .struct) ++
    [.addFlags ⟨3⟩ { specifiers := { isForward := true } }, .perform (.addSymbol ⟨0⟩ ⟨1⟩)] ++
    declareTemplate 4 ⟨17⟩ (.createClass ⟨17⟩ .struct) ++
    [.perform (.createClass ⟨17⟩ .struct),
      .perform (.addExplicitSpecialization ⟨1⟩ [.ofKind .int] ⟨7⟩),
      .perform (.addExplicitSpecialization ⟨4⟩ [.ofKind .int] ⟨7⟩)]

/-- The table in which the declared template is used. -/
@[irreducible]
def declaredTable : Table := (Table.new { nestingLimit := 8 }).ran declaredTemplate

/-- The table after the template was used for `int`. -/
@[irreducible]
def usedTable : Table := finalTable declaredTable (instantiate ⟨1⟩ [.ofKind .int])

/-- The table after it was used for `char`, too. -/
@[irreducible]
def usedAgainTable : Table := usedTable.ran ([Operation.instantiate ⟨1⟩ [.ofKind .char]].map .perform)

/-- The table after the template was completed. -/
@[irreducible]
def completedTable : Table := finalTable usedAgainTable (addSymbol ⟨0⟩ ⟨4⟩)

/-- The instance for `char` is forgotten: it is a copy of the declaration, and the definition makes another one. -/
example : ending (instantiate ⟨1⟩ [.ofKind .char] usedAgainTable) = .ok ⟨8⟩ ∧
    ending (instantiate ⟨1⟩ [.ofKind .char] completedTable) = .ok ⟨9⟩ ∧
    (finalTable completedTable (instantiate ⟨1⟩ [.ofKind .char])).canonical ⟨8⟩ ≠
      (finalTable completedTable (instantiate ⟨1⟩ [.ofKind .char])).canonical ⟨9⟩ := by
  decide +kernel

/-- The template is used for `int` and for `char`, and then completed. -/
theorem declaredTable_completed :
    instantiate ⟨1⟩ [.ofKind .int] declaredTable = .ok ⟨7⟩ usedTable ∧ Asked usedTable usedAgainTable ∧
      addSymbol ⟨0⟩ ⟨4⟩ usedAgainTable = .ok () completedTable := by
  refine ⟨?used, ?asked, ?completed⟩
  case used =>
    rw [usedTable]
    exact eq_ok_of_ending (by decide +kernel)
  case asked =>
    rw [usedAgainTable]
    exact (Asked.refl usedTable).ran _ (by decide +kernel) (by decide +kernel)
  case completed =>
    rw [completedTable]
    exact eq_ok_of_ending (by decide +kernel)

/-- No action on the way closes a circle of links. -/
theorem reached_completedTable : Reached Action.Joins declaredTable ∧ Reached Action.Joins completedTable := by
  obtain ⟨huse, -, hcompletion⟩ := declaredTable_completed
  have hdeclared : Reached Action.Joins declaredTable := by
    rw [declaredTable]
    exact Reached.ran (.new _) (by decide +kernel)
  have hused : Reached Action.Joins usedTable :=
    hdeclared.act (.perform (.instantiate ⟨1⟩ [.ofKind .int])) (by decide +kernel) (Action.after_discard rfl huse)
  have hagain : Reached Action.Joins usedAgainTable := by
    rw [usedAgainTable]
    exact Reached.ran hused (by decide +kernel)
  refine ⟨hdeclared, hagain.act (.perform (.addSymbol ⟨0⟩ ⟨4⟩)) (by decide +kernel) ?_⟩
  have hrun : (Action.perform (.addSymbol ⟨0⟩ ⟨4⟩)).run usedAgainTable = .ok () completedTable := hcompletion
  rw [Action.after, hrun]

/-- The explicit specialization of the declaration is found after the completion, since it is one of the
definition, too. -/
theorem shared_specialization_kept :
    declaredTable.Calm ∧ instantiate ⟨1⟩ [.ofKind .int] declaredTable = .ok ⟨7⟩ usedTable ∧
      Asked usedTable usedAgainTable ∧ addSymbol ⟨0⟩ ⟨4⟩ usedAgainTable = .ok () completedTable ∧
      completedTable.canonical ⟨1⟩ = ⟨4⟩ ∧
      instantiate ⟨1⟩ [.ofKind .int] completedTable = .ok ⟨7⟩ completedTable := by
  obtain ⟨huse, hasked, hcompletion⟩ := declaredTable_completed
  obtain ⟨hdeclared, hcompleted⟩ := reached_completedTable
  have hcalm := hdeclared.calm
  have hcompletes : completedTable.canonical ⟨1⟩ = ⟨4⟩ := by decide +kernel
  obtain ⟨key, middle, hkey, hplain, hkept⟩ :=
    completed_template_instances declaredTable hcalm (by decide +kernel) ⟨1⟩ ⟨0⟩ ⟨4⟩ [.ofKind .int]
      (by simpa using Descriptor.Below.ofKind _ _) (by decide +kernel) ⟨7⟩ usedTable huse
      (by decide +kernel) usedAgainTable hasked (by decide +kernel) (by decide +kernel)
      completedTable hcompletion hcompleted.calm.linksEnd hcompletes
      (by decide +kernel) (by decide +kernel)
  have hpasses : endsPassing
      (fun key => !completedTable.anyDependent key &&
        (firstMismatch? completedTable (completedTable.symbol ⟨4⟩).parameters key).isNone &&
        completedTable.existingInstance? ⟨4⟩ key == some ⟨7⟩)
      (completedFor ⟨1⟩ [.ofKind .int] declaredTable) = true := by decide +kernel
  simp only [hkey, endsPassing, Bool.and_eq_true, Bool.not_eq_true', Option.isNone_iff_eq_none,
    beq_iff_eq] at hpasses
  obtain ⟨⟨hconcrete, hfits⟩, hknown⟩ := hpasses
  have hplainIn : ∀ arg ∈ [Descriptor.ofKind .int], PlainIn declaredTable completedTable arg := by
    unfold PlainIn
    decide +kernel
  have hlooksUp := hplain (by decide +kernel) hplainIn (by decide +kernel) (by decide +kernel)
  obtain ⟨-, hinstances⟩ := hkept hconcrete
  obtain ⟨hinherited, -⟩ := hinstances hfits _ _ hlooksUp
  exact ⟨hcalm, huse, hasked, hcompletion, hcompletes, (hinherited ⟨7⟩ hknown rfl).1⟩

end NameBinding
