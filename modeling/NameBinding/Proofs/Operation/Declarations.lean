import NameBinding.Proofs.Lookup.Exact
import NameBinding.Proofs.Operation.Representation
import NameBinding.Proofs.Table.Declaring

/-!
# Runs of declarations

A caller makes symbols, puts their parts together and adds them to scopes, each symbol once and after
everything that the types of its parameters name.

* `Action.Prepares`: the actions that make and prepare symbols which have not been added yet.
* `Action.Declares`: these, and adding a symbol that is ready.
* `Declaring`: the tables of such a run, each with the symbols that have been passed to `addSymbol`.
* `Declaring.declared` and `Declaring.grounded`: what holds in all of them.

The main statement is `declared_names_unambiguous`: what stands beside each other under a name is one entity
or may be overloaded, and so a lookup of the name in its scope is not ambiguous.
-/

namespace NameBinding

variable {careful : Prop} {passed : List SymbolId} {table next : Table}

/-! ## The actions of a run -/

/-- The action makes a symbol or gives parts to symbols that have not been passed to `addSymbol`. -/
def Action.Prepares (passed : List SymbolId) (table : Table) : Action → Prop
  | .perform (.intern _) | .perform (.createBasic _ _) | .perform (.createContainer _ _)
  | .perform (.createClass _ _) | .perform (.createFunction _ _) | .perform (.createTemplate _)
  | .perform (.createTemplateParameter _ _) | .perform (.createTemplateTemplateParameter _)
  | .perform (.createSpecialization _ _) => True
  | .perform (.addParameter owner part) | .perform (.addTemplateParameter owner part) =>
      owner ∉ passed ∧ part ∉ passed
  | .perform (.addParameterType owner _) | .perform (.setVarargs owner _)
  | .perform (.setReturnType owner _) => owner ∉ passed
  | .addFlags id _ => id ∉ passed ∧ (table.symbol id).scope = none
  | _ => False

/-- The action prepares a declaration, or adds one that is ready beside the earlier ones of its name. -/
def Action.Declares (careful : Prop) (passed : List SymbolId) (table : Table) : Action → Prop
  | .perform (.addSymbol scope new) =>
      table.Ready careful passed (table.members scope (table.symbol new).name) new
  | action => action.Prepares passed table

/-- The symbol that the action passes to `addSymbol`. -/
def Action.passes : Action → List SymbolId
  | .perform (.addSymbol _ new) => [new]
  | _ => []

/-- The tables of a run of declarations, with the symbols that have been passed to `addSymbol`.  Where
`careful` holds, typedefs are declared with care. -/
inductive Declaring (careful : Prop) : List SymbolId → Table → Prop where
  | new (config : Config) : Declaring careful [] (Table.new config)
  | act {passed : List SymbolId} {table next : Table} (run : Declaring careful passed table)
      (action : Action) (declares : action.Declares careful passed table)
      (refers : action.Refers table) (ends : action.after table = some next) :
      Declaring careful (passed ++ action.passes) next

/-! ## What one action keeps -/

/-- What holds wherever the action ends holds in the table after it. -/
theorem Action.holds_after {action : Action} {inv : Table → Prop}
    (ends : action.after table = some next)
    (holds : Analysis.EndsWith inv inv (fun _ => True) (action.run table)) : inv next := by
  unfold Action.after at ends
  cases hrun : action.run table with
  | ok value last =>
      rw [hrun] at holds ends
      cases ends
      exact holds.1
  | error interrupt last =>
      rw [hrun] at holds ends
      cases interrupt with
      | error error =>
          cases ends
          exact holds
      | fault fault => cases ends

/-- Whether the value is of interest makes no difference. -/
theorem Analysis.EndsWith.discard {α : Type} {inv : Table → Prop} {step : Analysis α}
    (holds : EndsWith inv inv (fun _ => True) (step table)) :
    EndsWith inv inv (fun _ => True) (discard step table) := by
  show EndsWith inv inv (fun _ => True) (EStateM.map _ step table)
  unfold EStateM.map
  cases hstep : step table with
  | ok value after =>
      rw [hstep] at holds
      exact ⟨holds.1, trivial⟩
  | error interrupt after =>
      rw [hstep] at holds
      cases interrupt with
      | error error => exact holds
      | fault fault => trivial

namespace Table

/-- The symbols of a new table are untouched. -/
theorem untouched_new (config : Config) (x : SymbolId) : ((Table.new config).symbol x).Untouched := by
  obtain ⟨index⟩ := x
  cases index with
  | zero => exact .of_blank rfl rfl rfl
  | succ index =>
      rw [symbol_of_getElem?_none (by simp [Table.new])]
      exact .of_blank trivial rfl rfl

/-- A new table has declared nothing. -/
theorem Declared.new (careful : Prop) (config : Config) :
    (Table.new config).Declared careful [] := by
  have huntouched := untouched_new config
  have hmembers : ∀ scope name, (Table.new config).members scope name = [] := fun scope name =>
    (huntouched scope).membersNamed name
  have hunlinked : ∀ x, (Table.new config).nextLink x = none := by
    intro x
    rw [nextLink, (huntouched x).bare.aliasOf, (huntouched x).forwardTarget]
    rfl
  constructor
  case linksEnd => exact fun x => ⟨x, .refl (hunlinked x)⟩
  case bare => exact fun x => (huntouched x).bare
  case alone => exact fun x _ => ⟨hunlinked x, fun y => by simp [hunlinked]⟩
  case members => simp [hmembers]
  case attached => simp [(huntouched _).parameters]
  case typedefs => exact fun _ => ⟨by simp, by simp, by simp⟩
  case unambiguous => exact fun scope name _ => ⟨by simp [hmembers], by simp [hmembers]⟩
  all_goals simp [Within]

/-- An action of a run keeps the invariant, whether it succeeds or ends with an error. -/
theorem Declared.after {action : Action} (declared : table.Declared careful passed)
    (declares : action.Declares careful passed table) (refers : action.Refers table)
    (ends : action.after table = some next) :
    next.Declared careful (passed ++ action.passes) := by
  have hprepared : action.passes = [] →
      Analysis.EndsWith (fun last => last.Declared careful passed)
        (fun last => last.Declared careful passed) (fun _ => True) (action.run table) →
      next.Declared careful (passed ++ action.passes) := by
    intro none holds
    rw [none, List.append_nil]
    exact action.holds_after ends holds
  cases action with
  | perform operation =>
      cases operation with
      | addSymbol scope new => exact Action.holds_after ends (declared.addSymbol declares)
      | intern text => exact hprepared rfl (declared.prepare_intern text).discard
      | createBasic | createTemplateParameter =>
          exact hprepared rfl (declared.prepare_create (.of_blank (by trivial) (by rfl) (by rfl))).discard
      | createContainer | createClass | createFunction | createTemplate
      | createTemplateTemplateParameter =>
          exact hprepared rfl (declared.prepare_create (.of_blank (by rfl) (by rfl) (by rfl))).discard
      | createSpecialization name patterns =>
          refine hprepared rfl (declared.prepare_create ?_).discard
          exact ⟨⟨rfl, rfl, rfl, rfl⟩, rfl, fun _ => rfl, rfl⟩
      | addParameter function parameter =>
          have hpart := refers parameter (by simp [Action.mentions, Operation.mentions])
          exact hprepared rfl (declared.prepare_addParameter declares.1 declares.2 hpart)
      | addParameterType function type =>
          exact hprepared rfl (declared.prepare_addParameterType declares type).discard
      | setVarargs function varargs =>
          exact hprepared rfl (declared.prepare_setVarargs declares varargs)
      | setReturnType function type =>
          exact hprepared rfl (declared.prepare_setReturnType declares type)
      | addTemplateParameter template parameter =>
          have hpart := refers parameter (by simp [Action.mentions, Operation.mentions])
          exact hprepared rfl (declared.prepare_addTemplateParameter declares.1 declares.2 hpart)
      | _ => exact declares.elim
  | addFlags id flags => exact hprepared rfl (declared.prepare_addFlags declares.1 declares.2 flags)
  | _ => exact declares.elim

end Table

/-! ## Runs -/

namespace Declaring

variable (run : Declaring careful passed table)

include run

theorem declared : table.Declared careful passed := by
  induction run with
  | new config => exact .new careful config
  | act _ action declares refers ends ih => exact ih.after declares refers ends

theorem grounded : Grounded table := by
  induction run with
  | new config => exact .new config
  | act _ action _ refers ends ih => exact ih.act action refers ends

/-- Members of a scope stand beside each other in it. -/
theorem overloadable (scope : SymbolId) {name : Name} (named : name.isEmpty = false) :
    table.Overloadable careful scope (table.members scope name) := by
  have hdeclared := run.declared
  refine ⟨hdeclared.unambiguous scope name named, ?_, ?_⟩
  · exact fun x member => (hdeclared.members scope name x member).2
  · intro x member hfunction htemplate
    have hpassed := (hdeclared.members scope name x member).1
    rw [hdeclared.templates x hpassed hfunction] at htemplate
    exact hdeclared.unlinked x hpassed hfunction htemplate

end Declaring

/-- Redeclaration checking keeps scopes unambiguous.  Whatever is declared in a run, each symbol once, and
whether or not it is rejected: the tags of one name in a scope are one entity, and so are its objects; no
object stands beside a function; and where typedefs are declared with care, functions with the same
parameters that are no templates are one entity.  A qualified lookup of the name in the scope that ignores
using-directives is then not ambiguous, as long as no parameter has that name. -/
theorem declared_names_unambiguous (run : Declaring careful passed table) (scope : SymbolId)
    {name : Name} (named : name.isEmpty = false) :
    (∀ a ∈ table.members scope name, ∀ b ∈ table.members scope name,
      (table.declClass a = .tag → table.declClass b = .tag →
        table.canonical a = table.canonical b) ∧
      (table.declClass a = .object → table.declClass b = .object →
        table.canonical a = table.canonical b) ∧
      (table.declClass a = .object → table.declClass b ≠ .function) ∧
      (careful → table.declClass a = .function → table.declClass b = .function →
        (table.symbol a).isTemplate = false → (table.symbol b).isTemplate = false →
        table.hasSameParameters a b = true → table.canonical a = table.canonical b)) ∧
    ∀ options : LookupOptions, scope.index < table.size → options.qualified = true →
      options.completing = false → options.ignoreDirectives = true → options.Below table.size →
      (∀ parameter ∈ (table.symbol (table.resolveNamespace scope)).parameters,
        (table.symbol parameter).name ≠ name) →
      ∀ clash after,
        Analysis.lookup scope name options table ≠ .error (.error (.ambiguous clash)) after := by
  have hoverloadable := run.overloadable scope named
  have hrival : ∀ {a b}, table.declClass a = table.declClass b → table.declClass a ≠ .function →
      table.Rival careful a b := fun same differs =>
    ⟨same, fun hfunction => absurd hfunction differs⟩
  constructor
  · intro a ha b hb
    have hshares := hoverloadable.unambiguous.shares a ha b hb
    refine ⟨?tags, ?objects, hoverloadable.unambiguous.apart a ha b hb, ?functions⟩
    case tags => exact fun classA classB => hshares (hrival (classA.trans classB.symm) (by simp [classA]))
    case objects =>
      exact fun classA classB => hshares (hrival (classA.trans classB.symm) (by simp [classA]))
    case functions =>
      intro hcareful classA classB plainA plainB same
      exact hshares ⟨classA.trans classB.symm, fun _ => ⟨hcareful, plainA, plainB, same⟩⟩
  · intro options lt qualified whole directives below parameters clash after ambiguous
    have hdeclared := run.declared
    have hsheltered := run.grounded.represented_sheltered
    have hsound : (Regime.copying table.size 0).Sound table := by
      have hlinking := Regime.Sound.of_settled hsheltered.holds hsheltered.settled
      exact ⟨hlinking.represented, hlinking.work, hlinking.running, Nat.le_refl _, Nat.zero_le _⟩
    have hlookup := Analysis.moves_lookup_exact scope name hsound hdeclared.linksEnd lt
      (run.overloadable _ named) (hdeclared.bare _) parameters qualified whole directives below
    unfold Analysis.MovesAt at hlookup
    rw [ambiguous] at hlookup
    have hunspecialized : table.Unspecialized := fun id => (hdeclared.bare id).specializations
    exact hlookup.2 trivial hunspecialized clash rfl

/-! ## Runs that can be checked -/

instance {new : SymbolId} {olds : List SymbolId} [Decidable careful] :
    Decidable (table.Ready careful passed olds new) :=
  decidable_of_iff
    (new ∉ passed ∧ new.index < table.size ∧
      ((table.symbol new).isTemplate = true → (table.templated? new).isSome = true) ∧
      (∀ parameter ∈ (table.symbol new).parameters,
        ∀ link, (table.symbol parameter).type.link = some link → link ∈ passed) ∧
      (careful → (table.symbol new).type.isTypedef = true →
        ∀ link, (table.symbol new).type.link = some link → link ∈ passed) ∧
      (careful → (table.symbol new).type.isTypedef = true → table.isCompletable new = false) ∧
      (careful → (table.symbol new).type.isTypedef = true → ∀ old ∈ olds,
        table.declClass old = table.declClass new → table.isCompletable old = false))
    ⟨fun ⟨fresh, lt, templated, parameters, names, final, first⟩ =>
      ⟨fresh, lt, templated, parameters, names, final, first⟩,
     fun ready => ⟨ready.fresh, ready.lt_size, ready.templated, ready.parameters, ready.names,
      ready.final, ready.first⟩⟩

instance {operation : Operation} :
    Decidable ((Action.perform operation).Prepares passed table) := by
  apply Operation.casesOn
      (motive := fun operation => Decidable ((Action.perform operation).Prepares passed table))
      operation <;>
    (intros; dsimp only [Action.Prepares]; infer_instance)

instance {action : Action} : Decidable (action.Prepares passed table) := by
  apply Action.casesOn (motive := fun action => Decidable (action.Prepares passed table)) action <;>
    (intros; first | infer_instance | (dsimp only [Action.Prepares]; infer_instance))

instance {action : Action} [Decidable careful] : Decidable (action.Declares careful passed table) := by
  unfold Action.Declares
  split <;> infer_instance

/-- Are the actions those of a run, and does none of them end with a fault? -/
def Table.declares (careful : Prop) [Decidable careful] (passed : List SymbolId) (table : Table) :
    List Action → Bool
  | [] => true
  | action :: rest =>
      decide (action.Declares careful passed table) && decide (action.Refers table) &&
        match action.after table with
        | none => false
        | some next => next.declares careful (passed ++ action.passes) rest

theorem Declaring.ran [Decidable careful] (run : Declaring careful passed table)
    {actions : List Action} (declares : table.declares careful passed actions = true) :
    Declaring careful (passed ++ actions.flatMap Action.passes) (table.ran actions) := by
  induction actions generalizing passed table with
  | nil => simpa [Table.ran] using run
  | cons action rest ih =>
      simp only [Table.declares, Bool.and_eq_true, decide_eq_true_eq] at declares
      obtain ⟨⟨hdeclares, hrefers⟩, hrest⟩ := declares
      unfold Table.ran
      cases hafter : action.after table with
      | none => simp [hafter] at hrest
      | some next =>
          simp only [hafter] at hrest
          have hran := ih (run.act action hdeclares hrefers hafter) hrest
          simpa [List.append_assoc] using hran

/-- A typedef, a forward declaration of a class and its definition, and three functions of one name: the
second one defines the first, whose parameter has the type of the typedef.  An object of the name of the
functions is rejected; an object of the name of the class is not. -/
def redeclared : List Action :=
  let forward : Flags := { specifiers := { isForward := true } }
  let typedef : Flags := { specifiers := { isTypedef := true } }
  [.perform (.createBasic ⟨20⟩ { kind := .int, flags := typedef }), .perform (.addSymbol ⟨0⟩ ⟨1⟩),
    .perform (.createClass ⟨17⟩ .cls), .addFlags ⟨2⟩ forward, .perform (.addSymbol ⟨0⟩ ⟨2⟩),
    .perform (.createClass ⟨17⟩ .cls), .perform (.addSymbol ⟨0⟩ ⟨3⟩),
    .perform (.createFunction ⟨18⟩ .function), .addFlags ⟨4⟩ forward,
    .perform (.addParameterType ⟨4⟩ (.ofSymbol ⟨1⟩)), .perform (.addSymbol ⟨0⟩ ⟨4⟩),
    .perform (.createFunction ⟨18⟩ .function), .perform (.addParameterType ⟨6⟩ (.ofKind .int)),
    .perform (.addSymbol ⟨0⟩ ⟨6⟩),
    .perform (.createFunction ⟨18⟩ .function), .perform (.addParameterType ⟨8⟩ (.ofSymbol ⟨3⟩)),
    .perform (.addSymbol ⟨0⟩ ⟨8⟩),
    .perform (.createBasic ⟨18⟩ (.ofKind .int)), .perform (.addSymbol ⟨0⟩ ⟨10⟩),
    .perform (.createBasic ⟨17⟩ (.ofKind .int)), .perform (.addSymbol ⟨0⟩ ⟨11⟩)]

/-- In the run each name of the global scope stands for what it should: the class for one entity beside an
object, the functions for two.  Lookups of both names are not ambiguous. -/
theorem redeclared_names_unambiguous : ∃ passed table, Declaring True passed table ∧
    table.members ⟨0⟩ ⟨17⟩ = [⟨2⟩, ⟨3⟩, ⟨11⟩] ∧ table.members ⟨0⟩ ⟨18⟩ = [⟨4⟩, ⟨6⟩, ⟨8⟩] ∧
    table.canonical ⟨2⟩ = table.canonical ⟨3⟩ ∧ table.canonical ⟨4⟩ = table.canonical ⟨6⟩ ∧
    table.canonical ⟨4⟩ ≠ table.canonical ⟨8⟩ ∧
    ∀ name ∈ [(⟨17⟩ : Name), ⟨18⟩], ∀ clash after,
      Analysis.lookup ⟨0⟩ name { qualified := true, ignoreDirectives := true } table ≠
        .error (.error (.ambiguous clash)) after := by
  have hdeclares : (Table.new {}).declares True [] redeclared = true := by decide +kernel
  have hrun := Declaring.ran (.new {}) hdeclares
  have hclass : (⟨17⟩ : Name).isEmpty = false := rfl
  have hfunction : (⟨18⟩ : Name).isEmpty = false := rfl
  refine ⟨_, _, hrun, by decide +kernel, by decide +kernel, ?tags, ?functions, by decide +kernel, ?lookup⟩
  case tags =>
    have htags := (declared_names_unambiguous hrun ⟨0⟩ hclass).1 ⟨2⟩ (by decide +kernel) ⟨3⟩
      (by decide +kernel)
    exact htags.1 (by decide +kernel) (by decide +kernel)
  case functions =>
    have hfunctions := (declared_names_unambiguous hrun ⟨0⟩ hfunction).1 ⟨4⟩ (by decide +kernel) ⟨6⟩
      (by decide +kernel)
    exact hfunctions.2.2.2 trivial (by decide +kernel) (by decide +kernel) (by decide +kernel)
      (by decide +kernel) (by decide +kernel)
  case lookup =>
    have hglobal : (((Table.new {}).ran redeclared).symbol
        (((Table.new {}).ran redeclared).resolveNamespace ⟨0⟩)).parameters = [] := by
      decide +kernel
    have hsize : 0 < ((Table.new {}).ran redeclared).size := by decide +kernel
    intro name member
    have hnamed : name.isEmpty = false := by
      rcases List.mem_pair.mp member with rfl | rfl <;> rfl
    refine (declared_names_unambiguous hrun ⟨0⟩ hnamed).2
      { qualified := true, ignoreDirectives := true } hsize rfl rfl rfl (.of_none rfl) ?_
    rw [hglobal]
    exact fun parameter inside => absurd inside List.not_mem_nil

/-! ## What the conditions exclude -/

/-- The lookup of the name in its scope is ambiguous: qualified, and without using-directives. -/
def Table.isAmbiguousIn (table : Table) (scope : SymbolId) (name : Name) : Bool :=
  match Analysis.lookup scope name { qualified := true, ignoreDirectives := true } table with
  | .error (.error (.ambiguous _)) _ => true
  | _ => false

/-- Two functions of the global scope that are not one entity, though they have one name, are no
templates and have the same parameters. -/
def Table.isSplit (table : Table) (name : Name) (a b : SymbolId) : Bool :=
  [a, b].all (fun x => decide (x ∈ table.members ⟨0⟩ name) && table.declClass x == .function &&
    !(table.symbol x).isTemplate) &&
  table.hasSameParameters a b && table.canonical a != table.canonical b

/-- Two classes without a name. -/
def unnamedTwice : List Action :=
  [.perform (.createClass ⟨0⟩ .cls), .perform (.addSymbol ⟨0⟩ ⟨1⟩),
    .perform (.createClass ⟨0⟩ .cls), .perform (.addSymbol ⟨0⟩ ⟨2⟩)]

/-- A declaration in a function that has the name of a parameter. -/
def namedLikeParameter : List Action :=
  [.perform (.createFunction ⟨18⟩ .function), .perform (.createBasic ⟨20⟩ (.ofKind .int)),
    .perform (.addParameter ⟨1⟩ ⟨2⟩), .perform (.addSymbol ⟨0⟩ ⟨1⟩),
    .perform (.createBasic ⟨20⟩ (.ofKind .int)), .perform (.addSymbol ⟨1⟩ ⟨3⟩)]

/-- Two functions with one parameter each, of the given types. -/
def overloaded (a b : SymbolId) (first second : Descriptor) : List Action :=
  [.perform (.createFunction ⟨18⟩ .function), .perform (.addParameterType a first),
    .perform (.addSymbol ⟨0⟩ a), .perform (.createFunction ⟨18⟩ .function),
    .perform (.addParameterType b second), .perform (.addSymbol ⟨0⟩ b)]

/-- The first declaration, of the given specifiers, names the type of a parameter; the last one is a
typedef that completes it. -/
def completedByTypedef (specifiers : Specifiers) (kind : BaseKind) (type : Descriptor) :
    List Action :=
  [.perform (.createBasic ⟨20⟩ { kind, flags := { specifiers } }), .perform (.addSymbol ⟨0⟩ ⟨1⟩)] ++
    overloaded ⟨2⟩ ⟨4⟩ (.ofSymbol ⟨1⟩) type ++
    [.perform (.createBasic ⟨20⟩ { type with flags := { specifiers := { isTypedef := true } } }),
      .perform (.addSymbol ⟨0⟩ ⟨6⟩)]

/-- Two typedefs of forward declarations of a class, which are added last. -/
def typedefsFirst : List Action :=
  let forward : Flags := { specifiers := { isForward := true } }
  let named (id : SymbolId) : Descriptor :=
    { Descriptor.ofSymbol id with flags := { specifiers := { isTypedef := true } } }
  [.perform (.createClass ⟨17⟩ .cls), .addFlags ⟨1⟩ forward,
    .perform (.createClass ⟨17⟩ .cls), .addFlags ⟨2⟩ forward,
    .perform (.createBasic ⟨19⟩ (named ⟨1⟩)), .perform (.addSymbol ⟨0⟩ ⟨3⟩),
    .perform (.createBasic ⟨20⟩ (named ⟨2⟩)), .perform (.addSymbol ⟨0⟩ ⟨4⟩)] ++
    overloaded ⟨5⟩ ⟨7⟩ (.ofSymbol ⟨3⟩) (.ofSymbol ⟨4⟩) ++
    [.perform (.addSymbol ⟨0⟩ ⟨1⟩), .perform (.addSymbol ⟨0⟩ ⟨2⟩)]

/-- None of the conditions can be left out.  Classes without a name are not checked against each other; a
parameter may have the name of a declaration in its function; and functions turn out to have the same
parameters if a typedef completes an extern object or a forward typedef, or if it names classes that
are added, and found to be one class, later on. -/
theorem declared_names_not_always_unambiguous :
    (∃ passed table, Declaring False passed table ∧ table.members ⟨0⟩ ⟨0⟩ = [⟨1⟩, ⟨2⟩] ∧
      table.declClass ⟨1⟩ = .tag ∧ table.declClass ⟨2⟩ = .tag ∧
      table.canonical ⟨1⟩ ≠ table.canonical ⟨2⟩ ∧ table.isAmbiguousIn ⟨0⟩ ⟨0⟩ = true) ∧
    (∃ passed table, Declaring False passed table ∧ table.isAmbiguousIn ⟨1⟩ ⟨20⟩ = true) ∧
    (∃ passed table, Declaring False passed table ∧ table.isSplit ⟨18⟩ ⟨2⟩ ⟨4⟩ = true ∧
      (table.symbol ⟨1⟩).type.flags.specifiers.isExtern = true) ∧
    (∃ passed table, Declaring False passed table ∧ table.isSplit ⟨18⟩ ⟨2⟩ ⟨4⟩ = true ∧
      (table.symbol ⟨1⟩).type.isTypedef = true) ∧
    ∃ passed table, Declaring False passed table ∧ table.isSplit ⟨18⟩ ⟨5⟩ ⟨7⟩ = true := by
  have hran : ∀ actions, (Table.new {}).declares False [] actions = true →
      Declaring False ([] ++ actions.flatMap Action.passes) ((Table.new {}).ran actions) :=
    fun _ declares => Declaring.ran (.new {}) declares
  have hunnamed := hran unnamedTwice (by decide +kernel)
  have hparameter := hran namedLikeParameter (by decide +kernel)
  have hextern := hran (completedByTypedef { isExtern := true } .int (.ofKind .int)) (by decide +kernel)
  have hforward := hran (completedByTypedef { isTypedef := true, isForward := true } .function
    (Descriptor.ofKind .function).pointer.pointer) (by decide +kernel)
  have hlater := hran typedefsFirst (by decide +kernel)
  exact ⟨⟨_, _, hunnamed, by decide +kernel⟩, ⟨_, _, hparameter, by decide +kernel⟩,
    ⟨_, _, hextern, by decide +kernel⟩, ⟨_, _, hforward, by decide +kernel⟩,
    ⟨_, _, hlater, by decide +kernel⟩⟩

end NameBinding
