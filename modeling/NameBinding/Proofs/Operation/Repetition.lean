import NameBinding.Proofs.Operation.Acyclic
import NameBinding.Proofs.Overload.Assessments
import NameBinding.Proofs.Template.Completed

/-!
# Asking for an instance again

A caller who only asks (looks names up, resolves calls, compares types, instantiates) lets the table grow.  So
whatever was instantiated before is found again.

* `Asked`: what a caller makes of a table who only asks.
* `completedFor`: the arguments that an instance is looked up with.

The main statement is `instantiate_again`: as long as no template remembers two instances for one tuple of
arguments and chains of typedefs end, the same arguments give the same instance and nothing happens, whatever
was asked in between.  So do the completed arguments if no typedef stands in them.
The example below it shows why: an instance of an alias template is a typedef.
-/

namespace NameBinding

/-- What a caller makes of a table who asks questions, each of which may succeed or fail. -/
inductive Asked : Table → Table → Prop where
  | refl (table : Table) : Asked table table
  | ask {table after next : Table} (asked : Asked table after) (question : Operation)
      (asks : question.IsQuestion) (refers : Within after.size question.mentions)
      (ends : (Action.perform question).after after = some next) : Asked table next

/-- Asking links nothing and so redirects nothing. -/
theorem Operation.IsQuestion.not_redirects {question : Operation} (asks : question.IsQuestion) :
    ¬ question.Redirects := by
  cases question with
  | setForwardTarget | addSymbol | addNamespaceAlias | addExplicitSpecialization => exact asks.elim
  | _ => exact fun redirects => redirects.elim

namespace Asked

variable {table last : Table}

theorem advances (asked : Asked table last) (calm : table.Calm) : table.Advances last := by
  induction asked with
  | refl => exact ⟨.refl _, calm⟩
  | @ask after next _ question asks refers ends ih =>
      have hcalm := ih.calm
      have hsound : Regime.declaring.Sound after := hcalm.soundFor rfl rfl
      have hmoved := Analysis.moved_after (Analysis.moves_carryOut asks.not_redirects hsound refers) ends
      have hinst : Analysis.InstantiationKeeps (Growth after) := Growth.instantiationKeeps
      have hkeeps := Analysis.keeps_question hinst Growth.keeps_intern asks
      have hgrowth := Action.keeps_after ends hkeeps ⟨hcalm.idle, .refl after⟩
      exact ih.trans ⟨hgrowth.grows, hcalm.moved hmoved⟩

end Asked

/-- In every table that a caller reaches without closing a circle of links, questions can be asked. -/
theorem Reached.calm {table : Table} (joined : Reached Action.Joins table) : table.Calm where
  idle := joined.linksEnd_sheltered.settled.idle
  represented := joined.linksEnd_sheltered.holds.1
  linksEnd := joined.linksEnd_sheltered.holds.2

namespace Analysis

/-- The arguments that `instantiate` looks an instance up with: those that are given, followed by the defaults
of the other parameters, all of them resolved. -/
def completedFor (template : SymbolId) (args : List Descriptor) : Analysis (List Descriptor) := do
  let table ← get
  completedArguments (instantiateWithin (table.config.nestingLimit - 1)) (table.config.nestingLimit - 1)
    template args

/-- The same arguments give the same instance.  Let an instantiation succeed, after which no template remembers
two instances for one tuple of arguments and chains of typedefs end.  Then, whatever is asked in between, it
succeeds with the same instance for all arguments that are the same without their default values, and nothing
changes.  The completed arguments exist; if they are valid and no typedef stands in them, they give the same
instance, too. -/
theorem instantiate_again (table : Table) (calm : table.Calm) (template : SymbolId) (args : List Descriptor)
    (below : ∀ arg ∈ args, arg.Below table.size) (made : SymbolId) (after : Table)
    (ends : instantiate template args table = .ok made after) (each : after.OneInstanceEach)
    (typedefs : after.TypedefsEnd) (last : Table) (asked : Asked after last) :
    (∀ others, Descriptor.sameAll others args = true → instantiate template others last = .ok made last) ∧
      ∃ completed middle, completedFor template args table = .ok completed middle ∧
        (completed.all (·.isValid) = true → (∀ arg ∈ completed, after.Flat arg) →
          instantiate template completed last = .ok made last) := by
  have hrun : instantiateWithin table.config.nestingLimit template args table = .ok made after := ends
  obtain ⟨hafter, -⟩ := (recalls_instantiateWithin last table.config.nestingLimit).advances calm below hrun
  have hforetells : after.Foretells last := ⟨(asked.advances hafter.calm).grows, each, typedefs⟩
  have hlimit : last.config.nestingLimit = table.config.nestingLimit := by
    rw [(hafter.grows.trans hforetells.grows).config]
  constructor
  · intro others same
    rw [instantiate, get_bind, hlimit]
    exact (recalls_instantiateWithin last table.config.nestingLimit).again calm below
      ((Descriptor.sameAll_iff others args).mp same) hrun hforetells
  · cases hdepth : table.config.nestingLimit with
    | zero =>
        rw [hdepth] at hrun
        cases hrun
    | succ depth =>
        rw [hdepth] at hrun hlimit
        obtain ⟨completed, middle, hcompleted, hagain⟩ :=
          instantiateStep_completed (recalls_instantiateWithin last depth)
            (remembersCopies_instantiateUncached depth) calm below hrun hforetells
        refine ⟨completed, middle, ?_, fun valid flat => ?_⟩
        · rw [completedFor, get_bind, hdepth]
          exact hcompleted
        · rw [instantiate, get_bind, hlimit]
          exact hagain valid flat

/-! ## Runs -/

/-- Does the run succeed with a value that passes the test? -/
def endsPassing {α : Type} (test : α → Bool) : EStateM.Result Interrupt Table α → Bool
  | .ok value _ => test value
  | .error _ _ => false

theorem exists_of_endsPassing {α : Type} {step : Analysis α} {table : Table} {test : α → Bool}
    (passes : endsPassing test (step table) = true) :
    ∃ value after, step table = .ok value after ∧ test value = true := by
  cases hstep : step table with
  | ok value after =>
      rw [hstep] at passes
      exact ⟨value, after, rfl, passes⟩
  | error interrupt after =>
      rw [hstep] at passes
      cases passes

end Analysis

open Analysis

instance {question : Operation} : Decidable question.IsQuestion := by
  apply Operation.casesOn (motive := fun question => Decidable question.IsQuestion) question <;>
    (intros; dsimp only [Operation.IsQuestion]; infer_instance)

/-- Asking one question after the other, none of which ends with a fault. -/
theorem Asked.ran {table after : Table} (asked : Asked table after) (questions : List Operation)
    (asks : ∀ question ∈ questions, question.IsQuestion)
    (permits : after.permits Action.Refers (questions.map .perform) = true) :
    Asked table (after.ran (questions.map .perform)) := by
  induction questions generalizing after with
  | nil => exact asked
  | cons question rest ih =>
      simp only [List.map_cons, Table.permits, Bool.and_eq_true, decide_eq_true_eq] at permits
      rw [List.map_cons, Table.ran]
      cases hafter : (Action.perform question).after after with
      | none => simp [hafter] at permits
      | some next =>
          simp only [hafter] at permits
          exact ih (asked.ask question (asks question List.mem_cons_self) permits.1 hafter)
            (fun other member => asks other (List.mem_cons_of_mem question member)) permits.2

/-- A typedef of the type. -/
def Descriptor.asTypedef (type : Descriptor) : Descriptor :=
  type.withFlags { specifiers := { isTypedef := true } }

/-- Declare a template with one parameter, which is the symbol behind it, and what comes next in it. -/
def declareTemplate (template : Nat) (name : Name) (content : Operation) : List Action :=
  [.perform (.createTemplate name), .perform (.createTemplateParameter ⟨18⟩ .typeName),
    .perform (.addTemplateParameter ⟨template⟩ ⟨template + 1⟩), .perform content,
    .perform (.addSymbol ⟨template⟩ ⟨template + 2⟩)]

/-- Declare a partial specialization of a class template.  Its parameter is the symbol before it. -/
def declareSpecialization (specialization : Nat) (primary : SymbolId) (name : Name)
    (pattern : Descriptor) : List Action :=
  [.perform (.createTemplateParameter ⟨18⟩ .typeName), .perform (.createSpecialization name [pattern]),
    .perform (.addTemplateParameter ⟨specialization⟩ ⟨specialization - 1⟩),
    .perform (.createClass name .struct), .perform (.addSymbol ⟨specialization⟩ ⟨specialization + 1⟩),
    .perform (.addTemplateSpecialization primary ⟨specialization⟩)]

/-- A class template `U<A>`, and an alias template `X<T>` that stands for `T *`. -/
def aliasTemplate : List Action :=
  declareTemplate 1 ⟨17⟩ (.createClass ⟨17⟩ .struct) ++
    declareTemplate 4 ⟨19⟩ (.createBasic ⟨19⟩ (Descriptor.ofSymbol ⟨5⟩).pointer.asTypedef)

/-- The table in which `U<X<int>>` is instantiated. -/
@[irreducible]
def aliasTable : Table := (Table.new { nestingLimit := 8 }).ran aliasTemplate

/-- The completed argument of `U<X<int>>` is the instance of `X`, a typedef.  Given as the argument of `U`, it is
seen through, and so there comes another instance. -/
example : ending (instantiate ⟨1⟩ [.templateId ⟨4⟩ [.ofKind .int]] aliasTable) = .ok ⟨8⟩ ∧
    endsPassing (fun completed => endsPassing (· != ⟨8⟩) (instantiate ⟨1⟩ completed
        (finalTable aliasTable (instantiate ⟨1⟩ [.templateId ⟨4⟩ [.ofKind .int]]))))
      (completedFor ⟨1⟩ [.templateId ⟨4⟩ [.ofKind .int]] aliasTable) = true := by
  decide +kernel

/-- A class template `X<T>` with a partial specialization `X<T *>`, a class template `D<A, B = X<A>>`, and
typedefs `I` of `int *` and `J` of `I`. -/
def defaultedTemplate : List Action :=
  declareTemplate 1 ⟨17⟩ (.createClass ⟨17⟩ .struct) ++
    declareSpecialization 5 ⟨1⟩ ⟨17⟩ (Descriptor.ofSymbol ⟨4⟩).pointer ++
    declareTemplate 7 ⟨19⟩ (.createClass ⟨19⟩ .struct) ++
    [.perform (.createTemplateParameter ⟨20⟩ .typeName),
      .perform (.setType ⟨10⟩
        { Descriptor.ofParameter .typeName with
          defaultValue := some (.templateId ⟨1⟩ [.ofSymbol ⟨8⟩]) }),
      .perform (.addTemplateParameter ⟨7⟩ ⟨10⟩),
      .perform (.createBasic ⟨21⟩ (Descriptor.ofKind .int).pointer.asTypedef),
      .perform (.createBasic ⟨22⟩ (Descriptor.ofSymbol ⟨11⟩).asTypedef)]

/-- `D<char>` makes instances, `D<>` fails, `D` is no function, and `int` is converted to `char`. -/
def furtherQuestions : List Operation :=
  [.instantiate ⟨7⟩ [.ofKind .char], .instantiate ⟨7⟩ [], .resolveFunction [⟨7⟩] none,
    .conversionCost (.ofKind .int) (.ofKind .char) false]

/-- The table in which `D<J>` is instantiated. -/
@[irreducible]
def defaultedTable : Table := (Table.new { nestingLimit := 8 }).ran defaultedTemplate

/-- The table after `D<J>` was instantiated. -/
@[irreducible]
def instantiatedTable : Table := finalTable defaultedTable (instantiate ⟨7⟩ [.ofSymbol ⟨12⟩])

/-- The table after some more questions. -/
@[irreducible]
def questionedTable : Table := instantiatedTable.ran (furtherQuestions.map .perform)

theorem calm_defaultedTable : defaultedTable.Calm := by
  have hreached : Reached Action.Joins ((Table.new { nestingLimit := 8 }).ran defaultedTemplate) :=
    Reached.ran (.new _) (by decide +kernel)
  rw [defaultedTable]
  exact hreached.calm

theorem asked_questionedTable : Asked instantiatedTable questionedTable := by
  rw [questionedTable]
  exact (Asked.refl instantiatedTable).ran furtherQuestions (by decide +kernel) (by decide +kernel)

theorem instantiate_defaultedTable :
    instantiate ⟨7⟩ [.ofSymbol ⟨12⟩] defaultedTable = .ok ⟨14⟩ instantiatedTable := by
  rw [instantiatedTable]
  exact eq_ok_of_ending (by decide +kernel)

/-- Can a list of arguments be given again: are they all valid, and is no typedef among them? -/
def Table.canBeGiven (table : Table) (args : List Descriptor) : Bool :=
  args.all fun arg => arg.isValid && arg.templateArgs.isEmpty && arg.link.all fun link =>
    table.canonical link == link && !(table.symbol link).type.isTypedef

theorem Table.flat_of_canBeGiven {table : Table} {args : List Descriptor}
    (given : table.canBeGiven args = true) :
    args.all (·.isValid) = true ∧ ∀ arg ∈ args, table.Flat arg := by
  simp only [canBeGiven, List.all_eq_true, Bool.and_eq_true] at given
  refine ⟨List.all_eq_true.mpr fun arg member => (given arg member).1.1, fun arg member => ?_⟩
  obtain ⟨⟨-, hargs⟩, hlink⟩ := given arg member
  refine .of_named (fun link linked => ?_) fun inner uses => ?_
  · simpa [linked] using hlink
  · rw [List.isEmpty_iff.mp hargs] at uses
    cases uses

/-- `D<J>` is found again, with `J` given with a default value, and by its completed arguments. -/
theorem defaulted_instance_again :
    defaultedTable.Calm ∧ instantiate ⟨7⟩ [.ofSymbol ⟨12⟩] defaultedTable = .ok ⟨14⟩ instantiatedTable ∧
      instantiatedTable.OneInstanceEach ∧ instantiatedTable.TypedefsEnd ∧
      Asked instantiatedTable questionedTable ∧
      instantiate ⟨7⟩ [(Descriptor.ofSymbol ⟨12⟩).withDefault (.ofKind .int)] questionedTable =
        .ok ⟨14⟩ questionedTable ∧
      ∃ completed middle, completedFor ⟨7⟩ [.ofSymbol ⟨12⟩] defaultedTable = .ok completed middle ∧
        completed.length = 2 ∧ instantiate ⟨7⟩ completed questionedTable = .ok ⟨14⟩ questionedTable := by
  have hlt : 12 < defaultedTable.size := by decide +kernel
  have hbelow : ∀ arg ∈ [Descriptor.ofSymbol ⟨12⟩], arg.Below defaultedTable.size := by
    simpa using Descriptor.Below.ofSymbol hlt
  have heach : instantiatedTable.OneInstanceEach := by decide +kernel
  have htypedefs : instantiatedTable.TypedefsEnd := by decide +kernel
  obtain ⟨hagain, completed, middle, hcompleted, hgiven⟩ :=
    instantiate_again defaultedTable calm_defaultedTable ⟨7⟩ [.ofSymbol ⟨12⟩] hbelow ⟨14⟩ instantiatedTable
      instantiate_defaultedTable heach htypedefs questionedTable asked_questionedTable
  refine ⟨calm_defaultedTable, instantiate_defaultedTable, heach, htypedefs, asked_questionedTable,
    hagain _ (by decide +kernel), completed, middle, hcompleted, ?_⟩
  have hpasses : endsPassing (fun args => args.length == 2 && instantiatedTable.canBeGiven args)
      (completedFor ⟨7⟩ [.ofSymbol ⟨12⟩] defaultedTable) = true := by decide +kernel
  simp only [hcompleted, endsPassing, Bool.and_eq_true, beq_iff_eq] at hpasses
  obtain ⟨hvalid, hflat⟩ := Table.flat_of_canBeGiven hpasses.2
  exact ⟨hpasses.1, hgiven hvalid hflat⟩

end NameBinding
