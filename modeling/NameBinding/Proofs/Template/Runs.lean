import NameBinding.Proofs.Analysis.Tracks
import NameBinding.Proofs.Table.Changes

/-!
# Instantiations that succeed

What the steps of an instantiation did if they succeeded: which arguments they resolved and completed, where
they found the instance, and how they made it.  Each statement is an equivalence or an equation, so that it
takes a run apart and also puts one together.

* `Resolution`: how a type was resolved.
* `completeFrom_given`, `completeFrom_omitted`: the next argument of a list.
* `completedArguments`: the arguments that the instance is looked up with.
* `ConcreteRun` and `instantiateStep_eq_ok`: where the instance came from.
-/

namespace NameBinding.Analysis

section Sequence

variable {α β : Type} {table after : Table}

/-- Two steps in sequence succeed if the first one does, and the second one from there. -/
theorem bind_eq_ok {step : Analysis α} {next : α → Analysis β} {value : β} :
    (step >>= next) table = .ok value after ↔
      ∃ first middle, step table = .ok first middle ∧ next first middle = .ok value after := by
  cases hstep : step table with
  | ok first middle => simp [bind_ok hstep, and_assoc]
  | error interrupt middle => simp [bind_error hstep]

/-- A step that is taken for the elements of a list gives one value for each of them. -/
theorem mapM_values {step : α → Analysis β} {list : List α} {values : List β}
    (ends : list.mapM step table = .ok values after) :
    values.length = list.length ∧ ∀ y ∈ values, ∃ x ∈ list, ∃ before last, step x before = .ok y last := by
  induction list generalizing table values with
  | nil =>
      cases ends
      simp
  | cons x rest ih =>
      rw [List.mapM_cons] at ends
      obtain ⟨y, middle, hfirst, ends⟩ := bind_eq_ok.mp ends
      obtain ⟨others, reached, hrest, ends⟩ := bind_eq_ok.mp ends
      cases ends
      obtain ⟨hlength, hothers⟩ := ih hrest
      refine ⟨congrArg (· + 1) hlength, List.forall_mem_cons.mpr ⟨⟨x, .head _, table, middle, hfirst⟩, ?_⟩⟩
      intro value member
      obtain ⟨element, hmember, hvalue⟩ := hothers value member
      exact ⟨element, .tail _ hmember, hvalue⟩

/-- A step that only passes on a result succeeds if there is one, and changes nothing. -/
theorem ofExcept_eq_ok {outcome : Except SemanticError α} {value : α} :
    (ofExcept outcome : Analysis α) table = .ok value after ↔ outcome = .ok value ∧ table = after := by
  cases outcome with
  | ok found =>
      constructor
      · intro ends
        cases ends
        exact ⟨rfl, rfl⟩
      · rintro ⟨same, rfl⟩
        cases same
        rfl
  | error error =>
      constructor
      · intro ends
        cases ends
      · rintro ⟨same, -⟩
        cases same

end Sequence

variable {inst copy : Instantiator} {depth : Nat} {type resolved : Descriptor} {template made : SymbolId}
  {args completed : List Descriptor} {table after : Table}

/-! ## Types -/

/-- Do the arguments make an instance of what the link names? -/
def MakesInstance (table : Table) (link : SymbolId) (args : List Descriptor) : Prop :=
  (table.symbol (table.canonical link)).isTemplate = true ∧ table.anyDependent args = false

/-- How `type` was resolved in `table`, with `depth` levels of template-ids inside it: it is no template-id;
it makes an instance, which takes its place; or only its arguments are resolved. -/
inductive Resolution (inst : Instantiator) (depth : Nat) (type : Descriptor) (table : Table) :
    Descriptor → Table → Prop where
  | plain (noArgs : (table.flattenType type).templateArgs = []) :
      Resolution inst depth type table (table.flattenType type) table
  | made {args : List Descriptor} {middle after : Table} {link made : SymbolId}
      (uses : (table.flattenType type).templateArgs ≠ [])
      (resolves : (table.flattenType type).templateArgs.mapM (resolveTemplateIds inst depth) table =
        .ok args middle)
      (linked : (table.flattenType type).link = some link) (makes : MakesInstance middle link args)
      (ends : inst link args middle = .ok made after) :
      Resolution inst depth type table
        { table.flattenType type with link := some made, templateArgs := [] } after
  | kept {args : List Descriptor} {middle : Table}
      (uses : (table.flattenType type).templateArgs ≠ [])
      (resolves : (table.flattenType type).templateArgs.mapM (resolveTemplateIds inst depth) table =
        .ok args middle)
      (keeps : ∀ link, (table.flattenType type).link = some link → ¬ MakesInstance middle link args) :
      Resolution inst depth type table { table.flattenType type with templateArgs := args } middle

/-- What becomes of a template-id whose arguments are resolved. -/
def finishTemplateId (inst : Instantiator) (flat : Descriptor) (args : List Descriptor) :
    Analysis Descriptor := do
  let table ← get
  match flat.link with
  | none => pure { flat with templateArgs := args }
  | some link =>
      if (table.symbol (table.canonical link)).isTemplate && !table.anyDependent args then do
        let made ← inst link args
        pure { flat with link := some made, templateArgs := [] }
      else pure { flat with templateArgs := args }

theorem resolveTemplateIds_apply (inst : Instantiator) (depth : Nat) (type : Descriptor)
    (table : Table) :
    resolveTemplateIds inst (depth + 1) type table =
      (if (table.flattenType type).templateArgs.isEmpty then pure (table.flattenType type)
      else do
        let args ← (table.flattenType type).templateArgs.mapM (resolveTemplateIds inst depth)
        finishTemplateId inst (table.flattenType type) args : Analysis Descriptor) table :=
  rfl

theorem finishTemplateId_made {flat : Descriptor} {link : SymbolId} (linked : flat.link = some link)
    (makes : MakesInstance table link args) :
    finishTemplateId inst flat args table =
      (do
        let made ← inst link args
        pure { flat with link := some made, templateArgs := [] } : Analysis Descriptor) table := by
  show (match flat.link with | none => _ | some link => _ : Analysis Descriptor) table = _
  simp only [linked, makes.1, makes.2, Bool.not_false, Bool.and_self, if_true]

theorem finishTemplateId_kept {flat : Descriptor}
    (keeps : ∀ link, flat.link = some link → ¬ MakesInstance table link args) :
    finishTemplateId inst flat args table = .ok { flat with templateArgs := args } table := by
  show (match flat.link with | none => _ | some link => _ : Analysis Descriptor) table = _
  cases hlink : flat.link with
  | none => rfl
  | some link =>
      have hkept := keeps link hlink
      simp only [MakesInstance, not_and, Bool.not_eq_false] at hkept
      dsimp only
      rw [if_neg]
      · rfl
      · simpa using hkept

theorem resolveTemplateIds_eq_ok :
    resolveTemplateIds inst (depth + 1) type table = .ok resolved after ↔
      Resolution inst depth type table resolved after := by
  rw [resolveTemplateIds_apply]
  constructor
  · intro ends
    split at ends
    · rename_i noArgs
      cases ends
      exact .plain (List.isEmpty_iff.mp noArgs)
    · rename_i uses
      rw [List.isEmpty_iff] at uses
      obtain ⟨args, middle, resolves, ends⟩ := bind_eq_ok.mp ends
      by_cases hmakes : ∃ link, (table.flattenType type).link = some link ∧
          MakesInstance middle link args
      · obtain ⟨link, linked, makes⟩ := hmakes
        rw [finishTemplateId_made linked makes] at ends
        obtain ⟨made, reached, hmade, ends⟩ := bind_eq_ok.mp ends
        cases ends
        exact .made uses resolves linked makes hmade
      · have keeps : ∀ link, (table.flattenType type).link = some link →
            ¬ MakesInstance middle link args := fun link linked makes => hmakes ⟨link, linked, makes⟩
        rw [finishTemplateId_kept keeps] at ends
        cases ends
        exact .kept uses resolves keeps
  · intro run
    cases run with
    | plain noArgs => rw [if_pos (List.isEmpty_iff.mpr noArgs)]; rfl
    | made uses resolves linked makes ends =>
        rw [if_neg (mt List.isEmpty_iff.mp uses), bind_ok resolves, finishTemplateId_made linked makes,
          bind_ok ends]
        rfl
    | kept uses resolves keeps =>
        rw [if_neg (mt List.isEmpty_iff.mp uses), bind_ok resolves, finishTemplateId_kept keeps]

/-! ## Arguments -/

section Arguments

variable {resolve : Descriptor → Analysis Descriptor} {name : Name} {position : Nat}
  {parameter : SymbolId} {parameters : List SymbolId} {bindings : Bindings} {arg value : Descriptor}

/-- The rest of a list of arguments is completed after `arg` was found for the parameter. -/
def completeAfter (resolve : Descriptor → Analysis Descriptor) (name : Name) (position : Nat)
    (parameter : SymbolId) (parameters : List SymbolId) (args : List Descriptor) (bindings : Bindings)
    (arg : Descriptor) : Analysis (List Descriptor) := do
  let completed ← completeFrom resolve name (position + 1) parameters args
    ((parameter, arg.stripDefault) :: bindings)
  pure (arg.stripDefault :: completed)

theorem completeFrom_given :
    completeFrom resolve name position (parameter :: parameters) (arg :: args) bindings table =
      completeAfter resolve name position parameter parameters args bindings arg table :=
  rfl

theorem completeFrom_omitted (default : (table.symbol parameter).type.defaultValue = some value) :
    completeFrom resolve name position (parameter :: parameters) [] bindings table =
      (resolve (table.substituteParameters bindings table.config.nestingLimit value) >>=
        completeAfter resolve name position parameter parameters [] bindings) table := by
  rw [completeFrom, get_bind]
  simp only [List.head?_nil, default]
  rfl

theorem completeFrom_missing (missing : (table.symbol parameter).type.defaultValue = none) :
    completeFrom resolve name position (parameter :: parameters) [] bindings table =
      .error (.error (.badTemplateArgument name position)) table := by
  rw [completeFrom, get_bind]
  simp only [List.head?_nil, missing]
  rfl

theorem completeArguments_eq_ok :
    completeArguments resolve template args table = .ok completed after ↔
      args.length ≤ (table.symbol template).parameters.length ∧
        completeFrom resolve (table.symbol template).name 0 (table.symbol template).parameters args []
          table = .ok completed after := by
  show (if _ then _ else _ : Analysis (List Descriptor)) table = .ok completed after ↔ _
  split
  · rename_i more
    constructor
    · intro ends
      cases ends
    · rintro ⟨enough, -⟩
      exact absurd enough (Nat.not_le.mpr more)
  · rename_i enough
    simp only [Nat.not_lt.mp enough, true_and]

end Arguments

/-- The arguments that the instance is looked up with: the resolved arguments, followed by the resolved
defaults. -/
def completedArguments (inst : Instantiator) (depth : Nat) (template : SymbolId)
    (args : List Descriptor) : Analysis (List Descriptor) := do
  let table ← get
  let resolved ← args.mapM (resolveTemplateIds inst depth)
  completeArguments (resolveTemplateIds inst depth) (table.canonical template) resolved

theorem completedArguments_eq_ok :
    completedArguments inst depth template args table = .ok completed after ↔
      ∃ resolved middle, args.mapM (resolveTemplateIds inst depth) table = .ok resolved middle ∧
        completeArguments (resolveTemplateIds inst depth) (table.canonical template) resolved middle =
          .ok completed after := by
  rw [completedArguments, get_bind]
  exact bind_eq_ok

/-! ## Instances -/

/-- The placeholder for dependent arguments. -/
def placeholderFor (template : SymbolId) (args : List Descriptor) (symbol : Symbol) : Symbol where
  name := symbol.name
  scope := symbol.scope
  type := .templateId template args
  inTemplate := true
  payload := .placeholder { template, args }

theorem deferredInstance_known {entry : Instance}
    (known : (table.symbol template).placeholders.find? (fun entry =>
      Descriptor.sameAll entry.args args) = some entry) :
    deferredInstance template args table = .ok entry.symbol table := by
  unfold Symbol.placeholders at known
  rw [deferredInstance, get_bind]
  simp only [known]
  rfl

theorem deferredInstance_made
    (new : (table.symbol template).placeholders.find? (fun entry =>
      Descriptor.sameAll entry.args args) = none) :
    deferredInstance template args table =
      .ok ⟨table.size⟩ ((table.allocate (placeholderFor template args (table.symbol template))).2.perform
        template (.append (.placeholder ⟨args, ⟨table.size⟩⟩))) := by
  unfold Symbol.placeholders at new
  rw [deferredInstance, get_bind]
  simp only [new]
  rfl

/-- How the instance for complete arguments was found or made: it was known; it is the instance of a partial
specialization; or it is a copy. -/
inductive ConcreteRun (inst copy : Instantiator) (template : SymbolId) (args : List Descriptor)
    (table : Table) : SymbolId → Table → Prop where
  | known {made : SymbolId} (known : table.existingInstance? template args = some made) :
      ConcreteRun inst copy template args table made table
  | specialized {specialization made : SymbolId} {deduced : List Descriptor} {middle : Table}
      (absent : table.existingInstance? template args = none)
      (selects : table.selectSpecialization template args = .ok (some (specialization, deduced)))
      (ends : inst specialization deduced table = .ok made middle) :
      ConcreteRun inst copy template args table made
        ((middle.perform template (.append (.cached ⟨args, made⟩))).perform made
          (.assign (.origin (some ⟨template, args⟩))))
  | copied {made : SymbolId} {after : Table} (absent : table.existingInstance? template args = none)
      (ends : copy template args table = .ok made after) :
      ConcreteRun inst copy template args table made after

theorem concreteInstance_known (known : table.existingInstance? template args = some made) :
    concreteInstance inst copy template args table = .ok made table := by
  rw [concreteInstance, get_bind]
  simp only [known]
  rfl

/-- An instance that is not remembered, and of no partial specialization, is copied. -/
theorem concreteInstance_copied (unknown : table.existingInstance? template args = none)
    (unspecialized : (table.symbol template).specializations = []) :
    concreteInstance inst copy template args table = copy template args table := by
  have hnone : table.selectSpecialization template args = .ok none := by
    unfold Symbol.specializations at unspecialized
    simp only [Table.selectSpecialization, unspecialized, List.filterMap_nil]
  rw [concreteInstance, get_bind]
  simp only [unknown, hnone]
  rfl

theorem ConcreteRun.of_ok (ends : concreteInstance inst copy template args table = .ok made after) :
    ConcreteRun inst copy template args table made after := by
  cases hknown : table.existingInstance? template args with
  | some known =>
      rw [concreteInstance_known hknown] at ends
      cases ends
      exact .known hknown
  | none =>
      rw [concreteInstance, get_bind] at ends
      simp only [hknown] at ends
      obtain ⟨selected, middle, hselected, ends⟩ := bind_eq_ok.mp ends
      cases hselects : table.selectSpecialization template args with
      | error error =>
          rw [hselects] at hselected
          cases hselected
      | ok found =>
          rw [hselects] at hselected
          cases hselected
          cases selected with
          | none => exact .copied hknown ends
          | some chosen =>
              obtain ⟨made, reached, hmade, ends⟩ := bind_eq_ok.mp ends
              cases ends
              exact .specialized hknown hselects hmade

/-- The instance for completed arguments, which may be dependent; `symbol` is the template as it was before
they were completed. -/
def instanceFor (inst copy : Instantiator) (symbol : Symbol) (template : SymbolId)
    (args : List Descriptor) : Analysis SymbolId := do
  let table ← get
  if symbol.isTemplateParameter || table.anyDependent args then deferredInstance template args
  else
    match firstMismatch? table (table.symbol template).parameters args with
    | some position => fail (.badTemplateArgument symbol.name position)
    | none => concreteInstance inst copy template args

section InstanceFor

variable {symbol : Symbol}

theorem instanceFor_deferred
    (dependent : (symbol.isTemplateParameter || table.anyDependent args) = true) :
    instanceFor inst copy symbol template args table = deferredInstance template args table := by
  rw [instanceFor, get_bind, if_pos dependent]

variable (concrete : (symbol.isTemplateParameter || table.anyDependent args) = false)

include concrete

theorem instanceFor_fits
    (fits : firstMismatch? table (table.symbol template).parameters args = none) :
    instanceFor inst copy symbol template args table = concreteInstance inst copy template args table := by
  rw [instanceFor, get_bind, concrete]
  simp only [Bool.false_eq_true, if_false, fits]

/-- Arguments that do not fit their parameters have no instance. -/
theorem fits_of_instanceFor_ok
    (ends : instanceFor inst copy symbol template args table = .ok made after) :
    firstMismatch? table (table.symbol template).parameters args = none := by
  rw [instanceFor, get_bind, concrete] at ends
  simp only [Bool.false_eq_true, if_false] at ends
  cases hmismatch : firstMismatch? table (table.symbol template).parameters args with
  | none => rfl
  | some position =>
      rw [hmismatch] at ends
      cases ends

end InstanceFor

/-- An instantiation that succeeds completes the arguments of a template, and finds or makes the instance
for them. -/
theorem instantiateStep_eq_ok :
    instantiateStep inst copy depth template args table = .ok made after ↔
      (table.symbol (table.canonical template)).isTemplate = true ∧ args.all (·.isValid) = true ∧
        ∃ completed middle, completedArguments inst depth template args table = .ok completed middle ∧
          instanceFor inst copy (table.symbol (table.canonical template)) (table.canonical template)
            completed middle = .ok made after := by
  rw [instantiateStep, get_bind]
  dsimp only
  split
  · rename_i invalid
    constructor
    · intro ends
      cases ends
    · rintro ⟨isTemplate, valid, -⟩
      simp [isTemplate, valid] at invalid
  · rename_i valid
    simp only [Bool.or_eq_true, not_or, Bool.not_eq_true', Bool.not_eq_false] at valid
    simp only [valid.1, valid.2, true_and]
    constructor
    · intro ends
      obtain ⟨resolved, middle, hresolved, ends⟩ := bind_eq_ok.mp ends
      obtain ⟨completed, reached, hcompleted, ends⟩ := bind_eq_ok.mp ends
      exact ⟨completed, reached,
        completedArguments_eq_ok.mpr ⟨resolved, middle, hresolved, hcompleted⟩, ends⟩
    · rintro ⟨completed, reached, hcompleted, ends⟩
      obtain ⟨resolved, middle, hresolved, hcompleted⟩ := completedArguments_eq_ok.mp hcompleted
      exact bind_eq_ok.mpr ⟨resolved, middle, hresolved,
        bind_eq_ok.mpr ⟨completed, reached, hcompleted, ends⟩⟩

end NameBinding.Analysis
