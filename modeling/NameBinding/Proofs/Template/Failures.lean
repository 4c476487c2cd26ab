import NameBinding.Overload.Resolution
import NameBinding.Proofs.Analysis.Tracks

/-!
# How instantiation fails

An instantiation fails because of the types and arguments it is given, because it does not end, or because
two partial specializations fit equally well.  It never asks about access, inheritance or using-declarations.

* `SemanticError.IsOfTemplates`: the errors of instantiations.
* `Analysis.FailsOnly`: whatever the table is, a step fails with errors of one sort only.

The main statements are `failsOnly_instantiate` and `failsOnly_deducedInstance?`.
-/

namespace NameBinding

/-- The error is about types, template arguments or the choice between templates. -/
def SemanticError.IsOfTemplates : SemanticError → Prop
  | .ambiguous _ | .badTypeInfo _ | .badTemplateArgument _ _ | .recursiveTemplate _ => True
  | _ => False

/-- The choice of a partial specialization fails only if it is ambiguous. -/
theorem Table.selectSpecialization_error {table : Table} {template : SymbolId} {args : List Descriptor}
    {error : SemanticError} (failed : table.selectSpecialization template args = .error error) :
    error = .ambiguous (table.symbol template).name := by
  unfold selectSpecialization at failed
  dsimp only at failed
  split at failed
  · cases failed
  · cases failed
  · split at failed
    · cases failed
    · exact (Except.error.inj failed).symm

namespace Analysis

/-- Whatever the table is, the step fails with an allowed error only. -/
def FailsOnly {α : Type} (allowed : SemanticError → Prop) (step : Analysis α) : Prop :=
  ∀ table error after, step table = .error (.error error) after → allowed error

/-! ## Steps in general -/

namespace FailsOnly

variable {α β : Type} {allowed : SemanticError → Prop} {step : Analysis α}

theorem pure (value : α) : FailsOnly allowed (Pure.pure value) := fun _ _ _ failed => nomatch failed

theorem set (table : Table) : FailsOnly allowed (MonadStateOf.set table : Analysis PUnit) :=
  fun _ _ _ failed => nomatch failed

theorem update (change : Table → Table) : FailsOnly allowed (modify change : Analysis PUnit) :=
  fun _ _ _ failed => nomatch failed

theorem updateGet (change : Table → α × Table) :
    FailsOnly allowed (modifyGet change : Analysis α) := fun _ _ _ failed => nomatch failed

theorem unsupported (operation : Unsupported) :
    FailsOnly allowed (Analysis.unsupported operation : Analysis α) := fun _ _ _ failed => nomatch failed

theorem violated (condition : Invariant) : FailsOnly allowed (Analysis.violated condition : Analysis α) :=
  fun _ _ _ failed => nomatch failed

theorem fail {error : SemanticError} (allows : allowed error) :
    FailsOnly allowed (Analysis.fail error : Analysis α) := by
  intro _ other _ failed
  cases failed
  exact allows

theorem ofExcept {outcome : Except SemanticError α}
    (allows : ∀ error, outcome = .error error → allowed error) :
    FailsOnly allowed (Analysis.ofExcept outcome) := by
  cases outcome with
  | ok value => exact pure value
  | error error => exact fail (allows error rfl)

theorem bind {next : α → Analysis β} (first : FailsOnly allowed step)
    (second : ∀ value, FailsOnly allowed (next value)) : FailsOnly allowed (step >>= next) := by
  intro table error after failed
  cases hstep : step table with
  | ok value between =>
      rw [bind_ok hstep] at failed
      exact second value between error after failed
  | error interrupt between =>
      rw [bind_error hstep] at failed
      cases failed
      exact first table error _ hstep

/-- Going on with the table that is read. -/
theorem read {next : Table → Analysis β} (second : ∀ table, FailsOnly allowed (next table)) :
    FailsOnly allowed (MonadState.get >>= next) :=
  fun table => second table table

/-- An error that was caught is an allowed one. -/
theorem attempt {next : Except SemanticError α → Analysis β} (first : FailsOnly allowed step)
    (ok : ∀ value, FailsOnly allowed (next (.ok value)))
    (error : ∀ error, allowed error → FailsOnly allowed (next (.error error))) :
    FailsOnly allowed (Analysis.attempt step >>= next) := by
  intro table other after failed
  cases hstep : step table with
  | ok value between =>
      have hcaught : Analysis.attempt step table = .ok (.ok value) between := by
        rw [Analysis.attempt, hstep]
      rw [bind_ok hcaught] at failed
      exact ok value between other after failed
  | error interrupt between =>
      cases interrupt with
      | error caught =>
          have hcaught : Analysis.attempt step table = .ok (.error caught) between := by
            rw [Analysis.attempt, hstep]
          rw [bind_ok hcaught] at failed
          exact error caught (first table caught between hstep) between other after failed
      | fault fault =>
          have hcaught : Analysis.attempt step table = .error (.fault fault) between := by
            rw [Analysis.attempt, hstep]
          rw [bind_error hcaught] at failed
          cases failed

theorem forM {list : List α} {step : α → Analysis PUnit}
    (each : ∀ element ∈ list, FailsOnly allowed (step element)) : FailsOnly allowed (list.forM step) := by
  induction list with
  | nil => exact pure _
  | cons first rest ih =>
      exact (each first List.mem_cons_self).bind fun _ =>
        ih fun element member => each element (List.mem_cons_of_mem first member)

theorem mapM {list : List α} {step : α → Analysis β}
    (each : ∀ element ∈ list, FailsOnly allowed (step element)) : FailsOnly allowed (list.mapM step) := by
  induction list with
  | nil => exact pure _
  | cons first rest ih =>
      rw [List.mapM_cons]
      refine (each first List.mem_cons_self).bind fun value => ?_
      exact (ih fun element member => each element (List.mem_cons_of_mem first member)).bind
        fun values => pure _

theorem foldlM {list : List α} {step : β → α → Analysis β}
    (each : ∀ state, ∀ element ∈ list, FailsOnly allowed (step state element)) (start : β) :
    FailsOnly allowed (list.foldlM step start) := by
  induction list generalizing start with
  | nil => exact pure _
  | cons first rest ih =>
      rw [List.foldlM_cons]
      exact (each start first List.mem_cons_self).bind fun next =>
        ih (fun state element member => each state element (List.mem_cons_of_mem first member)) next

end FailsOnly

/-! ## Template-ids and arguments -/

open SemanticError

/-- The step fails for reasons of types and templates only. -/
abbrev FailsOfTemplates {α : Type} (step : Analysis α) : Prop := FailsOnly IsOfTemplates step

section Instances

variable {instantiate : Instantiator}
  (instantiates : ∀ template args, FailsOfTemplates (instantiate template args))

include instantiates

theorem failsOnly_resolveTemplateIds (bound : Nat) (type : Descriptor) :
    FailsOfTemplates (resolveTemplateIds instantiate bound type) := by
  induction bound generalizing type with
  | zero => exact .violated _
  | succ bound ih =>
      refine .read fun table => ?_
      dsimp only
      split
      · exact .pure _
      · refine (FailsOnly.mapM fun arg _ => ih arg).bind fun args => .read fun table => ?_
        split
        · exact .pure _
        · split
          · exact (instantiates _ _).bind fun made => .pure _
          · exact .pure _

omit instantiates in
theorem failsOnly_completeArguments {resolve : Descriptor → Analysis Descriptor}
    (resolves : ∀ type, FailsOfTemplates (resolve type)) (template : SymbolId) (args : List Descriptor) :
    FailsOfTemplates (completeArguments resolve template args) := by
  have hfrom : ∀ (name : Name) (parameters : List SymbolId) position args bindings,
      FailsOfTemplates (completeFrom resolve name position parameters args bindings) := by
    intro name parameters
    induction parameters with
    | nil => exact fun position args bindings => .pure _
    | cons parameter parameters ih =>
        intro position args bindings
        have hrest : ∀ arg : Descriptor, FailsOfTemplates (do
            let completed ← completeFrom resolve name (position + 1) parameters args.tail
              ((parameter, arg) :: bindings)
            Pure.pure (arg :: completed)) := fun arg => (ih _ _ _).bind fun completed => .pure _
        refine .read fun table => ?_
        dsimp only
        split
        · exact hrest _
        · exact (resolves _).bind fun arg => hrest _
        · exact (FailsOnly.fail trivial).bind fun arg => hrest _
  refine .read fun table => ?_
  dsimp only
  split
  · exact .fail trivial
  · exact hfrom _ _ _ _ _

theorem failsOnly_resolveInstance {resolve : Descriptor → Analysis Descriptor}
    (resolves : ∀ type, FailsOfTemplates (resolve type)) (eager : Bool) (template : SymbolId)
    (args : List Descriptor) : FailsOfTemplates (resolveInstance instantiate resolve eager template args) := by
  refine .read fun table => ?_
  split
  · exact (instantiates _ _).bind fun made => .pure _
  · refine (failsOnly_completeArguments resolves _ _).attempt (fun completed => ?_) fun _ _ => .pure _
    exact .read fun table => .pure _

end Instances

theorem failsOnly_deferredInstance (template : SymbolId) (args : List Descriptor) :
    FailsOfTemplates (deferredInstance template args) := by
  refine .read fun table => ?_
  dsimp only
  split
  · exact .pure _
  · exact (FailsOnly.updateGet _).bind fun made => (FailsOnly.update _).bind fun _ => .pure _

/-! ## Substitution -/

section Substitution

variable {instanceOf : SymbolId → List Descriptor → Analysis (Option SymbolId)}
  (finds : ∀ template args, FailsOfTemplates (instanceOf template args))

theorem failsOnly_mapReady {α β : Type} {step : α → Analysis (Option β)} {list : List α}
    (each : ∀ element, FailsOfTemplates (step element)) : FailsOfTemplates (mapReady step list) := by
  induction list with
  | nil => exact .pure _
  | cons first rest ih =>
      refine (each first).bind fun value => ?_
      cases value with
      | none => exact .pure _
      | some value =>
          refine ih.bind fun values => ?_
          cases values <;> exact .pure _

include finds

theorem failsOnly_relink (type : Descriptor) (template : SymbolId) (args : List Descriptor) :
    FailsOfTemplates (relink instanceOf type template args) :=
  (finds template args).bind fun _ => .pure _

theorem failsOnly_substitute (position depth : Nat) (type : Descriptor) :
    FailsOfTemplates (substitute instanceOf position depth type) := by
  induction depth generalizing type with
  | zero => exact .violated _
  | succ depth ih =>
      unfold substitute
      refine (failsOnly_mapReady ih).bind fun args => ?_
      cases args with
      | none => exact .pure _
      | some args =>
          refine (failsOnly_mapReady ih).bind fun defaults => ?_
          cases defaults with
          | none => exact .pure _
          | some defaults =>
              refine .read fun table => ?_
              dsimp only
              split
              · exact .pure _
              · split
                · split
                  · exact .pure _
                  · split
                    · exact .fail trivial
                    · exact failsOnly_relink finds _ _ _
                · split
                  · exact .pure _
                  · split
                    · refine (failsOnly_mapReady ih).bind fun useArgs => ?_
                      cases useArgs with
                      | none => exact .pure _
                      | some useArgs => exact failsOnly_relink finds _ _ _
                    · split
                      · exact .pure _
                      · split
                        · exact failsOnly_relink finds _ _ _
                        · exact .pure _

end Substitution

theorem failsOnly_applySubstitution (target : SymbolId) (part : DeferredPart) (type : Descriptor) :
    FailsOfTemplates (applySubstitution target part type) := by
  refine .read fun table => ?_
  cases part with
  | type => exact .update _
  | returnType =>
      refine .read fun table => ?_
      split
      · exact .fail trivial
      · split
        · exact .update _
        · exact .unsupported _
  | parent position =>
      dsimp only
      split
      · exact .fail trivial
      · split
        · exact .pure _
        · refine .read fun table => ?_
          split
          · exact .update _
          · exact .violated _

theorem failsOnly_finishOrEnqueue (work : DeferredWork) (substituted : Option Descriptor) :
    FailsOfTemplates (finishOrEnqueue work substituted) := by
  cases substituted with
  | none => exact .update _
  | some type => exact failsOnly_applySubstitution _ _ _

/-! ## Copying -/

section Copying

variable {substitute : Substituter} (substitutes : ∀ position type, FailsOfTemplates (substitute position type))
  {copyPart : SymbolId → Analysis SymbolId} (copies : ∀ member, FailsOfTemplates (copyPart member))

theorem failsOnly_setScope (id scope : SymbolId) : FailsOfTemplates (setScope id scope) :=
  .read fun _ => .update _

theorem failsOnly_copyMember {fill : SymbolId → SymbolId → Analysis Unit}
    (fills : ∀ member copy, FailsOfTemplates (fill member copy)) (position : Nat) (member : SymbolId) :
    FailsOfTemplates (copyMember fill position member) := by
  refine .read fun table => ?_
  dsimp only
  split
  · exact .pure _
  · refine (FailsOnly.updateGet _).bind fun copy => (FailsOnly.update _).bind fun _ => ?_
    exact (fills member copy).bind fun _ => .pure _

theorem failsOnly_linkCopies (position : Nat) : FailsOfTemplates (linkCopies position) := by
  refine .read fun table => .forM fun (source, copy) _ => ?_
  dsimp only
  split
  · exact .pure _
  · exact (FailsOnly.update _).bind fun _ => .update _

theorem failsOnly_copyDirectives (copy : SymbolId) (directives : List UsingDirective) :
    FailsOfTemplates (copyDirectives copy directives) :=
  .forM fun _ _ => .update _

section Parts

include copies

theorem failsOnly_copyParameters (copy : SymbolId) (parameters : List SymbolId) :
    FailsOfTemplates (copyParameters copyPart copy parameters) := by
  refine .forM fun parameter _ => (copies parameter).bind fun part => ?_
  refine (failsOnly_setScope part copy).bind fun _ => .read fun table => ?_
  split
  · exact .update _
  · exact .update _
  · exact .violated _

theorem failsOnly_copyMembers (copy : SymbolId) (members : List SymbolId) :
    FailsOfTemplates (copyMembers copyPart copy members) := by
  refine .forM fun member _ => (copies member).bind fun part => .read fun table => ?_
  have hinsert : FailsOfTemplates (do
      assign part (.scope (some copy) ((table.symbol copy).isTemplate || (table.symbol copy).inTemplate))
      edit copy (.insertMember (table.symbol part).name part)) :=
    (FailsOnly.update _).bind fun _ => .update _
  dsimp only
  split
  · exact hinsert
  · exact (FailsOnly.unsupported _).bind fun _ => hinsert

theorem failsOnly_copySpecialFunctions (entry : SymbolId → Entry) (copy : SymbolId)
    (functions : List SymbolId) :
    FailsOfTemplates (copySpecialFunctions copyPart entry copy functions) := by
  refine .forM fun function _ => (copies function).bind fun part => ?_
  exact (failsOnly_setScope part copy).bind fun _ => .update _

end Parts

include substitutes

theorem failsOnly_substituteInto (position : Nat) (target : SymbolId) (part : DeferredPart)
    (type : Descriptor) : FailsOfTemplates (substituteInto substitute position target part type) :=
  (substitutes position type).bind fun _ => failsOnly_finishOrEnqueue _ _

theorem failsOnly_copyReturnType (position : Nat) (copy : SymbolId) (returned : Option Descriptor) :
    FailsOfTemplates (copyReturnType substitute position copy returned) := by
  cases returned with
  | none => exact .pure _
  | some type => exact (FailsOnly.update _).bind fun _ => failsOnly_substituteInto substitutes _ _ _ _

theorem failsOnly_copyBases (position : Nat) (copy : SymbolId) (links : List BaseLink) :
    FailsOfTemplates (copyBases substitute position copy links) :=
  .forM fun _ _ => (FailsOnly.update _).bind fun _ => failsOnly_substituteInto substitutes _ _ _ _

theorem failsOnly_copyContents (position depth : Nat) (source copy : SymbolId) :
    FailsOfTemplates (copyContents substitute position depth source copy) := by
  induction depth generalizing source copy with
  | zero => exact .violated _
  | succ depth ih =>
      have hpart := failsOnly_copyMember ih position
      refine .read fun table => (failsOnly_substituteInto substitutes _ _ _ _).bind fun _ => ?_
      refine (failsOnly_copyParameters hpart _ _).bind fun _ => ?_
      refine (failsOnly_copyReturnType substitutes _ _ _).bind fun _ => ?_
      refine (failsOnly_copyBases substitutes _ _ _).bind fun _ => ?_
      refine (failsOnly_copyMembers hpart _ _).bind fun _ => ?_
      refine (failsOnly_copyDirectives _ _).bind fun _ => ?_
      exact (failsOnly_copySpecialFunctions hpart _ _ _).bind fun _ =>
        failsOnly_copySpecialFunctions hpart _ _ _

theorem failsOnly_copyTemplate (depth : Nat) (template : SymbolId) (args : List Descriptor) :
    FailsOfTemplates (copyTemplate substitute depth template args) := by
  refine .read fun table => ?_
  dsimp only
  split
  · exact .fail trivial
  · refine (FailsOnly.updateGet _).bind fun made => (FailsOnly.update _).bind fun _ => ?_
    refine (FailsOnly.updateGet _).bind fun position => ?_
    refine (failsOnly_copyContents substitutes _ _ _ _).bind fun _ => ?_
    exact (failsOnly_linkCopies position).bind fun _ => .pure _

theorem failsOnly_drainQueue (template : Name) (passes : Nat) :
    FailsOfTemplates (drainQueue substitute template passes) := by
  induction passes with
  | zero =>
      refine .read fun table => ?_
      split
      · exact .pure _
      · exact .fail trivial
  | succ passes ih =>
      refine .read fun table => ?_
      split
      · exact .pure _
      · refine (FailsOnly.set _).bind fun _ => (FailsOnly.forM fun work _ => ?_).bind fun _ => ih
        exact (substitutes work.context work.type).bind fun _ => failsOnly_finishOrEnqueue _ _

end Copying

/-! ## Transactions -/

theorem failsOnly_undoAll (records : List Record) : FailsOfTemplates (undoAll records) := by
  induction records with
  | nil => exact .pure _
  | cons record rest ih =>
      cases record with
      | mark => exact .violated _
      | edit id reversal => exact (FailsOnly.update _).bind fun _ => ih

theorem failsOnly_release {step : Analysis (Except TransactionError Unit)}
    (releases : FailsOfTemplates step) : FailsOfTemplates (release step) := by
  refine releases.bind fun result => ?_
  cases result
  · exact .violated _
  · exact .pure _

theorem failsOnly_rollback (start : Mark) : FailsOfTemplates (rollback start) := by
  refine .read fun table => ?_
  dsimp only
  split
  · exact .pure _
  · split
    · exact .violated _
    · refine (FailsOnly.set _).bind fun _ => (failsOnly_undoAll _).bind fun _ => ?_
      exact (FailsOnly.update _).bind fun _ => .pure _

theorem failsOnly_commit (start : Mark) : FailsOfTemplates (commit start) := by
  refine .read fun table => ?_
  split
  · exact .pure _
  · exact (FailsOnly.set _).bind fun _ => .pure _

section Outermost

variable {made : Analysis SymbolId} (makes : FailsOfTemplates made)

include makes

theorem failsOnly_outermostCopy : FailsOfTemplates (outermostCopy made) := by
  refine (FailsOnly.updateGet _).bind fun start => (FailsOnly.update _).bind fun _ => ?_
  refine makes.attempt (fun result => ?_) fun error allows => ?_
  · refine (FailsOnly.update _).bind fun _ => (FailsOnly.update _).bind fun _ => ?_
    exact (failsOnly_release (failsOnly_commit start)).bind fun _ => .pure _
  · refine (FailsOnly.update _).bind fun _ => (FailsOnly.update _).bind fun _ => ?_
    exact (failsOnly_release (failsOnly_rollback start)).bind fun _ => .fail allows

theorem failsOnly_nestedCopy : FailsOfTemplates (nestedCopy made) := by
  refine (FailsOnly.update _).bind fun _ => makes.attempt (fun result => ?_) fun error allows => ?_
  · exact (FailsOnly.update _).bind fun _ => .pure _
  · exact (FailsOnly.update _).bind fun _ => .fail allows

end Outermost

/-! ## Instantiation -/

section Levels

variable {instantiate copy : Instantiator}
  (instantiates : ∀ template args, FailsOfTemplates (instantiate template args))

include instantiates

theorem failsOnly_instantiateUncached (depth : Nat) (template : SymbolId) (args : List Descriptor) :
    FailsOfTemplates (instantiateUncached instantiate depth template args) := by
  have hsubstitutes : ∀ eager position type,
      FailsOfTemplates (substituter instantiate depth eager position type) := fun eager position type =>
    failsOnly_substitute (failsOnly_resolveInstance instantiates
      (failsOnly_resolveTemplateIds instantiates depth) eager) position depth type
  have hcopy := failsOnly_copyTemplate (hsubstitutes false) depth template args
  refine .read fun table => ?_
  dsimp only
  split
  · refine failsOnly_outermostCopy (hcopy.bind fun made => ?_)
    exact (failsOnly_drainQueue (hsubstitutes true) _ _).bind fun _ => .pure _
  · exact failsOnly_nestedCopy hcopy

theorem failsOnly_concreteInstance (copies : ∀ template args, FailsOfTemplates (copy template args))
    (template : SymbolId) (args : List Descriptor) :
    FailsOfTemplates (concreteInstance instantiate copy template args) := by
  refine .read fun table => ?_
  split
  · exact .pure _
  · refine (FailsOnly.ofExcept fun error failed => ?_).bind fun chosen => ?_
    · rw [Table.selectSpecialization_error failed]
      trivial
    · cases chosen with
      | none => exact copies template args
      | some chosen =>
          refine (instantiates _ _).bind fun made => (FailsOnly.update _).bind fun _ => ?_
          exact (FailsOnly.update _).bind fun _ => .pure _

theorem failsOnly_instantiateStep (copies : ∀ template args, FailsOfTemplates (copy template args))
    (depth : Nat) (template : SymbolId) (args : List Descriptor) :
    FailsOfTemplates (instantiateStep instantiate copy depth template args) := by
  have hresolves := failsOnly_resolveTemplateIds instantiates depth
  refine .read fun table => ?_
  dsimp only
  split
  · exact .fail trivial
  · refine (FailsOnly.mapM fun arg _ => hresolves arg).bind fun resolved => ?_
    refine (failsOnly_completeArguments hresolves _ _).bind fun completed => .read fun table => ?_
    split
    · exact failsOnly_deferredInstance _ _
    · split
      · exact .fail trivial
      · exact failsOnly_concreteInstance instantiates copies _ _

end Levels

theorem failsOnly_instantiateWithin (bound : Nat) (template : SymbolId) (args : List Descriptor) :
    FailsOfTemplates (instantiateWithin bound template args) := by
  induction bound generalizing template args with
  | zero => exact .violated _
  | succ bound ih =>
      exact failsOnly_instantiateStep ih (failsOnly_instantiateUncached ih bound) bound template args

/-- An instantiation fails because of types, arguments or templates, and for no other reason. -/
theorem failsOnly_instantiate (template : SymbolId) (args : List Descriptor) :
    FailsOfTemplates (instantiate template args) := by
  unfold instantiate
  exact .read fun table => failsOnly_instantiateWithin _ _ _

/-- So does the instance that a call deduces. -/
theorem failsOnly_deducedInstance? (template : SymbolId) (args : List Descriptor) :
    FailsOfTemplates (deducedInstance? template args) := by
  refine .read fun table => ?_
  split
  · exact .pure _
  · refine (failsOnly_instantiate _ _).attempt (fun made => .pure _) fun error allows => ?_
    cases error with
    | badTemplateArgument => exact .pure _
    | _ => exact .fail allows

end Analysis

end NameBinding
