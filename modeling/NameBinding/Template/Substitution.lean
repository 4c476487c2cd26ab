import NameBinding.Template.Resolution
import NameBinding.Table.Attach

/-!
# Substitution in a copied declaration

While a template is copied, every type in the copy has the template's parameters replaced by their
arguments and the copied declarations by their copies.  A type that needs something not there yet, a
member not copied so far or an instance not made so far, is queued and finished later; only then are
further instances made (`eager`).
-/

namespace NameBinding

namespace CopyContext

/-- What a declaration is called in the copy. -/
def copyOf (context : CopyContext) (id : SymbolId) : SymbolId := (context.copies.lookup id).getD id

/-- The template that the template of a placeholder becomes: the one its parameter is bound to, or
its copy. -/
def templateOf (context : CopyContext) (template : SymbolId) : SymbolId :=
  (((context.bindings.lookup template).bind (·.link)).or (context.copies.lookup template)).getD
    template

end CopyContext

namespace Table

/-- A running copy. -/
def copyContext (table : Table) (position : Nat) : CopyContext :=
  table.templates.contexts.getD position default

end Table

namespace Analysis

/-- Apply a step to all elements, stopping at the first that has no result yet. -/
def mapReady {α β : Type} (step : α → Analysis (Option β)) :
    List α → Analysis (Option (List β))
  | [] => pure (some [])
  | x :: xs => do
      match ← step x with
      | none => pure none
      | some y =>
          match ← mapReady step xs with
          | none => pure none
          | some ys => pure (some (y :: ys))

/-- The instance a template-id of a copy denotes.  Unless `eager`, only an existing instance is
used, so that a class does not instantiate the classes it mentions while it is itself being
copied. -/
def resolveInstance (instantiate : Instantiator) (resolve : Descriptor → Analysis Descriptor)
    (eager : Bool) (template : SymbolId) (args : List Descriptor) :
    Analysis (Option SymbolId) := do
  let table ← get
  if eager || table.anyDependent args then do
    let made ← instantiate template args
    pure (some made)
  else do
    let entity := table.canonical template
    match ← attempt (completeArguments resolve entity (args.map table.flattenType)) with
    | .error _ => pure none
    | .ok completed => do
        let table ← get
        pure (table.existingInstance? entity completed)

/-- A descriptor with its base replaced by the instance of a template. -/
def relink (instanceOf : SymbolId → List Descriptor → Analysis (Option SymbolId))
    (type : Descriptor) (template : SymbolId) (args : List Descriptor) :
    Analysis (Option Descriptor) := do
  let made ← instanceOf template args
  pure (made.map fun id => { type with link := some id })

/-- A type of the copied declaration as it reads in the copy, or nothing if it needs a symbol that
does not exist yet. -/
def substitute (instanceOf : SymbolId → List Descriptor → Analysis (Option SymbolId))
    (position : Nat) : Nat → Descriptor → Analysis (Option Descriptor)
  | 0, _ => violated .nestingExhausted
  | depth + 1, type => do
      let inner := substitute instanceOf position depth
      let some args ← mapReady inner type.templateArgs | pure none
      let some defaults ← mapReady inner type.defaultValue.toList | pure none
      let table ← get
      let context := table.copyContext position
      let result : Descriptor :=
        { type with
          templateArgs := args
          defaultValue := defaults.head?
          ops := type.ops.map fun op => { op with memberOf := op.memberOf.map context.copyOf } }
      match result.link with
      | none => pure (some result)
      | some link =>
          match context.bindings.lookup link with
          | some replacement =>
              if args.isEmpty then pure (some (result.substituteBase replacement))
              else
                match replacement.link with
                | none => fail (.badTypeInfo (table.symbol link).name)
                | some template =>
                    relink instanceOf { result with templateArgs := [] } template args
          | none =>
              match context.copies.lookup link with
              | some copy => pure (some { result with link := some copy })
              | none =>
                  match (table.symbol link).placeholder? with
                  | some use => do
                      let some useArgs ← mapReady inner use.args | pure none
                      relink instanceOf result (context.templateOf use.template) useArgs
                  | none =>
                      if link ≠ context.templated && table.isWithin link context.templated then
                        pure none
                      else if !args.isEmpty && (table.symbol (table.canonical link)).isTemplate then
                        relink instanceOf { result with templateArgs := [] } link args
                      else pure (some result)

/-- Put a finished type into its place in the copy. -/
def applySubstitution (target : SymbolId) (part : DeferredPart) (type : Descriptor) :
    Analysis Unit := do
  let table ← get
  match part with
  | .type => setType target type
  | .returnType => setReturnType target type
  | .parent position =>
      match type.link with
      | none => fail (.badTypeInfo (table.symbol target).name)
      | some link =>
          let parent := table.classOf link
          let current := (table.symbol target).parents[position]?.map (·.parent)
          if current = some parent then pure () else setParent target position parent

/-- Leave work for later. -/
def enqueue (work : DeferredWork) : Analysis Unit :=
  modify fun table =>
    { table with
      templates := { table.templates with queue := table.templates.queue ++ [work] } }

/-- Finish a substitution, or queue it if it needs something that does not exist yet.  `substituted`
is the type as it reads in the copy. -/
def finishOrEnqueue (work : DeferredWork) (substituted : Option Descriptor) : Analysis Unit :=
  match substituted with
  | some type => applySubstitution work.target work.part type
  | none => enqueue work

end Analysis

end NameBinding
