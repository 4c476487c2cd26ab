import NameBinding.Template.Copy
import NameBinding.Table.Transaction

/-!
# Instantiation

The instance of a template for given arguments is found in this order: a placeholder if the
arguments are dependent; an explicit specialization or a cached instance; the instance of the chosen
partial specialization; and otherwise a copy of the templated declaration.

The outermost copy runs inside a mark of its own and ends by finishing all queued work, in passes;
if that takes more passes than the table allows, the template is recursive.  A failure anywhere
below takes back everything the copy did.

* `instantiateWithin` makes instances that nest no deeper than a bound.
* `Analysis.instantiate` takes the bound from the table.
-/

namespace NameBinding.Analysis

/-- Finish queued work in at most `passes` passes; finishing one item may queue more. -/
def drainQueue (substitute : Substituter) (template : Name) : Nat → Analysis Unit
  | 0 => do
      let table ← get
      if table.templates.queue.isEmpty then pure () else fail (.recursiveTemplate template)
  | passes + 1 => do
      let table ← get
      if table.templates.queue.isEmpty then pure ()
      else do
        set { table with templates := { table.templates with queue := [] } }
        table.templates.queue.forM fun work => do
          let substituted ← substitute work.context work.type
          finishOrEnqueue work substituted
        drainQueue substitute template passes

/-- Count a copy that starts. -/
def enterCopy : Analysis Unit :=
  modify fun table =>
    { table with templates := { table.templates with depth := table.templates.depth + 1 } }

/-- Count a copy that has ended. -/
def leaveCopy : Analysis Unit :=
  modify fun table =>
    { table with templates := { table.templates with depth := table.templates.depth - 1 } }

/-- Forget all queued work and all contexts. -/
def clearWork : Analysis Unit :=
  modify fun table =>
    { table with templates := { table.templates with queue := [], contexts := #[] } }

/-- Release the mark of an instantiation, which must be the innermost one. -/
def release (step : Analysis (Except TransactionError Unit)) : Analysis Unit := do
  match ← step with
  | .ok () => pure ()
  | .error _ => violated .instantiationMark

/-- Carry out the outermost copy: keep what it did if it succeeds, and take everything back if it
fails. -/
def outermostCopy (copy : Analysis SymbolId) : Analysis SymbolId := do
  let start ← mark
  enterCopy
  let result ← attempt copy
  leaveCopy
  clearWork
  match result with
  | .ok made => do
      release (commit start)
      pure made
  | .error error => do
      release (rollback start)
      fail error

/-- Carry out a copy inside another one. -/
def nestedCopy (copy : Analysis SymbolId) : Analysis SymbolId := do
  enterCopy
  let result ← attempt copy
  leaveCopy
  ofExcept result

/-- How types are substituted during a copy (`eager = false`) and when queued work is finished
(`eager = true`). -/
def substituter (instantiate : Instantiator) (depth : Nat) (eager : Bool) : Substituter :=
  fun position =>
    substitute (resolveInstance instantiate (resolveTemplateIds instantiate depth) eager) position
      depth

/-- Copy the templated declaration for `args`; the outermost copy also finishes queued work. -/
def instantiateUncached (instantiate : Instantiator) (depth : Nat) (template : SymbolId)
    (args : List Descriptor) : Analysis SymbolId := do
  let table ← get
  let copy := copyTemplate (substituter instantiate depth false) depth template args
  if table.templates.depth = 0 then
    outermostCopy do
      let made ← copy
      drainQueue (substituter instantiate depth true) (table.symbol template).name
        table.config.passLimit
      pure made
  else nestedCopy copy

/-- The position of the first argument that does not fit its parameter. -/
def firstMismatch? (table : Table) (parameters : List SymbolId) (args : List Descriptor) :
    Option Nat :=
  (parameters.zip args).findIdx? fun (parameter, arg) => !table.fitsParameter parameter arg

/-- The instance for complete, non-dependent arguments that fit their parameters.  The instance of a
partial specialization is made by `instantiate`, and one that is not there yet by `copy`. -/
def concreteInstance (instantiate copy : Instantiator) (template : SymbolId)
    (args : List Descriptor) : Analysis SymbolId := do
  let table ← get
  match table.existingInstance? template args with
  | some known => pure known
  | none => do
      match ← ofExcept (table.selectSpecialization template args) with
      | some (specialization, deduced) => do
          let made ← instantiate specialization deduced
          recordInstance template args made
          assign made (.origin (some { template, args }))
          pure made
      | none => copy template args

/-- One level of instantiation.  Instances that it needs are made by `instantiate`, and its own by
`copy`. -/
def instantiateStep (instantiate copy : Instantiator) (depth : Nat) (template : SymbolId)
    (args : List Descriptor) : Analysis SymbolId := do
  let table ← get
  let entity := table.canonical template
  let symbol := table.symbol entity
  if !symbol.isTemplate || !args.all (·.isValid) then fail (.badTypeInfo symbol.name)
  else do
    let resolve := resolveTemplateIds instantiate depth
    let resolved ← args.mapM resolve
    let completed ← completeArguments resolve entity resolved
    let table ← get
    if symbol.isTemplateParameter || table.anyDependent completed then
      deferredInstance entity completed
    else
      match firstMismatch? table (table.symbol entity).parameters completed with
      | some position => fail (.badTemplateArgument symbol.name position)
      | none => concreteInstance instantiate copy entity completed

/-- The instance of a template, with instances nesting less deeply than the bound. -/
def instantiateWithin : Nat → Instantiator
  | 0 => fun _ _ => violated .nestingExhausted
  | depth + 1 =>
      instantiateStep (instantiateWithin depth) (instantiateUncached (instantiateWithin depth) depth)
        depth

/-- The instance of a template for the given arguments.  Omitted trailing arguments take their
defaults, and dependent arguments yield a placeholder. -/
def instantiate (template : SymbolId) (args : List Descriptor) : Analysis SymbolId := do
  let table ← get
  instantiateWithin table.config.nestingLimit template args

/-- A descriptor with its template-ids replaced by their instances. -/
def resolveType (type : Descriptor) : Analysis Descriptor := do
  let table ← get
  resolveTemplateIds (instantiateWithin table.config.nestingLimit) table.config.nestingLimit type

end NameBinding.Analysis
