import NameBinding.Template.Specialization
import NameBinding.Table.Create

/-!
# Template-ids and their arguments

A template-id is resolved by putting the instance it denotes in its place.  Instances are made by an
`Instantiator`, which the steps here take as a parameter: instantiation resolves the arguments of
template-ids, and resolving them instantiates.

* `resolveTemplateIds` replaces the template-ids of a descriptor by their instances.
* `completeArguments` fills in default arguments.
* `deferredInstance` is the placeholder of a use whose arguments are dependent.
-/

namespace NameBinding

/-- What makes the instance of a template for given arguments. -/
abbrev Instantiator := SymbolId → List Descriptor → Analysis SymbolId

namespace Table

/-- A default argument with the parameters before it replaced by their arguments.  Placeholders
become template-ids again, so that they can be instantiated. -/
def substituteParameters (table : Table) (bindings : Bindings) : Nat → Descriptor → Descriptor
  | 0, type => type
  | depth + 1, type =>
      match type.link with
      | none => type
      | some link =>
          match bindings.lookup link, type.templateArgs with
          | some replacement, [] => type.substituteBase replacement
          | _, _ =>
              let use := (table.symbol link).placeholder?.getD ⟨link, type.templateArgs⟩
              let head := ((bindings.lookup use.template).bind (·.link)).getD use.template
              { type with
                link := some head
                templateArgs := use.args.map (substituteParameters table bindings depth) }

/-- The explicit specialization or the cached instance for exactly these arguments. -/
def existingInstance? (table : Table) (template : SymbolId) (args : List Descriptor) :
    Option SymbolId :=
  (table.symbol template).templateData?.bind fun data =>
    ((data.explicits.find? fun entry => Descriptor.sameAll entry.args args).or
      (data.instances.find? fun entry => Descriptor.sameAll entry.args args)).map (·.symbol)

end Table

namespace Analysis

/-- Replace template-ids with non-dependent arguments by their instances, after typedefs are seen
through. -/
def resolveTemplateIds (instantiate : Instantiator) : Nat → Descriptor → Analysis Descriptor
  | 0, _ => violated .nestingExhausted
  | depth + 1, type => do
      let table ← get
      let flat := table.flattenType type
      if flat.templateArgs.isEmpty then pure flat
      else do
        let args ← flat.templateArgs.mapM (resolveTemplateIds instantiate depth)
        let table ← get
        match flat.link with
        | none => pure { flat with templateArgs := args }
        | some link =>
            if (table.symbol (table.canonical link)).isTemplate && !table.anyDependent args then do
              let made ← instantiate link args
              pure { flat with link := some made, templateArgs := [] }
            else pure { flat with templateArgs := args }

/-- Complete an argument list from the parameter at `position` on.  An omitted argument takes the
default of its parameter, which may refer to the parameters before it. -/
def completeFrom (resolve : Descriptor → Analysis Descriptor) (name : Name) :
    Nat → List SymbolId → List Descriptor → Bindings → Analysis (List Descriptor)
  | _, [], _, _ => pure []
  | position, parameter :: parameters, args, bindings => do
      let table ← get
      let arg ←
        match args.head?, (table.symbol parameter).type.defaultValue with
        | some arg, _ => pure arg
        | none, some value =>
            resolve (table.substituteParameters bindings table.config.nestingLimit value)
        | none, none => fail (.badTemplateArgument name position)
      let arg := arg.stripDefault
      let completed ← completeFrom resolve name (position + 1) parameters args.tail
        ((parameter, arg) :: bindings)
      pure (arg :: completed)

/-- One argument for each parameter: the given ones first, then defaults. -/
def completeArguments (resolve : Descriptor → Analysis Descriptor) (template : SymbolId)
    (args : List Descriptor) : Analysis (List Descriptor) := do
  let table ← get
  let symbol := table.symbol template
  if symbol.parameters.length < args.length then
    fail (.badTemplateArgument symbol.name symbol.parameters.length)
  else completeFrom resolve symbol.name 0 symbol.parameters args []

/-- The placeholder of a template applied to dependent arguments, shared by all uses with the same
arguments. -/
def deferredInstance (template : SymbolId) (args : List Descriptor) : Analysis SymbolId := do
  let table ← get
  let symbol := table.symbol template
  let known := (symbol.templateData?.map (·.placeholders)).getD []
  match known.find? fun entry => Descriptor.sameAll entry.args args with
  | some entry => pure entry.symbol
  | none => do
      let made ← create
        { name := symbol.name
          scope := symbol.scope
          type := .templateId template args
          inTemplate := true
          payload := .placeholder { template, args } }
      append template (.placeholder { args, symbol := made })
      pure made

/-- Remember the instance of a template for given arguments. -/
def recordInstance (template : SymbolId) (args : List Descriptor) (made : SymbolId) :
    Analysis Unit :=
  append template (.cached { args, symbol := made })

end Analysis

end NameBinding
