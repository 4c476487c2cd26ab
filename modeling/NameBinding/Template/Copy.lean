import NameBinding.Template.Substitution

/-!
# Copying a templated declaration

An instance is a copy of the templated declaration: its type, parameters, return type, bases,
members, using-directives, constructors and conversions, with all types substituted.  Each
declaration is copied once, when it is first reached.  The instance is remembered before its parts
are copied, so that a declaration that mentions itself finds it.

A copy is younger than the mark of the outermost instantiation.  So its parameters, bases, directives,
special functions and links are written without a record; members and finished types are recorded.

* `copyMember` copies one declaration, and `copyContents` its parts, list by list.
* `linkCopies` points forward declarations and aliases among the copies at copies.
* `copyTemplate` makes the instance of a template.
-/

namespace NameBinding

namespace Payload

/-- A payload of the same kind that holds nothing yet.  A placeholder becomes a plain symbol. -/
def shell : Payload → Payload
  | .basic | .placeholder _ => .basic
  | .container _ => .container {}
  | .cls _ => .cls {}
  | .function data => .function { varargs := data.varargs }
  | .template _ => .template {}

end Payload

namespace Symbol

/-- A symbol with the same name, type, access and kind that holds nothing and belongs nowhere. -/
def shell (symbol : Symbol) : Symbol where
  name := symbol.name
  type := symbol.type
  access := symbol.access
  astLink := symbol.astLink
  payload := symbol.payload.shell

end Symbol

namespace Table

/-- Is there a template between a member and the templated declaration?  Such members stay dependent
in the copy. -/
def insideMemberTemplate (table : Table) (member templated : SymbolId) : Bool :=
  ((table.scopeChain member).tail.takeWhile (· ≠ templated)).any fun scope =>
    (table.symbol scope).isTemplate

end Table

namespace Analysis

/-- What a copy needs to substitute types: how to read a type in the copy, given the position of the
copy's context. -/
abbrev Substituter := Nat → Descriptor → Analysis (Option Descriptor)

/-- Substitute now if possible, otherwise queue the work. -/
def substituteInto (substitute : Substituter) (position : Nat) (target : SymbolId)
    (part : DeferredPart) (type : Descriptor) : Analysis Unit := do
  let substituted ← substitute position type
  finishOrEnqueue { target, part, type, context := position } substituted

/-- Remember the copy of a declaration. -/
def recordCopy (position : Nat) (source copy : SymbolId) : Analysis Unit :=
  modify fun table =>
    { table with
      templates :=
        { table.templates with
          contexts := table.templates.contexts.modify position fun context =>
            { context with copies := (source, copy) :: context.copies } } }

/-- The copy of a declaration, made on first use; `fill` copies its parts. -/
def copyMember (fill : SymbolId → SymbolId → Analysis Unit) (position : Nat) (member : SymbolId) :
    Analysis SymbolId := do
  let table ← get
  let context := table.copyContext position
  match context.copies.lookup member with
  | some copy => pure copy
  | none => do
      let copy ← create
        { (table.symbol member).shell with
          inTemplate := table.insideMemberTemplate member context.templated }
      recordCopy position member copy
      fill member copy
      pure copy

/-- Make a symbol part of `scope` without touching the lists of the scope. -/
def setScope (id scope : SymbolId) : Analysis Unit := do
  let table ← get
  write id (.assign (.scope (some scope) (table.symbol id).inTemplate))

/-- Append a copied parameter. -/
def appendParameter (copy parameter : SymbolId) : Analysis Unit := do
  let table ← get
  match (table.symbol copy).payload with
  | .function _ => write copy (.append (.parameter parameter))
  | .template _ => write copy (.append (.templateParameter parameter))
  | _ => violated .parametersOfOther

/-- Copy the parameters of a function or of a template; `copyPart` copies one declaration. -/
def copyParameters (copyPart : SymbolId → Analysis SymbolId) (copy : SymbolId)
    (parameters : List SymbolId) : Analysis Unit :=
  parameters.forM fun parameter => do
    let part ← copyPart parameter
    setScope part copy
    appendParameter copy part

/-- Copy the return type of a function, if it has one. -/
def copyReturnType (substitute : Substituter) (position : Nat) (copy : SymbolId) :
    Option Descriptor → Analysis Unit
  | none => pure ()
  | some type => do
      write copy (.assign (.returnType (some type)))
      substituteInto substitute position copy .returnType type

/-- Copy the base-class links of a class. -/
def copyBases (substitute : Substituter) (position : Nat) (copy : SymbolId)
    (links : List BaseLink) : Analysis Unit :=
  links.zipIdx.forM fun (link, index) => do
    write copy (.append (.parent link))
    substituteInto substitute position copy (.parent index) (.ofSymbol link.parent)

/-- Copy the members of a scope. -/
def copyMembers (copyPart : SymbolId → Analysis SymbolId) (copy : SymbolId)
    (members : List SymbolId) : Analysis Unit :=
  members.forM fun member => do
    let part ← copyPart member
    insertMember copy part

/-- Copy the using-directives of a scope; they nominate the same namespaces. -/
def copyDirectives (copy : SymbolId) (directives : List UsingDirective) : Analysis Unit :=
  directives.forM fun directive =>
    write copy (.append (.directive { directive with scope := copy }))

/-- Copy functions that a class keeps in a list of its own: constructors or conversions. -/
def copySpecialFunctions (copyPart : SymbolId → Analysis SymbolId) (entry : SymbolId → Entry)
    (copy : SymbolId) (functions : List SymbolId) : Analysis Unit :=
  functions.forM fun function => do
    let part ← copyPart function
    setScope part copy
    write copy (.append (entry part))

/-- Copy the parts of `source` into the shell `copy`. -/
def copyContents (substitute : Substituter) (position : Nat) :
    Nat → SymbolId → SymbolId → Analysis Unit
  | 0, _, _ => violated .nestingExhausted
  | depth + 1, source, copy => do
      let copyPart := copyMember (copyContents substitute position depth) position
      let table ← get
      let model := table.symbol source
      substituteInto substitute position copy .type model.type
      copyParameters copyPart copy model.parameters
      copyReturnType substitute position copy model.returnType
      copyBases substitute position copy model.parents
      copyMembers copyPart copy model.contents
      copyDirectives copy model.directives
      copySpecialFunctions copyPart .constructor copy model.constructors
      copySpecialFunctions copyPart .conversion copy model.conversions

/-- Point forward declarations and aliases among the copies at the copies of their targets. -/
def linkCopies (position : Nat) : Analysis Unit := do
  let table ← get
  let context := table.copyContext position
  context.copies.forM fun (source, copy) =>
    if source = context.templated then pure ()
    else do
      let model := table.symbol source
      write copy (.assign (.forwardTarget (model.forwardTarget.map context.copyOf)))
      write copy (.assign (.aliasOf (model.aliasOf.map context.copyOf)))

/-- Start a copy and give the position of its context. -/
def openContext (context : CopyContext) : Analysis Nat :=
  modifyGet fun table =>
    (table.templates.contexts.size,
      { table with
        templates := { table.templates with contexts := table.templates.contexts.push context } })

/-- Copy the templated declaration of a template with its parameters bound to `args`. -/
def copyTemplate (substitute : Substituter) (depth : Nat) (template : SymbolId)
    (args : List Descriptor) : Analysis SymbolId := do
  let table ← get
  let symbol := table.symbol template
  match table.templated? template with
  | none => fail (.badTypeInfo symbol.name)
  | some templated => do
      let made ← create
        { (table.symbol templated).shell with
          scope := symbol.scope
          origin := some { template, args } }
      recordInstance template args made
      let position ← openContext
        { templated
          bindings := (symbol.parameters.zip args).reverse
          copies := [(templated, made)] }
      copyContents substitute position depth templated made
      linkCopies position
      pure made

end Analysis

end NameBinding
