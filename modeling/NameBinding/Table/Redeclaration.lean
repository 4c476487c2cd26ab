import NameBinding.Table.Create
import NameBinding.Table.Signature

/-!
# Adding a declaration to a scope

A new declaration is checked against every earlier one of its name:

* a tag and a non-tag may share a name;
* an object and a function may not;
* a definition completes an earlier forward declaration, and a forward declaration after the
  definition collapses onto it;
* two equal typedefs, and an object and an `extern` declaration of it, collapse as well.

Everything else is an invalid overload.  Links that were made before the conflict is found stay.

`Table.redeclare` decides about one earlier declaration, and `Analysis.addSymbol` carries it out.
-/

namespace NameBinding

/-- What follows from declaring a name that is declared already. -/
inductive Verdict where
  /-- The declarations exclude each other. -/
  | conflict
  /-- Both stand beside each other. -/
  | separate
  /-- Both declare one entity, and `id` stands for `target` from now on. -/
  | link (id target : SymbolId)
  deriving DecidableEq, Repr

namespace Table

/-- Link two declarations of one entity: a forward declaration collapses onto the other one, and a
definition completes a forward declaration that is not completed yet. -/
def completeForward (table : Table) (old new : SymbolId) : Verdict :=
  if table.isForwardDeclaration new then .link new old
  else if table.isForwardDeclaration old && (table.symbol old).forwardTarget.isNone then
    .link old new
  else .conflict

/-- Redeclare a tag.  Aliases must name the same entity; otherwise both must be templates or
neither, and both enumerations or neither. -/
def redeclareTag (table : Table) (old new : SymbolId) : Verdict :=
  let before := table.symbol old
  let after := table.symbol new
  if before.aliasOf.isSome || after.aliasOf.isSome then
    if table.canonical old = table.canonical new then .separate else .conflict
  else if before.isTemplate == after.isTemplate
      && (before.type.kind == .enumeration) == (after.type.kind == .enumeration) then
    table.completeForward old new
  else .conflict

/-- Redeclare a function.  Templates and different parameter lists overload; the same parameter list
must come with the same return type. -/
def redeclareFunction (table : Table) (old new : SymbolId) : Verdict :=
  let before := table.symbol old
  let after := table.symbol new
  if before.isTemplate || after.isTemplate || (table.symbol (table.canonical old)).isTemplate
      || !table.hasSameParameters old new then
    .separate
  else
    match before.returnType, after.returnType with
    | some a, some b =>
        if (table.flattenType a).same (table.flattenType b) then table.completeForward old new
        else .conflict
    | _, _ => table.completeForward old new

/-- Redeclare an object.  Equal typedefs collapse onto the first, an `extern` declaration onto the
earlier object, and an earlier `extern` declaration onto the new object. -/
def redeclareObject (table : Table) (old new : SymbolId) : Verdict :=
  let before := table.symbol old
  let after := table.symbol new
  if table.canonical old = table.canonical new then .separate
  else if before.type.isTypedef && after.type.isTypedef then
    if (table.flattenType before.type).same (table.flattenType after.type) then .link new old
    else .conflict
  else if after.type.flags.specifiers.isExtern then .link new old
  else if before.type.flags.specifiers.isExtern && before.forwardTarget.isNone then .link old new
  else .conflict

/-- What follows from a new declaration beside one earlier declaration of its name. -/
def redeclare (table : Table) (old new : SymbolId) : Verdict :=
  match table.declClass old, table.declClass new with
  | .tag, .tag => table.redeclareTag old new
  | .function, .function => table.redeclareFunction old new
  | .object, .object => table.redeclareObject old new
  | .object, .function => .conflict
  | .function, .object => .conflict
  | .tag, _ => .separate
  | _, .tag => .separate

end Table

namespace Analysis

/-- Let `id` stand for `target`. -/
def setForwardTarget (id target : SymbolId) : Analysis Unit :=
  assign id (.forwardTarget (some target))

/-- Make `id` a member of `scope` without any check against earlier declarations. -/
def insertMember (scope id : SymbolId) : Analysis Unit := do
  let table ← get
  let outer := table.symbol scope
  let name := (table.symbol id).name
  unless outer.holdsMembers do unsupported .insertMember
  assign id (.scope (some scope) (outer.isTemplate || outer.inTemplate))
  edit scope (.insertMember name id)

/-- Check a new declaration against one earlier declaration of its name, and link the two if they
declare one entity. -/
def redeclare (old new : SymbolId) (name : Name) : Analysis Unit := do
  let table ← get
  match table.redeclare old new with
  | .conflict => fail (.invalidOverload name)
  | .separate => pure ()
  | .link id target => setForwardTarget id target

/-- Check a new declaration against all earlier members of `scope` with its name. -/
def checkRedeclaration (scope new : SymbolId) : Analysis Unit := do
  let table ← get
  let name := (table.symbol new).name
  (table.members scope name).forM fun old =>
    if old = new then pure () else redeclare old new name

/-- Add a declaration to a scope.  Unnamed declarations are not checked. -/
def addSymbol (scope id : SymbolId) : Analysis Unit := do
  let table ← get
  unless (table.symbol scope).holdsMembers do unsupported .addSymbol
  unless (table.symbol id).name.isEmpty do checkRedeclaration scope id
  insertMember scope id

end Analysis

end NameBinding
