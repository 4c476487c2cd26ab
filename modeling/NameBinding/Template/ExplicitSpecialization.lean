import NameBinding.Template.Instantiate

/-!
# Explicit specializations

`template<> …` declares what a template is for one exact list of arguments.  A function or variable
specialized for a class template names a member of the class instance: it completes a member that
is only declared, or replaces one that is defined.  Anything else specializes the whole template.
-/

namespace NameBinding

namespace Table

/-- Is `member` the member that an explicit specialization `id` is about?  A function specializes a
function with the same parameters, and anything else a member that is no function. -/
def isSpecializedBy (table : Table) (id member : SymbolId) : Bool :=
  if (table.symbol id).isFunction then
    (table.symbol member).isFunction && table.hasSameParameters member id
  else !(table.symbol member).isFunction

end Table

namespace Analysis

/-- Specialize a member of the instance of a class template. -/
def specializeMember (template : SymbolId) (args : List Descriptor) (id : SymbolId) :
    Analysis SymbolId := do
  let made ← instantiate template args
  let table ← get
  let name := (table.symbol id).name
  match (table.members made name).find? (table.isSpecializedBy id) with
  | none => fail (.invalidOverload name)
  | some member => do
      let declared := table.symbol member
      if declared.type.isForward && declared.forwardTarget.isNone then addSymbol made id
      else do
        setForwardTarget member id
        insertMember made id
      pure id

/-- Specialize a whole template; the same arguments twice are an invalid overload. -/
def specializeTemplate (template : SymbolId) (args : List Descriptor) (id : SymbolId) :
    Analysis SymbolId := do
  let completed ← completeArguments resolveType template args
  let table ← get
  let symbol := table.symbol template
  let registered := (symbol.templateData?.map (·.explicits)).getD []
  if registered.any fun entry => Descriptor.sameAll entry.args completed then
    fail (.invalidOverload symbol.name)
  else do
    append template (.explicit { args := completed, symbol := id })
    assign id (.origin (some { template, args := completed }))
    let special := table.symbol id
    if special.scope.isNone then assign id (.scope symbol.scope special.inTemplate)
    pure id

/-- Declare what a template is for exactly these arguments. -/
def addExplicitSpecialization (template : SymbolId) (args : List Descriptor) (id : SymbolId) :
    Analysis SymbolId := do
  let table ← get
  let entity := table.canonical template
  match table.templated? entity with
  | none => fail (.badTypeInfo (table.symbol entity).name)
  | some templated =>
      if (table.symbol templated).type.kind.isClass && table.declClass id ≠ .tag then
        specializeMember entity args id
      else specializeTemplate entity args id

end Analysis

end NameBinding
