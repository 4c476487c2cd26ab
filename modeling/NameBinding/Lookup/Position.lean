import NameBinding.Lookup.Associated

/-!
# Lookups at the positions of a program

What a parser asks for: the name of an expression, a qualified name, the name before `::`, the
callee of a call, a constructor, a template-id, or the names that complete a text.  Each reduces the
result of a lookup to what its position needs.
-/

namespace NameBinding

namespace Table

/-- Are all of these functions? -/
def allFunctions (table : Table) (ids : List SymbolId) : Bool :=
  ids.all (table.declClass · == .function)

/-- A lookup that found something other than functions names it directly. -/
def nonFunction (table : Table) (name : Name) (candidates : List SymbolId) :
    Except SemanticError (Option SymbolId) :=
  if table.allFunctions candidates then .ok none
  else
    match candidates with
    | [only] => .ok (some only)
    | _ => .error (.ambiguous name)

/-- Is the declaration a member of a class? -/
def isClassMember (table : Table) (id : SymbolId) : Bool :=
  (table.symbol id).scope.any fun scope => (table.symbol scope).type.kind.isClass

/-- The earlier declarations of a name directly in a scope, against which an out-of-line definition
is matched.  Friends are no members. -/
def membersForDefinition (table : Table) (scope : SymbolId) (name : Name) : List SymbolId :=
  (table.members (table.resolveNamespace scope) name).filter fun id =>
    !(table.symbol id).type.isFriend

end Table

namespace Analysis

/-- Reduce the declarations of a name to one.  An overload set cannot be reduced without argument
types. -/
def resolveSingle (name : Name) (ids : List SymbolId) : Analysis (Option SymbolId) := do
  let table ← get
  match ids with
  | [] => pure none
  | [only] => pure (some only)
  | several =>
      if table.allFunctions several then resolveFunction several none
      else fail (.ambiguous name)

/-- The declaration an identifier refers to. -/
def lookupName (scope : SymbolId) (name : Name) : Analysis (Option SymbolId) := do
  let found ← lookup scope name {}
  resolveSingle name found.symbols

/-- The declaration `qualifier::name` refers to. -/
def qualifiedLookup (qualifier : SymbolId) (name : Name) : Analysis (Option SymbolId) := do
  let found ← lookup qualifier name { qualified := true }
  resolveSingle name found.symbols

/-- The scope that a name before `::` denotes.  Namespace aliases and typedefs of classes are seen
through. -/
def lookupNestedName (scope : SymbolId) (name : Name) (qualified : Bool) :
    Analysis (Option SymbolId) := do
  let found ← lookup scope name { qualified, filter := .scopes }
  let table ← get
  match found.symbols with
  | [] => pure none
  | [only] => pure (some (table.classOf (table.resolveNamespace only)))
  | _ => fail (.ambiguous name)

/-- The function that a call of `name` from `scope` resolves to.  In C++ the argument types
contribute candidates, unless ordinary lookup found a class member or something that is no
function. -/
def lookupFunction (scope : SymbolId) (name : Name) (args : List Descriptor) :
    Analysis (Option SymbolId) := do
  let found ← lookup scope name { arguments := some args }
  let table ← get
  let candidates := found.symbols
  match ← ofExcept (table.nonFunction name candidates) with
  | some single => pure (some single)
  | none => do
      if table.config.isCxx && !candidates.any table.isClassMember then do
        let more ← argumentDependentCandidates name args
        resolveFunction (Search.addNew candidates more) (some args)
      else resolveFunction candidates (some args)

/-- The function that a call of `qualifier::name` resolves to. -/
def qualifiedFunctionLookup (qualifier : SymbolId) (name : Name) (args : List Descriptor) :
    Analysis (Option SymbolId) := do
  let found ← lookup qualifier name { qualified := true, arguments := some args }
  let table ← get
  match ← ofExcept (table.nonFunction name found.symbols) with
  | some single => pure (some single)
  | none => resolveFunction found.symbols (some args)

/-- The constructor of a class that is selected for the arguments. -/
def lookupConstructor (id : SymbolId) (args : List Descriptor) : Analysis (Option SymbolId) := do
  let table ← get
  resolveFunction (table.symbol (table.classOf id)).constructors (some args)

/-- The instance that `name<args…>` denotes.  Among several declarations exactly one must be a
template. -/
def lookupTemplateId (scope : SymbolId) (name : Name) (args : List Descriptor) :
    Analysis (Option SymbolId) := do
  let found ← lookup scope name { keepTemplates := true }
  let table ← get
  match found.symbols, found.symbols.filter fun id => (table.symbol id).isTemplate with
  | [], _ => pure none
  | _, [template] => do
      let made ← instantiate template args
      pure (some made)
  | [_], _ => fail (.badTypeInfo name)
  | _, _ => fail (.unresolvedFunction name)

/-- All visible names that begin with a text, ignoring case. -/
def lookupCompletions (scope : SymbolId) (stem : String) (filter : Filter) :
    Analysis LookupResult := do
  let name ← modifyGet (·.intern stem)
  lookup scope name { completing := true, filter }

end Analysis

end NameBinding
