import NameBinding.Lookup.Filter
import NameBinding.Text.Lowercase

/-!
# Queries and what one scope answers

A query asks for one name, or in completion mode for all names that begin with a text.  A scope
answers with `Hit`s: its members, the parameters of a function or template, and the names that an
out-of-line definition gives to template parameters.
-/

namespace NameBinding

/-- How a lookup is to be done. -/
structure LookupOptions where
  /-- Search only the starting scope, its bases and the namespaces it nominates. -/
  qualified : Bool := false
  filter : Filter := .any
  /-- Find every name that begins with the given text, ignoring case. -/
  completing : Bool := false
  /-- Do not search above this scope. -/
  stopScope : Option SymbolId := none
  ignoreDirectives : Bool := false
  /-- Keep function templates as they are, even if there are argument types. -/
  keepTemplates : Bool := false
  /-- The argument types of a call. -/
  arguments : Option (List Descriptor) := none

/-- A lookup in progress: what it looks for, and how. -/
structure Query where
  name : Name
  /-- The lowercased beginning that names must have in completion mode. -/
  stem : Option String := none
  options : LookupOptions := {}

namespace Query

/-- Does the query ask for all names with a common beginning? -/
def isCompleting (query : Query) : Bool := query.stem.isSome

end Query

/-- A declaration found under a name. -/
abbrev Hit := Name × SymbolId

namespace Table

/-- Is a name what the query looks for? -/
def nameMatches (table : Table) (query : Query) (name : Name) : Bool :=
  match query.stem with
  | none => name == query.name
  | some stem => !name.isEmpty && Text.startsWith (Text.lowercase (table.spelling name)) stem

/-- The members of a scope that the query looks for. -/
def memberHits (table : Table) (query : Query) (symbol : Symbol) : List Hit :=
  if query.isCompleting then
    (symbol.contents.map fun id => ((table.symbol id).name, id)).filter fun hit =>
      table.nameMatches query hit.1
  else (symbol.membersNamed query.name).map fun id => (query.name, id)

/-- The parameters that the query looks for. -/
def parameterHits (table : Table) (query : Query) (symbol : Symbol) : List Hit :=
  (symbol.parameters.map fun id => ((table.symbol id).name, id)).filter fun hit =>
    table.nameMatches query hit.1

/-- The renamed template parameters that the query looks for, in the order of their names. -/
def definitionHits (table : Table) (query : Query) (symbol : Symbol) : List Hit :=
  let renamed := (symbol.templateData?.map (·.definitionParameters)).getD []
  (renamed.filter fun hit => table.nameMatches query hit.1).mergeSort fun a b =>
    a.1.index ≤ b.1.index

/-- What a scope itself answers.  The filter judges the entity a declaration stands for. -/
def scopeHits (table : Table) (query : Query) (scope : SymbolId) : List Hit :=
  let symbol := table.symbol scope
  (table.memberHits query symbol ++ table.parameterHits query symbol
      ++ table.definitionHits query symbol).filter fun hit =>
    table.accepts query.options.filter (table.canonical hit.2)

end Table

/-- Declarations by name, names in the order in which they were found. -/
abbrev Found := List (Name × List SymbolId)

namespace Found

/-- Add declarations under a name. -/
def add : Found → Name → List SymbolId → Found
  | [], name, ids => [(name, ids)]
  | (key, known) :: rest, name, ids =>
      if key = name then (key, known ++ ids) :: rest else (key, known) :: add rest name ids

/-- Group hits by name. -/
def ofHits (hits : List Hit) : Found := hits.foldl (fun found hit => found.add hit.1 [hit.2]) []

/-- Take over the names of `other` that are not found yet. -/
def fill (found other : Found) : Found :=
  found ++ other.filter fun entry => (found.lookup entry.1).isNone

end Found

namespace Query

/-- Is there nothing more to look for? -/
def isSatisfied (query : Query) (found : Found) : Bool :=
  !query.isCompleting && (found.lookup query.name).isSome

end Query

end NameBinding
