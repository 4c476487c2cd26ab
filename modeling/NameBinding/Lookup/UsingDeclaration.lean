import NameBinding.Lookup.Basic

/-!
# Using-declarations

`using Q::name;` introduces one alias for each declaration that `Q::name` denotes.  Entities that
are visible in the scope already are skipped, and a second object of the same name is an invalid
overload.  As long as no chain of links runs in a circle, an object is found alone, so that the
conflict comes up before any alias is made.
-/

namespace NameBinding.Analysis

/-- Introduce an alias for one declaration, unless the scope has one already. -/
def introduceAlias (scope : SymbolId) (name : Name) (aliases : List SymbolId) (found : SymbolId) :
    Analysis (List SymbolId) := do
  let table ← get
  let target := table.canonical found
  let existing := (table.members scope name).map table.canonical
  if target ∈ existing then pure aliases
  else if table.declClass target == .object && existing.any (table.declClass · == .object) then
    fail (.invalidOverload name)
  else do
    let made ← create { name, type := (table.symbol target).type, aliasOf := some target }
    insertMember scope made
    pure (aliases ++ [made])

/-- Bring a name of another scope into `scope`, and give the new aliases. -/
def addUsingDeclaration (scope : SymbolId) (name : Name) (qualifier : SymbolId) :
    Analysis (List SymbolId) := do
  let found ← lookup qualifier name { qualified := true, keepTemplates := true }
  if found.entries.isEmpty then fail (.invalidUsing name)
  else found.symbols.foldlM (introduceAlias scope name) []

end NameBinding.Analysis
