import NameBinding.Table.Identity

/-!
# Enclosing scopes

* `scopeChain` lists a declaration and its enclosing scopes, innermost first.
* `nearestCommonEnclosing` is the innermost scope on two chains.
* `resolveNamespace` follows namespace aliases.
-/

namespace NameBinding.Table

/-- The first `count` links of the chain of enclosing scopes. -/
def scopeChainOf (table : Table) : Nat → SymbolId → List SymbolId
  | 0, _ => []
  | count + 1, id =>
      id :: match (table.symbol id).scope with
        | some scope => scopeChainOf table count scope
        | none => []

/-- A declaration followed by its enclosing scopes, innermost first.  No scope contains itself, so
no chain is longer than the table and the starting point together. -/
def scopeChain (table : Table) (id : SymbolId) : List SymbolId :=
  table.scopeChainOf (table.size + 1) id

/-- The number of scopes around a declaration. -/
def depth (table : Table) (id : SymbolId) : Nat := (table.scopeChain id).length - 1

/-- Is `inner` the same as `outer`, or declared inside it at any depth? -/
def isWithin (table : Table) (inner outer : SymbolId) : Bool :=
  (table.scopeChain inner).contains outer

/-- The innermost scope that encloses both declarations.  The longer chain is cut to the length of
the shorter one, and the first place where the two agree counts; chains that never meet share only
the global scope. -/
def nearestCommonEnclosing (table : Table) (a b : SymbolId) : SymbolId :=
  let chainA := table.scopeChain a
  let chainB := table.scopeChain b
  let level := (chainA.drop (chainA.length - chainB.length)).zip
    (chainB.drop (chainB.length - chainA.length))
  match level.find? fun pair => pair.1 = pair.2 with
  | some pair => pair.1
  | none => globalScope

/-- Follow at most `steps` namespace aliases. -/
def resolveNamespaceSteps (table : Table) : Nat → SymbolId → SymbolId
  | 0, id => id
  | steps + 1, id =>
      let type := (table.symbol (table.canonical id)).type
      match type.link with
      | some target =>
          if type.kind = .nspace ∧ target ≠ id then resolveNamespaceSteps table steps target
          else table.canonical id
      | none => table.canonical id

/-- The namespace a namespace alias names in the end. -/
def resolveNamespace (table : Table) (id : SymbolId) : SymbolId :=
  table.resolveNamespaceSteps table.size id

/-- The innermost namespace around a declaration. -/
def enclosingNamespace? (table : Table) (id : SymbolId) : Option SymbolId :=
  (table.scopeChain id).tail.find? fun scope => (table.symbol scope).type.kind = .nspace

end NameBinding.Table
