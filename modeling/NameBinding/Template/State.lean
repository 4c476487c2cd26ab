import NameBinding.Descriptor.Basic

/-!
# The state of running instantiations

While a template is copied, a `CopyContext` remembers what its parameters are bound to and which
declarations were copied already.  A substitution that needs something not there yet becomes a
`DeferredWork` item, to be finished when the outermost instantiation has copied everything.

Contexts and queued work live until the outermost instantiation ends; work items refer to their
context by its position.
-/

namespace NameBinding

/-- What template parameters are bound to.  The newest binding of a parameter counts. -/
abbrev Bindings := List (SymbolId × Descriptor)

/-- One template being copied. -/
structure CopyContext where
  /-- The templated declaration. -/
  templated : SymbolId
  /-- The arguments of the template's parameters. -/
  bindings : Bindings
  /-- The copies made so far, by the declaration they were copied from. -/
  copies : List (SymbolId × SymbolId)
  deriving Inhabited

/-- The part of a copied symbol that a queued substitution completes. -/
inductive DeferredPart where
  | parent (position : Nat)
  | returnType
  | type
  deriving DecidableEq, Repr

/-- A substitution that could not finish while its template was copied. -/
structure DeferredWork where
  target : SymbolId
  part : DeferredPart
  type : Descriptor
  /-- The position of the context to substitute in. -/
  context : Nat

/-- All running instantiations. -/
structure InstantiationState where
  /-- How many copies are being made inside each other. -/
  depth : Nat := 0
  /-- Queued work, oldest first. -/
  queue : List DeferredWork := []
  contexts : Array CopyContext := #[]
  deriving Inhabited

end NameBinding
