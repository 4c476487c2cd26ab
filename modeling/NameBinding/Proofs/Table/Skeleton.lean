import NameBinding.Proofs.Lookup.Outcome
import NameBinding.Proofs.Table.Entities

/-!
# Tables that differ in lists of bases or using-directives

What a declaration is and what one scope answers does not depend on base classes and using-directives, so
that tables with the same skeleton, which is all but these, agree on it.

* `Symbol.skeleton`: a symbol without its bases and using-directives.
* `Table.SameSkeleton`: the tables have the same symbols, apart from bases and using-directives.
* `Filter.Agrees`: the filter does not tell the two tables apart.  The filters other than an arbitrary
  predicate never do.

The main statements are `SameSkeleton.scopeHits_eq`, by which scopes give the same answers, and
`SameSkeleton.settle_eq`, by which these amount to the same.
-/

namespace NameBinding

/-- What a symbol holds, without bases and using-directives. -/
def Payload.skeleton : Payload → Payload
  | .container decls => .container { decls with directives := [] }
  | .cls data => .cls { data with decls := { data.decls with directives := [] }, parents := [] }
  | .function data => .function { data with decls := { data.decls with directives := [] } }
  | .template data => .template { data with decls := { data.decls with directives := [] } }
  | .basic => .basic
  | .placeholder use => .placeholder use

/-- A symbol without bases and using-directives. -/
def Symbol.skeleton (symbol : Symbol) : Symbol := { symbol with payload := symbol.payload.skeleton }

/-- The filter judges the symbols of both tables alike. -/
def Filter.Agrees (table other : Table) : Filter → Prop
  | .predicate accepts => ∀ id, accepts (other.symbol id) = accepts (table.symbol id)
  | _ => True

namespace Table

variable {table other : Table}

/-- The tables differ in bases and using-directives at most. -/
structure SameSkeleton (table other : Table) : Prop where
  config : other.config = table.config
  size : other.size = table.size
  symbols : ∀ id, (other.symbol id).skeleton = (table.symbol id).skeleton

namespace SameSkeleton

theorem refl (table : Table) : table.SameSkeleton table := ⟨rfl, rfl, fun _ => rfl⟩

theorem symm (same : table.SameSkeleton other) : other.SameSkeleton table :=
  ⟨same.config.symm, same.size.symm, fun id => (same.symbols id).symm⟩

variable (same : table.SameSkeleton other)

include same

theorem ids_eq : other.ids = table.ids := by rw [ids, ids, same.size]

/-! ## What declarations are -/

/-- Whatever is read from the skeleton is the same. -/
theorem read {α : Type} (reader : Symbol → α)
    (blind : ∀ symbol : Symbol, reader symbol.skeleton = reader symbol) (id : SymbolId) :
    reader (other.symbol id) = reader (table.symbol id) := by
  rw [← blind (other.symbol id), ← blind (table.symbol id), same.symbols id]

theorem type_eq (id : SymbolId) : (other.symbol id).type = (table.symbol id).type :=
  same.read Symbol.type (fun _ => rfl) id

theorem scope_eq (id : SymbolId) : (other.symbol id).scope = (table.symbol id).scope :=
  same.read Symbol.scope (fun _ => rfl) id

theorem name_eq (id : SymbolId) : (other.symbol id).name = (table.symbol id).name :=
  same.read Symbol.name (fun _ => rfl) id

theorem isTemplate_eq (id : SymbolId) :
    (other.symbol id).isTemplate = (table.symbol id).isTemplate := by
  refine same.read Symbol.isTemplate (fun symbol => ?_) id
  obtain ⟨_, _, _, _, _, _, _, _, _, payload⟩ := symbol
  cases payload <;> rfl

theorem sameEntities : table.SameEntities other where
  size := same.size
  type := same.type_eq
  aliasOf := same.read Symbol.aliasOf fun _ => rfl
  forwardTarget := same.read Symbol.forwardTarget fun _ => rfl

theorem canonical_eq (id : SymbolId) : other.canonical id = table.canonical id :=
  same.sameEntities.canonical_eq id

theorem flattenType_eq (type : Descriptor) : other.flattenType type = table.flattenType type :=
  same.sameEntities.flattenType_eq type

theorem classOf_eq (id : SymbolId) : other.classOf id = table.classOf id := same.sameEntities.classOf_eq id

theorem templated?_eq (id : SymbolId) : other.templated? id = table.templated? id := by
  refine same.read (fun symbol =>
    symbol.templateData?.bind fun data => (data.decls.get symbol.name).head?) (fun symbol => ?_) id
  obtain ⟨_, _, _, _, _, _, _, _, _, payload⟩ := symbol
  cases payload <;> rfl

theorem declClass_eq (id : SymbolId) : other.declClass id = table.declClass id := by
  have hfunction : ∀ id, other.isFunctionTemplate id = table.isFunctionTemplate id := by
    simp only [isFunctionTemplate, Symbol.isFunction, same.templated?_eq, same.type_eq, implies_true]
  have hclass : ∀ id, other.isClassTemplate id = table.isClassTemplate id := by
    simp only [isClassTemplate, same.templated?_eq, same.type_eq, implies_true]
  rw [declClass, declClass, Symbol.isFunction, Symbol.isFunction, hfunction, hclass, same.canonical_eq,
    same.type_eq]

theorem isPathIndependent_eq (id : SymbolId) :
    other.isPathIndependent id = table.isPathIndependent id := by
  simp only [isPathIndependent, Symbol.isSharedMember, same.type_eq, same.declClass_eq]

/-! ## What a scope answers -/

theorem accepts_eq {filter : Filter} (agrees : filter.Agrees table other) (id : SymbolId) :
    other.accepts filter id = table.accepts filter id := by
  cases filter with
  | predicate accepts => exact agrees id
  | _ => simp only [accepts, isTagTypedef, Symbol.isTypeParameter, Symbol.isTemplateParameter,
      same.type_eq, same.declClass_eq, same.classOf_eq]

theorem scopeHits_eq {query : Query} (exact : query.IsExact)
    (agrees : query.options.filter.Agrees table other) (scope : SymbolId) :
    other.scopeHits query scope = table.scopeHits query scope := by
  have hmembers : other.memberHits query (other.symbol scope) =
      table.memberHits query (table.symbol scope) := by
    simp only [memberHits, exact.not_completing, Bool.false_eq_true, if_false]
    refine congrArg _ (same.read (·.membersNamed query.name) (fun symbol => ?_) scope)
    obtain ⟨_, _, _, _, _, _, _, _, _, payload⟩ := symbol
    cases payload <;> rfl
  have hparameters : other.parameterHits query (other.symbol scope) =
      table.parameterHits query (table.symbol scope) := by
    have hlist : (other.symbol scope).parameters = (table.symbol scope).parameters := by
      refine same.read Symbol.parameters (fun symbol => ?_) scope
      obtain ⟨_, _, _, _, _, _, _, _, _, payload⟩ := symbol
      cases payload <;> rfl
    simp only [parameterHits, nameMatches, exact.whole, hlist, same.name_eq]
  have hrenamed : other.definitionHits query (other.symbol scope) =
      table.definitionHits query (table.symbol scope) := by
    have hlist := same.read (fun symbol => symbol.templateData?.map (·.definitionParameters))
      (fun symbol => by
        obtain ⟨_, _, _, _, _, _, _, _, _, payload⟩ := symbol
        cases payload <;> rfl) scope
    simp only [definitionHits, nameMatches, exact.whole, hlist]
  simp only [scopeHits, hmembers, hparameters, hrenamed, same.accepts_eq agrees, same.canonical_eq]

theorem answers_eq {query : Query} (exact : query.IsExact)
    (agrees : query.options.filter.Agrees table other) (scope : SymbolId) :
    other.answers query scope = table.answers query scope := by
  rw [answers, answers, same.scopeHits_eq exact agrees]

theorem classify_eq (found : List SymbolId) : other.classify found = table.classify found := by
  simp only [classify, declaredIn, same.canonical_eq, same.type_eq, same.scope_eq, same.declClass_eq,
    same.isTemplate_eq]

theorem entities_eq (found : List SymbolId) : other.entities found = table.entities found := by
  rw [entities, entities, same.classify_eq]

theorem settle_eq (name : Name) (found : List SymbolId) :
    other.settle name found = table.settle name found := by
  rw [settle, settle, same.classify_eq, same.entities_eq]

/-! ## Enclosing scopes -/

theorem scopeChainOf_eq (count : Nat) (id : SymbolId) :
    other.scopeChainOf count id = table.scopeChainOf count id := by
  induction count generalizing id with
  | zero => rfl
  | succ count ih =>
      rw [scopeChainOf, scopeChainOf, same.scope_eq]
      cases (table.symbol id).scope with
      | none => rfl
      | some scope => exact congrArg _ (ih scope)

theorem scopeChain_eq (id : SymbolId) : other.scopeChain id = table.scopeChain id := by
  rw [scopeChain, scopeChain, same.size, same.scopeChainOf_eq]

theorem nearestCommonEnclosing_eq (a b : SymbolId) :
    other.nearestCommonEnclosing a b = table.nearestCommonEnclosing a b := by
  rw [nearestCommonEnclosing, nearestCommonEnclosing, same.scopeChain_eq, same.scopeChain_eq]

theorem resolveNamespace_eq (id : SymbolId) : other.resolveNamespace id = table.resolveNamespace id := by
  have hsteps : ∀ steps id, other.resolveNamespaceSteps steps id = table.resolveNamespaceSteps steps id := by
    intro steps
    induction steps with
    | zero => exact fun _ => rfl
    | succ steps ih =>
        intro id
        simp only [resolveNamespaceSteps, same.canonical_eq, same.type_eq, ih]
  rw [resolveNamespace, resolveNamespace, same.size, hsteps]

end SameSkeleton

end Table

end NameBinding
