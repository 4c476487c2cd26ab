import NameBinding.Proofs.Symbol.Mentions
import NameBinding.Proofs.Table.Links
import NameBinding.Table.Attach

/-!
# Declaring one entity again and again

A class or a function may be declared any number of times and defined once, in any order.  The
declarations are added to a scope one after another, and each new one is linked with the earlier ones.

* `OneEntity table name ids`: the declarations `ids` all declare one class, or all declare one
  function, and none of them is in use.
* `Linked table ids after`: since `table`, nothing has changed but scopes, members and links among
  `ids`.  Among such declarations the redeclaration rules come down to `completeForward`.
* `Progress`: what holds once some of the declarations were added; one more is `Progress.step`, and
  all of them `Progress.run`.

The main statement is `addSymbol_one_entity`: afterwards all declarations stand for one symbol, which
is the definition if there is one.  A forward declaration is always accepted.  The definition is
accepted if at most one forward declaration stands before it; after two or more it is rejected,
although the others stand for it from then on.
-/

namespace NameBinding

/-! ## What adding a declaration leaves alone -/

/-- Two symbols that differ at most in their scope, their members and their forward target. -/
structure Symbol.SameHead (a b : Symbol) : Prop where
  name : a.name = b.name
  type : a.type = b.type
  aliasOf : a.aliasOf = b.aliasOf
  isTemplate : a.isTemplate = b.isTemplate
  parameters : a.parameters = b.parameters
  returnType : a.returnType = b.returnType
  varargs : a.varargs = b.varargs
  holdsMembers : a.holdsMembers = b.holdsMembers

namespace Symbol.SameHead

theorem refl (symbol : Symbol) : symbol.SameHead symbol := ⟨rfl, rfl, rfl, rfl, rfl, rfl, rfl, rfl⟩

theorem trans {a b c : Symbol} (first : a.SameHead b) (second : b.SameHead c) : a.SameHead c where
  name := first.name.trans second.name
  type := first.type.trans second.type
  aliasOf := first.aliasOf.trans second.aliasOf
  isTemplate := first.isTemplate.trans second.isTemplate
  parameters := first.parameters.trans second.parameters
  returnType := first.returnType.trans second.returnType
  varargs := first.varargs.trans second.varargs
  holdsMembers := first.holdsMembers.trans second.holdsMembers

theorem mapDecls (change : Declarations → Declarations) (symbol : Symbol) :
    (symbol.mapDecls change).SameHead symbol := by
  obtain ⟨name, scope, type, inTemplate, access, target, named, origin, link, payload⟩ := symbol
  cases payload <;> exact ⟨rfl, rfl, rfl, rfl, rfl, rfl, rfl, rfl⟩

end Symbol.SameHead

/-- A type built on a typedef names what the typedef names. -/
theorem Descriptor.link_substituteBase (use replacement : Descriptor) :
    (use.substituteBase replacement).link = replacement.link := by
  simp only [substituteBase, withTopCv, setTopCv, setBaseCv]
  split <;> rfl

/-- The template arguments come with the base. -/
theorem Descriptor.templateArgs_substituteBase (use replacement : Descriptor) :
    (use.substituteBase replacement).templateArgs = replacement.templateArgs := by
  simp only [substituteBase, withTopCv, setTopCv, setBaseCv]
  split <;> rfl

namespace Table

variable {table after : Table} {scope id old new x : SymbolId} {name : Name}
  {ids done : List SymbolId}

/-- Make a declaration a member of a scope. -/
def enroll (table : Table) (scope id : SymbolId) : Table :=
  (table.perform id (.assign (.scope (some scope)
      ((table.symbol scope).isTemplate || (table.symbol scope).inTemplate)))).perform scope
    (.insertMember (table.symbol id).name id)

@[simp]
theorem size_enroll (table : Table) (scope id : SymbolId) :
    (table.enroll scope id).size = table.size := by
  simp [enroll]

theorem sameHead_perform_scope (table : Table) (id x : SymbolId) (outer : Option SymbolId)
    (inside : Bool) :
    ((table.perform id (.assign (.scope outer inside))).symbol x).SameHead (table.symbol x) := by
  rw [symbol_perform]
  split
  · exact ⟨rfl, rfl, rfl, rfl, rfl, rfl, rfl, rfl⟩
  · exact .refl _

theorem sameHead_enroll (table : Table) (scope id x : SymbolId) :
    ((table.enroll scope id).symbol x).SameHead (table.symbol x) := by
  have hscope := sameHead_perform_scope table id x (some scope)
    ((table.symbol scope).isTemplate || (table.symbol scope).inTemplate)
  rw [enroll, symbol_perform]
  split
  · exact (Symbol.SameHead.mapDecls _ _).trans hscope
  · exact hscope

theorem sameHead_link (table : Table) (pair : SymbolId × SymbolId) (x : SymbolId) :
    ((table.link pair).symbol x).SameHead (table.symbol x) := by
  rw [symbol_link]
  split
  · exact ⟨rfl, rfl, rfl, rfl, rfl, rfl, rfl, rfl⟩
  · exact .refl _

theorem forwardTarget_mapDecls (change : Declarations → Declarations) (symbol : Symbol) :
    (symbol.mapDecls change).forwardTarget = symbol.forwardTarget := by
  obtain ⟨name, scope, type, inTemplate, access, target, named, origin, link, payload⟩ := symbol
  cases payload <;> rfl

theorem forwardTarget_enroll (table : Table) (scope id x : SymbolId) :
    ((table.enroll scope id).symbol x).forwardTarget = (table.symbol x).forwardTarget := by
  have hscope : ∀ outer inside,
      ((table.perform id (.assign (.scope outer inside))).symbol x).forwardTarget =
        (table.symbol x).forwardTarget := by
    intro outer inside
    rw [symbol_perform]
    split <;> rfl
  rw [enroll, symbol_perform]
  split
  · exact (forwardTarget_mapDecls _ _).trans (hscope _ _)
  · exact hscope _ _

theorem nextLink_enroll (table : Table) (scope id x : SymbolId) :
    (table.enroll scope id).nextLink x = table.nextLink x :=
  nextLink_of_symbol_eq (sameHead_enroll table scope id x).aliasOf
    (forwardTarget_enroll table scope id x)

theorem lt_size_of_holdsMembers (holds : (table.symbol scope).holdsMembers = true) :
    scope.index < table.size :=
  lt_size_of_symbol (·.holdsMembers) rfl holds

/-- Links and scopes are no members. -/
theorem members_link (table : Table) (pair : SymbolId × SymbolId) (scope : SymbolId) (name : Name) :
    (table.link pair).members scope name = table.members scope name := by
  rw [members, members, symbol_link]
  split <;> rfl

/-- What is inserted into a scope is inserted where its members were before. -/
theorem exists_symbol_enroll (holds : (table.symbol scope).holdsMembers = true) (id : SymbolId) :
    ∃ inside : Symbol, inside.holdsMembers = true ∧ inside.decls? = (table.symbol scope).decls? ∧
      (table.enroll scope id).symbol scope = inside.mapDecls (·.insert (table.symbol id).name id) := by
  have hlt := lt_size_of_holdsMembers holds
  have hinside := (sameHead_perform_scope table id scope (some scope)
    ((table.symbol scope).isTemplate || (table.symbol scope).inTemplate)).holdsMembers.trans holds
  refine ⟨_, hinside, ?_, ?_⟩
  · rw [symbol_perform]
    split <;> rfl
  · rw [enroll, symbol_perform, if_pos ⟨rfl, by simpa using hlt⟩]
    rfl

theorem members_enroll (holds : (table.symbol scope).holdsMembers = true) (id : SymbolId)
    (name : Name) :
    (table.enroll scope id).members scope name =
      if name = (table.symbol id).name then table.members scope name ++ [id]
      else table.members scope name := by
  obtain ⟨inside, hinside, hdecls, henrolled⟩ := exists_symbol_enroll holds id
  have hmembers : inside.membersNamed name = table.members scope name := by
    rw [members, Symbol.membersNamed, Symbol.membersNamed, hdecls]
  rw [members, henrolled, Symbol.membersNamed_insert hinside, hmembers]

/-- A scope that can have members gets one more. -/
theorem contents_enroll (holds : (table.symbol scope).holdsMembers = true) (id : SymbolId) :
    ((table.enroll scope id).symbol scope).contents = (table.symbol scope).contents ++ [id] := by
  obtain ⟨inside, hinside, hdecls, henrolled⟩ := exists_symbol_enroll holds id
  rw [henrolled, Symbol.contents_insert hinside, Symbol.contents, Symbol.contents, hdecls]

/-! ## Declarations of one entity -/

/-- The declarations all declare one class, or all declare one enumeration. -/
structure OneTag (table : Table) (ids : List SymbolId) : Prop where
  isTag : ∀ id ∈ ids, (table.symbol id).type.kind.isClassOrEnum = true ∧
    (table.symbol id).type.isTypedef = false
  sameCategory : ∀ a ∈ ids, ∀ b ∈ ids,
    ((table.symbol a).type.kind == .enumeration) = ((table.symbol b).type.kind == .enumeration)

/-- The declarations all declare one function, and nothing names them or stands for them. -/
structure OneFunction (table : Table) (ids : List SymbolId) : Prop where
  isFunction : ∀ id ∈ ids, (table.symbol id).isFunction = true
  sameParameters : ∀ a ∈ ids, ∀ b ∈ ids, table.hasSameParameters a b = true
  sameReturnType : ∀ a ∈ ids, ∀ b ∈ ids, ∀ typeA typeB,
    (table.symbol a).returnType = some typeA → (table.symbol b).returnType = some typeB →
      (table.flattenType typeA).same (table.flattenType typeB) = true
  noType : ∀ x, ∀ id ∈ ids, (table.symbol x).type.link ≠ some id
  noReturnType : ∀ x, ∀ type, (table.symbol x).returnType = some type →
    ∀ id ∈ ids, type.link ≠ some id
  noLink : ∀ x ∉ ids, ∀ id ∈ ids, table.nextLink x ≠ some id

/-- Declarations of one entity that is no template.  They stand for nothing yet, and at most one of
them is a definition. -/
structure OneEntity (table : Table) (name : Name) (ids : List SymbolId) : Prop where
  nodup : ids.Nodup
  lt_size : ∀ id ∈ ids, id.index < table.size
  named : ∀ id ∈ ids, (table.symbol id).name = name
  isNamed : name.isEmpty = false
  noTemplate : ∀ id ∈ ids, (table.symbol id).isTemplate = false
  noAlias : ∀ id ∈ ids, (table.symbol id).aliasOf = none
  unlinked : ∀ id ∈ ids, (table.symbol id).forwardTarget = none
  oneDefinition : ∀ a ∈ ids, ∀ b ∈ ids, (table.symbol a).type.isForward = false →
    (table.symbol b).type.isForward = false → a = b
  entity : table.OneTag ids ∨ table.OneFunction ids

/-- Since `table`, nothing has changed but scopes, members and links among `ids`. -/
structure Linked (table : Table) (ids : List SymbolId) (after : Table) : Prop where
  size_eq : after.size = table.size
  heads : ∀ x, (after.symbol x).SameHead (table.symbol x)
  outside : ∀ x ∉ ids, (after.symbol x).forwardTarget = (table.symbol x).forwardTarget
  inside : ∀ x ∈ ids, ∀ next, after.nextLink x = some next → next ∈ ids

namespace Linked

theorem refl (entity : table.OneEntity name ids) : table.Linked ids table where
  size_eq := rfl
  heads := fun x => .refl _
  outside := fun _ _ => rfl
  inside := by
    intro x hx next hnext
    simp [nextLink, entity.noAlias x hx, entity.unlinked x hx] at hnext

theorem enroll (linked : table.Linked ids after) (scope id : SymbolId) :
    table.Linked ids (after.enroll scope id) where
  size_eq := (size_enroll after scope id).trans linked.size_eq
  heads := fun x => (sameHead_enroll after scope id x).trans (linked.heads x)
  outside := fun x hx => (forwardTarget_enroll after scope id x).trans (linked.outside x hx)
  inside := fun x hx next hnext => linked.inside x hx next (nextLink_enroll after scope id x ▸ hnext)

theorem link (linked : table.Linked ids after) {target : SymbolId} (source : id ∈ ids)
    (goal : target ∈ ids) : table.Linked ids (after.link (id, target)) where
  size_eq := (size_link after _).trans linked.size_eq
  heads := fun x => (sameHead_link after _ x).trans (linked.heads x)
  outside := by
    intro x hx
    have hne : x ≠ id := by
      rintro rfl
      exact hx source
    rw [symbol_link_of_ne after hne, linked.outside x hx]
  inside := by
    intro x hx next hnext
    by_cases hsame : x = id
    · subst hsame
      simp only [nextLink, symbol_link] at hnext
      split at hnext
      · -- An alias stays one; anything else stands for the target now.
        cases hnamed : (after.symbol x).aliasOf with
        | none =>
            simp [hnamed, Option.filter_eq_some_iff] at hnext
            exact hnext.1 ▸ goal
        | some named =>
            refine linked.inside x hx next ?_
            simpa [nextLink, hnamed] using hnext
      · exact linked.inside x hx next hnext
    · rw [nextLink_link_of_ne hsame] at hnext
      exact linked.inside x hx next hnext

/-- What one of the declarations stands for is one of them. -/
theorem canonical_mem (linked : table.Linked ids after) (member : id ∈ ids) :
    after.canonical id ∈ ids := by
  have hfollow : ∀ steps x, x ∈ ids → after.followLinks steps x ∈ ids := by
    intro steps
    induction steps with
    | zero => exact fun x hx => hx
    | succ steps ih =>
        intro x hx
        simp only [followLinks]
        split
        · exact ih _ (linked.inside x hx _ ‹_›)
        · exact hx
  exact hfollow _ id member

/-! ### Signatures

The types of parameters and return values do not lead to the declarations, and so the links among
them do not show in a flattened type. -/

theorem nextLink_outside (linked : table.Linked ids after) (outside : x ∉ ids) :
    after.nextLink x = table.nextLink x :=
  nextLink_of_symbol_eq (linked.heads x).aliasOf (linked.outside x outside)

section Function

variable (linked : table.Linked ids after) (function : table.OneFunction ids)

include linked function

theorem canonical_outside (outside : x ∉ ids) :
    after.canonical x = table.canonical x ∧ table.canonical x ∉ ids := by
  have hfollow : ∀ steps x, x ∉ ids →
      after.followLinks steps x = table.followLinks steps x ∧ table.followLinks steps x ∉ ids := by
    intro steps
    induction steps with
    | zero => exact fun x hx => ⟨rfl, hx⟩
    | succ steps ih =>
        intro x hx
        simp only [followLinks, linked.nextLink_outside hx]
        cases hnext : table.nextLink x with
        | none => exact ⟨rfl, hx⟩
        | some next =>
            exact ih next fun inside => function.noLink x hx next inside hnext
  rw [canonical, canonical, linked.size_eq]
  exact hfollow _ x outside

theorem flattenSteps_eq (steps : Nat) (type : Descriptor)
    (outside : ∀ id ∈ ids, type.link ≠ some id) :
    after.flattenSteps steps type = table.flattenSteps steps type := by
  induction steps generalizing type with
  | zero => rfl
  | succ steps ih =>
      simp only [flattenSteps]
      cases hlink : type.link with
      | none => rfl
      | some link =>
          have hlinkOutside : link ∉ ids := fun inside => outside link inside hlink
          obtain ⟨hcanonical, -⟩ := linked.canonical_outside function hlinkOutside
          simp only [hcanonical, (linked.heads _).type]
          split
          · rfl
          · split
            · rfl
            · -- The typedef's own type names none of the declarations either.
              refine ih _ fun id member => ?_
              rw [Descriptor.link_substituteBase]
              exact function.noType (table.canonical link) id member

theorem flattenType_eq (type : Descriptor) (outside : ∀ id ∈ ids, type.link ≠ some id) :
    after.flattenType type = table.flattenType type := by
  rw [flattenType, flattenType, linked.size_eq]
  exact linked.flattenSteps_eq function _ type outside

theorem signature_eq (id : SymbolId) : after.signature id = table.signature id := by
  have hadjusted : ∀ parameter,
      after.adjustedParameter (after.symbol parameter).type =
        table.adjustedParameter (table.symbol parameter).type := by
    intro parameter
    have hflat := linked.flattenType_eq function (table.symbol parameter).type
      (function.noType parameter)
    rw [(linked.heads parameter).type, adjustedParameter, adjustedParameter, hflat]
  simp only [signature, (linked.heads id).parameters, (linked.heads _).type]
  simp only [(linked.heads _).type] at hadjusted
  simp only [hadjusted]

end Function

/-! ### The verdict -/

variable (linked : table.Linked ids after) (entity : table.OneEntity name ids)

include linked entity

theorem isTemplate_eq_false (member : id ∈ ids) : (after.symbol id).isTemplate = false :=
  (linked.heads id).isTemplate.trans (entity.noTemplate id member)

theorem templated?_eq_none (member : id ∈ ids) : after.templated? id = none := by
  have hplain := linked.isTemplate_eq_false entity member
  have hdata : (after.symbol id).templateData? = none := by
    simpa [Symbol.isTemplate] using hplain
  simp [templated?, hdata]

theorem isForwardDeclaration_eq (member : id ∈ ids) :
    after.isForwardDeclaration id = (table.symbol id).type.isForward := by
  simp [isForwardDeclaration, linked.isTemplate_eq_false entity member, (linked.heads id).type]

/-- Among declarations of one entity only forward declaration and definition count. -/
theorem redeclare_eq (before : old ∈ ids) (added : new ∈ ids) :
    after.redeclare old new = after.completeForward old new := by
  have hold := linked.canonical_mem before
  have hnew := linked.canonical_mem added
  rcases entity.entity with tag | function
  · have hclass : ∀ id ∈ ids, after.declClass id = .tag := by
      intro id member
      have hentity := linked.canonical_mem member
      obtain ⟨hkind, htypedef⟩ := tag.isTag _ hentity
      have hno := linked.templated?_eq_none entity hentity
      have hfunction : (after.symbol (after.canonical id)).isFunction = false := by
        rw [Symbol.isFunction, (linked.heads _).type]
        cases hk : (table.symbol (after.canonical id)).type.kind <;>
          simp [hk, BaseKind.isClassOrEnum, BaseKind.isClass] at hkind ⊢
      simp [declClass, hfunction, isFunctionTemplate, hno, (linked.heads _).type, hkind, htypedef]
    have hcategory := tag.sameCategory old before new added
    simp [redeclare, hclass old before, hclass new added, redeclareTag, (linked.heads _).aliasOf,
      entity.noAlias old before, entity.noAlias new added,
      linked.isTemplate_eq_false entity before, linked.isTemplate_eq_false entity added,
      (linked.heads _).type, hcategory]
  · have hclass : ∀ id ∈ ids, after.declClass id = .function := by
      intro id member
      have hfunction : (after.symbol (after.canonical id)).isFunction = true := by
        rw [Symbol.isFunction, (linked.heads _).type]
        exact function.isFunction _ (linked.canonical_mem member)
      simp [declClass, hfunction]
    -- The entities that the two stand for now had the same parameters from the start.
    have hsame : after.hasSameParameters old new = true := by
      have hbefore := function.sameParameters _ hold _ hnew
      have hself : ∀ id ∈ ids, table.canonical id = id := by
        intro id member
        refine canonical_of_nextLink_none ?_
        simp [nextLink, entity.noAlias id member, entity.unlinked id member]
      simp only [hasSameParameters, hself _ hold, hself _ hnew] at hbefore
      simp only [hasSameParameters, (linked.heads _).type, (linked.heads _).varargs,
        linked.signature_eq function]
      exact hbefore
    have hreturn : ∀ typeA typeB, (after.symbol old).returnType = some typeA →
        (after.symbol new).returnType = some typeB →
        (after.flattenType typeA).same (after.flattenType typeB) = true := by
      intro typeA typeB hA hB
      rw [(linked.heads _).returnType] at hA hB
      rw [linked.flattenType_eq function typeA (function.noReturnType old typeA hA),
        linked.flattenType_eq function typeB (function.noReturnType new typeB hB)]
      exact function.sameReturnType old before new added typeA typeB hA hB
    simp only [redeclare, hclass old before, hclass new added, redeclareFunction,
      linked.isTemplate_eq_false entity before, linked.isTemplate_eq_false entity added,
      linked.isTemplate_eq_false entity hold, hsame, Bool.or_false, Bool.not_true]
    split
    · simp_all
    · split
      · rename_i typeA typeB hA hB
        rw [if_pos (hreturn typeA typeB hA hB)]
      · rfl

end Linked

/-! ## One declaration after another -/

/-- The symbol that declarations of one entity stand for: the definition, or else the first one. -/
def entityOf (table : Table) (ids : List SymbolId) : SymbolId :=
  (ids.find? fun id => !(table.symbol id).type.isForward).getD (ids.headD default)

theorem entityOf_append_forward (nonempty : done ≠ [])
    (forward : (table.symbol id).type.isForward = true) :
    table.entityOf (done ++ [id]) = table.entityOf done := by
  cases done with
  | nil => exact absurd rfl nonempty
  | cons first rest =>
      simp only [entityOf, List.find?_append, List.find?_cons, forward, List.cons_append]
      split <;> simp

theorem entityOf_append_definition
    (forwards : ∀ x ∈ done, (table.symbol x).type.isForward = true)
    (definition : (table.symbol id).type.isForward = false) :
    table.entityOf (done ++ [id]) = id := by
  have hnone : done.find? (fun id => !(table.symbol id).type.isForward) = none := by
    simp only [List.find?_eq_none]
    intro x member
    simp [forwards x member]
  simp [entityOf, List.find?_append, hnone, definition]

theorem entityOf_forwards {first : SymbolId} {rest : List SymbolId}
    (forwards : ∀ x ∈ first :: rest, (table.symbol x).type.isForward = true) :
    table.entityOf (first :: rest) = first := by
  have hnone : (first :: rest).find? (fun id => !(table.symbol id).type.isForward) = none := by
    simp only [List.find?_eq_none]
    intro x member
    simp [forwards x member]
  simp [entityOf, hnone]

/-- The declarations `done` have been linked, and all stand for one of them. -/
structure Joined (table : Table) (ids done : List SymbolId) (after : Table) : Prop where
  linked : table.Linked ids after
  done_ids : ∀ x ∈ done, x ∈ ids
  closed : ∀ x ∈ done, ∀ next, after.nextLink x = some next → next ∈ done
  waiting : ∀ x ∈ ids, x ∉ done → (after.symbol x).forwardTarget = none
  stands : ∀ x ∈ done, after.Stands x (table.entityOf done)

/-- What holds after the declarations `done` were added to `scope`, whether or not all of them were
accepted. -/
structure Progress (table : Table) (scope : SymbolId) (name : Name) (ids done : List SymbolId)
    (after : Table) : Prop extends table.Joined ids done after where
  holds : (after.symbol scope).holdsMembers = true
  members_done : ∀ member ∈ after.members scope name, member ∈ done
  members_ne_nil : done ≠ [] → after.members scope name ≠ []
  /-- Before the definition comes, all declarations are members, and all but the first are linked. -/
  forwards : (∀ x ∈ done, (table.symbol x).type.isForward = true) →
    after.members scope name = done ∧
      ∀ first rest, done = first :: rest → (after.symbol first).forwardTarget = none ∧
        ∀ x ∈ rest, (after.symbol x).forwardTarget ≠ none

theorem Joined.enroll (joined : table.Joined ids done after) (scope id : SymbolId) :
    table.Joined ids done (after.enroll scope id) where
  linked := joined.linked.enroll scope id
  done_ids := joined.done_ids
  closed := fun x hx next hnext => joined.closed x hx next (nextLink_enroll after scope id x ▸ hnext)
  waiting := fun x hx hwaiting =>
    (forwardTarget_enroll after scope id x).trans (joined.waiting x hx hwaiting)
  stands := fun x hx => (joined.stands x hx).congr fun y _ => nextLink_enroll after scope id y

/-! ### Links of one new declaration -/

theorem lastTarget_of_new (new x : SymbolId) (olds : List SymbolId) :
    lastTarget x (olds.map fun old => (new, old)) = if new = x then olds.getLast? else none := by
  induction olds with
  | nil => simp [lastTarget]
  | cons old rest ih =>
      rw [List.map_cons, lastTarget, ih]
      by_cases hsame : new = x
      · cases hlast : rest.getLast? with
        | none => simp [hsame, hlast, List.getLast?_cons]
        | some last => simp [hsame, hlast, List.getLast?_cons]
      · simp [hsame]

/-- Link a new declaration to earlier ones, one after another. -/
def linkTo (table : Table) (new : SymbolId) (olds : List SymbolId) : Table :=
  (olds.map fun old => (new, old)).foldl link table

theorem symbol_linkTo_of_ne (table : Table) (olds : List SymbolId) (differs : x ≠ new) :
    (table.linkTo new olds).symbol x = table.symbol x := by
  have hafter := getElem?_linkAll (olds.map fun old => (new, old)) table x
  rw [lastTarget_of_new, if_neg differs.symm] at hafter
  simp only [linkTo, Table.symbol, Array.getD_eq_getD_getElem?, hafter, Option.none_or,
    Option.map_id']

theorem nextLink_linkTo_of_ne (table : Table) (olds : List SymbolId) (differs : x ≠ new) :
    (table.linkTo new olds).nextLink x = table.nextLink x := by
  rw [nextLink, nextLink, symbol_linkTo_of_ne table olds differs]

/-- In the end the new declaration stands for the newest of the earlier ones. -/
theorem forwardTarget_linkTo (lt : new.index < table.size)
    (unlinked : (table.symbol new).forwardTarget = none) (olds : List SymbolId) :
    ((table.linkTo new olds).symbol new).forwardTarget = olds.getLast? := by
  rw [linkTo, forwardTarget_linkAll _ lt, lastTarget_of_new, if_pos rfl, unlinked, Option.or_none]

theorem members_linkTo (table : Table) (new : SymbolId) (olds : List SymbolId) (scope : SymbolId)
    (name : Name) : (table.linkTo new olds).members scope name = table.members scope name := by
  induction olds generalizing table with
  | nil => rfl
  | cons old rest ih => exact (ih (table.link (new, old))).trans (members_link table _ scope name)

theorem Linked.linkTo (linked : table.Linked ids after) (added : new ∈ ids) {olds : List SymbolId}
    (members : ∀ old ∈ olds, old ∈ ids) : table.Linked ids (after.linkTo new olds) := by
  induction olds generalizing after with
  | nil => exact linked
  | cons old rest ih =>
      have hlinked := linked.link added (members old List.mem_cons_self)
      exact ih hlinked fun other later => members other (List.mem_cons_of_mem old later)

end Table

namespace Analysis

open Table

variable {table after : Table} {scope new : SymbolId} {name : Name} {ids done : List SymbolId}

theorem insertMember_apply (holds : (table.symbol scope).holdsMembers = true) (id : SymbolId) :
    insertMember scope id table = .ok () (table.enroll scope id) := by
  simp only [insertMember, bind, EStateM.bind, get, getThe, MonadStateOf.get, EStateM.get, holds]
  rfl

theorem insertMember_eq_ok {id : SymbolId} {done : Unit} (ends : insertMember scope id table = .ok done after) :
    (table.symbol scope).holdsMembers = true ∧ after = table.enroll scope id := by
  by_cases holds : (table.symbol scope).holdsMembers = true
  · rw [insertMember_apply holds] at ends
    cases ends
    exact ⟨holds, rfl⟩
  · rw [insertMember, get_bind] at ends
    rw [if_neg holds] at ends
    cases ends

/-- A named declaration is checked and then made a member. -/
theorem addSymbol_apply (holds : (table.symbol scope).holdsMembers = true)
    (named : (table.symbol new).name.isEmpty = false) :
    addSymbol scope new table =
      (checkRedeclaration scope new >>= fun _ => insertMember scope new) table := by
  simp only [addSymbol, bind, EStateM.bind, get, getThe, MonadStateOf.get, EStateM.get, holds,
    named]
  rfl

theorem forM_cons {α : Type} (step : α → Analysis PUnit) (first : α) (rest : List α)
    (table : Table) :
    (first :: rest).forM step table = (step first >>= fun _ => rest.forM step) table :=
  rfl

/-- A forward declaration is linked to every earlier declaration in turn, and none conflicts. -/
theorem forM_redeclare_forward (linked : table.Linked ids after)
    (entity : table.OneEntity name ids) (added : new ∈ ids)
    (forward : (table.symbol new).type.isForward = true) {olds : List SymbolId}
    (members : ∀ old ∈ olds, old ∈ ids ∧ old ≠ new) :
    (olds.forM fun old => if old = new then pure () else redeclare old new name) after =
      .ok () (after.linkTo new olds) := by
  induction olds generalizing after with
  | nil => rfl
  | cons old rest ih =>
      obtain ⟨hold, hne⟩ := members old List.mem_cons_self
      have hverdict : after.redeclare old new = .link new old := by
        rw [linked.redeclare_eq entity hold added, completeForward,
          linked.isForwardDeclaration_eq entity added, forward]
        rfl
      have hstep := redeclare_apply old new name after
      rw [hverdict] at hstep
      have hrest := ih (linked.link added hold) fun other later =>
        members other (List.mem_cons_of_mem old later)
      rw [forM_cons, if_neg hne, bind_ok hstep, hrest]
      rfl

/-- A definition completes the first forward declaration.  A second one is completed already. -/
theorem forM_redeclare_definition (linked : table.Linked ids after)
    (entity : table.OneEntity name ids) (added : new ∈ ids)
    (definition : (table.symbol new).type.isForward = false) {first : SymbolId}
    {rest : List SymbolId} (members : ∀ old ∈ first :: rest, old ∈ ids ∧ old ≠ new)
    (nodup : (first :: rest).Nodup)
    (forwards : ∀ old ∈ first :: rest, (table.symbol old).type.isForward = true)
    (unlinked : (after.symbol first).forwardTarget = none)
    (collapsed : ∀ old ∈ rest, (after.symbol old).forwardTarget ≠ none) :
    ((first :: rest).forM fun old => if old = new then pure () else redeclare old new name) after =
      if rest = [] then .ok () (after.link (first, new))
      else .error (.error (.invalidOverload name)) (after.link (first, new)) := by
  obtain ⟨hfirst, hne⟩ := members first List.mem_cons_self
  have hverdict : after.redeclare first new = .link first new := by
    rw [linked.redeclare_eq entity hfirst added, completeForward,
      linked.isForwardDeclaration_eq entity added, linked.isForwardDeclaration_eq entity hfirst,
      definition, forwards first List.mem_cons_self, unlinked]
    rfl
  have hstep := redeclare_apply first new name after
  rw [hverdict] at hstep
  rw [forM_cons, if_neg hne, bind_ok hstep]
  cases rest with
  | nil => rfl
  | cons second later =>
      have hmember : second ∈ first :: second :: later := by simp
      obtain ⟨hsecond, hne'⟩ := members second hmember
      have hdiffers : second ≠ first := by
        rintro rfl
        simp at nodup
      have hlinked := linked.link hfirst added
      have hconflict : (after.link (first, new)).redeclare second new = .conflict := by
        have htarget := collapsed second List.mem_cons_self
        rw [hlinked.redeclare_eq entity hsecond added, completeForward,
          hlinked.isForwardDeclaration_eq entity added, definition,
          symbol_link_of_ne after hdiffers, Option.isNone_eq_false_iff.mpr
            (Option.ne_none_iff_isSome.mp htarget)]
        simp
      have hsecondStep := redeclare_apply second new name (after.link (first, new))
      rw [hconflict] at hsecondStep
      rw [forM_cons, if_neg hne', bind_error hsecondStep]
      simp

theorem checkRedeclaration_apply (scope new : SymbolId) (table : Table) :
    checkRedeclaration scope new table =
      ((table.members scope (table.symbol new).name).forM fun old =>
        if old = new then pure () else redeclare old new (table.symbol new).name) table :=
  rfl

end Analysis

namespace Table.Progress

open Analysis

variable {table after : Table} {scope new x : SymbolId} {name : Name} {ids done : List SymbolId}

/-- A declaration that has passed the check becomes a member. -/
theorem enrolled (entity : table.OneEntity name ids)
    (joined : table.Joined ids (done ++ [new]) after)
    (holds : (after.symbol scope).holdsMembers = true)
    (members_done : ∀ member ∈ after.members scope name, member ∈ done)
    (forwards : (∀ x ∈ done ++ [new], (table.symbol x).type.isForward = true) →
      after.members scope name = done ∧
        ∀ first rest, done ++ [new] = first :: rest →
          (after.symbol first).forwardTarget = none ∧
            ∀ x ∈ rest, (after.symbol x).forwardTarget ≠ none) :
    table.Progress scope name ids (done ++ [new]) (after.enroll scope new) := by
  have hadded : new ∈ ids := joined.done_ids new (by simp)
  have hname : name = (after.symbol new).name :=
    ((joined.linked.heads new).name.trans (entity.named new hadded)).symm
  have hmembers := members_enroll holds new name
  rw [if_pos hname] at hmembers
  refine
    { joined.enroll scope new with
      holds := (sameHead_enroll after scope new scope).holdsMembers.trans holds
      members_done := ?_
      members_ne_nil := ?_
      forwards := ?_ }
  · intro member hmember
    rw [hmembers] at hmember
    rcases List.mem_append.mp hmember with old | last
    · exact List.mem_append_left _ (members_done member old)
    · exact List.mem_append_right _ last
  · intro _
    simp [hmembers]
  · intro hforwards
    obtain ⟨hdone, hfirst⟩ := forwards hforwards
    simp only [forwardTarget_enroll]
    exact ⟨by rw [hmembers, hdone], hfirst⟩

theorem ne_new (fresh : new ∉ done) (member : x ∈ done) : x ≠ new := by
  rintro rfl
  exact fresh member

section Step

variable (progress : table.Progress scope name ids done after) (entity : table.OneEntity name ids)
  (added : new ∈ ids) (fresh : new ∉ done)

include progress

theorem member_ids {old : SymbolId} (member : old ∈ after.members scope name) : old ∈ ids :=
  progress.done_ids old (progress.members_done old member)

include fresh

/-- The chains of the declarations so far do not pass the new one. -/
theorem stands_of_nextLink {other : Table}
    (same : ∀ y, y ≠ new → other.nextLink y = after.nextLink y) (member : x ∈ done) :
    other.Stands x (table.entityOf done) := by
  refine (progress.stands x member).congr fun y hreaches => same y ?_
  have hy : y ∈ done :=
    Reaches.mem_of_closed hreaches member fun a b ha hlink => progress.closed a ha b hlink
  exact ne_new fresh hy

include entity added

theorem newTarget :
    ((after.linkTo new (after.members scope name)).symbol new).forwardTarget =
      (after.members scope name).getLast? :=
  forwardTarget_linkTo (progress.linked.size_eq ▸ entity.lt_size new added)
    (progress.waiting new added fresh) _

theorem nextLink_linkTo :
    (after.linkTo new (after.members scope name)).nextLink new =
      (after.members scope name).getLast? := by
  have hlinked := progress.linked.linkTo added fun old => progress.member_ids
  have hnoAlias := (hlinked.heads new).aliasOf.trans (entity.noAlias new added)
  rw [nextLink, hnoAlias, progress.newTarget entity added fresh, Option.none_or]
  cases hlast : (after.members scope name).getLast? with
  | none => rfl
  | some newest =>
      have hdone := progress.members_done newest (List.mem_of_getLast? hlast)
      simp [ne_new fresh hdone]

/-- The new forward declaration stands for what the others stand for; the first one of all stands
for itself. -/
theorem stands_linkTo (forward : (table.symbol new).type.isForward = true)
    (member : x ∈ done ++ [new]) :
    (after.linkTo new (after.members scope name)).Stands x (table.entityOf (done ++ [new])) := by
  have hnext := progress.nextLink_linkTo entity added fresh
  by_cases hempty : done = []
  · subst hempty
    have hnone : after.members scope name = [] :=
      List.eq_nil_iff_forall_not_mem.mpr fun old hold =>
        absurd (progress.members_done old hold) List.not_mem_nil
    obtain rfl : x = new := by simpa using member
    rw [List.nil_append, entityOf_forwards (by simpa using forward)]
    exact .refl (by rw [hnext, hnone, List.getLast?_nil])
  · rw [entityOf_append_forward hempty forward]
    have hdone : ∀ y ∈ done, (after.linkTo new (after.members scope name)).Stands y
        (table.entityOf done) :=
      fun y => progress.stands_of_nextLink fresh fun z hz => nextLink_linkTo_of_ne after _ hz
    cases hlast : (after.members scope name).getLast? with
    | none => exact absurd (List.getLast?_eq_none_iff.mp hlast) (progress.members_ne_nil hempty)
    | some newest =>
        have hnewest := progress.members_done newest (List.mem_of_getLast? hlast)
        rcases List.mem_append.mp member with old | last
        · exact hdone x old
        · rw [List.mem_singleton.mp last]
          exact .head (hnext.trans hlast) (hdone newest hnewest)

theorem closed_linkTo (member : x ∈ done ++ [new]) {next : SymbolId}
    (linked : (after.linkTo new (after.members scope name)).nextLink x = some next) :
    next ∈ done ++ [new] := by
  refine List.mem_append_left _ ?_
  by_cases hsame : x = new
  · rw [hsame, progress.nextLink_linkTo entity added fresh] at linked
    exact progress.members_done next (List.mem_of_getLast? linked)
  · rw [nextLink_linkTo_of_ne after _ hsame] at linked
    exact progress.closed x (by simpa [hsame] using member) next linked

/-- As long as there are only forward declarations, each new one is linked, except the first. -/
theorem forwards_linkTo (forwards : ∀ x ∈ done, (table.symbol x).type.isForward = true)
    {first : SymbolId} {rest : List SymbolId} (split : done ++ [new] = first :: rest) :
    ((after.linkTo new (after.members scope name)).symbol first).forwardTarget = none ∧
      ∀ x ∈ rest,
        ((after.linkTo new (after.members scope name)).symbol x).forwardTarget ≠ none := by
  have htarget := progress.newTarget entity added fresh
  obtain ⟨hmembers, hfirst⟩ := progress.forwards forwards
  rw [hmembers] at htarget ⊢
  cases done with
  | nil =>
      obtain ⟨rfl, rfl⟩ : new = first ∧ [] = rest := by simpa using split
      exact ⟨htarget, fun x hx => absurd hx List.not_mem_nil⟩
  | cons head tail =>
      obtain ⟨rfl, rfl⟩ : head = first ∧ tail ++ [new] = rest := by simpa using split
      obtain ⟨hunlinked, hcollapsed⟩ := hfirst head tail rfl
      have hothers : ∀ x ∈ head :: tail,
          (after.linkTo new (head :: tail)).symbol x = after.symbol x :=
        fun x hx => symbol_linkTo_of_ne after _ (ne_new fresh hx)
      refine ⟨by rw [hothers head List.mem_cons_self, hunlinked], fun x hx => ?_⟩
      rcases List.mem_append.mp hx with old | last
      · rw [hothers x (List.mem_cons_of_mem head old)]
        exact hcollapsed x old
      · rw [List.mem_singleton.mp last, htarget]
        simp

theorem joined_linkTo (forward : (table.symbol new).type.isForward = true) :
    table.Joined ids (done ++ [new]) (after.linkTo new (after.members scope name)) where
  linked := progress.linked.linkTo added fun old => progress.member_ids
  done_ids := by
    intro x hx
    rcases List.mem_append.mp hx with old | last
    · exact progress.done_ids x old
    · exact List.mem_singleton.mp last ▸ added
  closed := fun x hx next hnext => progress.closed_linkTo entity added fresh hx hnext
  waiting := by
    intro x hx hwaiting
    have hwait : x ∉ done ∧ x ≠ new := by simpa using hwaiting
    rw [symbol_linkTo_of_ne after _ hwait.2]
    exact progress.waiting x hx hwait.1
  stands := fun x hx => progress.stands_linkTo entity added fresh forward hx

/-- One more forward declaration is accepted. -/
theorem step_forward (forward : (table.symbol new).type.isForward = true) :
    ∃ last, addSymbol scope new after = .ok () last ∧
      table.Progress scope name ids (done ++ [new]) last := by
  have hname : (after.symbol new).name = name :=
    (progress.linked.heads new).name.trans (entity.named new added)
  have hjoined := progress.joined_linkTo entity added fresh forward
  have hholds : ((after.linkTo new (after.members scope name)).symbol scope).holdsMembers = true :=
    (hjoined.linked.heads scope).holdsMembers.trans
      ((progress.linked.heads scope).holdsMembers.symm.trans progress.holds)
  have hmembers := members_linkTo after new (after.members scope name) scope name
  have hcheck : checkRedeclaration scope new after =
      .ok () (after.linkTo new (after.members scope name)) := by
    rw [checkRedeclaration_apply, hname]
    refine forM_redeclare_forward progress.linked entity added forward fun old hold => ?_
    exact ⟨progress.member_ids hold, ne_new fresh (progress.members_done old hold)⟩
  refine ⟨(after.linkTo new (after.members scope name)).enroll scope new, ?_, ?_⟩
  · rw [addSymbol_apply progress.holds (by rw [hname]; exact entity.isNamed), bind_ok hcheck,
      insertMember_apply hholds]
  · refine enrolled entity hjoined hholds ?_ fun hforwards => ?_
    · rw [hmembers]
      exact progress.members_done
    · have hdone := fun x hx => hforwards x (List.mem_append_left [new] hx)
      exact ⟨hmembers.trans (progress.forwards hdone).1, fun first rest heq =>
        progress.forwards_linkTo entity added fresh hdone heq⟩

/-- The first forward declaration is linked to the definition, and so all others stand for it. -/
theorem joined_definition (definition : (table.symbol new).type.isForward = false)
    {first : SymbolId} {rest : List SymbolId} (split : done = first :: rest)
    (forwards : ∀ x ∈ done, (table.symbol x).type.isForward = true) :
    table.Joined ids (done ++ [new]) (after.link (first, new)) := by
  subst split
  have hfirst : first ∈ ids := progress.done_ids first List.mem_cons_self
  have hne := ne_new fresh List.mem_cons_self
  have hlt : first.index < after.size := progress.linked.size_eq ▸ entity.lt_size first hfirst
  have hnoAlias : ∀ x ∈ ids, (after.symbol x).aliasOf = none :=
    fun x hx => (progress.linked.heads x).aliasOf.trans (entity.noAlias x hx)
  have hnew : after.nextLink new = none := by
    simp [nextLink, hnoAlias new added, progress.waiting new added fresh]
  have hnewLast : (after.link (first, new)).nextLink new = none :=
    (nextLink_link_of_ne hne.symm).trans hnew
  refine
    { linked := progress.linked.link hfirst added
      done_ids := ?_
      closed := ?_
      waiting := ?_
      stands := ?_ }
  · intro x hx
    rcases List.mem_append.mp hx with old | last
    · exact progress.done_ids x old
    · exact List.mem_singleton.mp last ▸ added
  · intro x hx next hnext
    rcases List.mem_append.mp hx with old | last
    · by_cases hsame : x = first
      · rw [hsame, nextLink_link hlt (hnoAlias first hfirst) hne.symm] at hnext
        cases hnext
        simp
      · rw [nextLink_link_of_ne hsame] at hnext
        exact List.mem_append_left _ (progress.closed x old next hnext)
    · rw [List.mem_singleton.mp last, hnewLast] at hnext
      cases hnext
  · intro x hx hwaiting
    have hwait : x ∉ first :: rest := fun hdone => hwaiting (List.mem_append_left _ hdone)
    have hx' : x ≠ first := fun hsame => hwait (hsame ▸ List.mem_cons_self)
    rw [symbol_link_of_ne after hx']
    exact progress.waiting x hx hwait
  · intro x hx
    rw [entityOf_append_definition forwards definition]
    rcases List.mem_append.mp hx with old | last
    · have hreaches := (progress.stands x old).reaches
      rw [entityOf_forwards forwards] at hreaches
      refine .link_of_reaches hlt (hnoAlias first hfirst) (.refl hnew) (fun hback => ?_) hreaches
      exact hne (eq_of_reaches hnew hback)
    · rw [List.mem_singleton.mp last]
      exact .refl hnewLast

/-- A definition that comes first stands for itself. -/
theorem joined_alone (first : done = []) (definition : (table.symbol new).type.isForward = false) :
    table.Joined ids (done ++ [new]) after := by
  subst first
  have hself : after.nextLink new = none := by
    simp [nextLink, (progress.linked.heads new).aliasOf, entity.noAlias new added,
      progress.waiting new added fresh]
  refine
    { linked := progress.linked
      done_ids := by simpa using added
      closed := ?_
      waiting := fun x hx _ => progress.waiting x hx List.not_mem_nil
      stands := ?_ }
  · intro x hx next hnext
    obtain rfl : x = new := by simpa using hx
    rw [hself] at hnext
    cases hnext
  · intro x hx
    obtain rfl : x = new := by simpa using hx
    rw [entityOf_append_definition (by simp) definition]
    exact .refl hself

theorem forwards_of_definition (definition : (table.symbol new).type.isForward = false) :
    ∀ x ∈ done, (table.symbol x).type.isForward = true := by
  intro x hx
  by_contra hdefinition
  have hsame := entity.oneDefinition x (progress.done_ids x hx) new added
    (by simpa using hdefinition) definition
  exact fresh (hsame ▸ hx)

/-- The check of a definition: a second forward declaration conflicts. -/
theorem checkRedeclaration_definition (nodup : done.Nodup)
    (definition : (table.symbol new).type.isForward = false) :
    ∃ last, checkRedeclaration scope new after =
        (if done.length < 2 then .ok () last
          else .error (.error (.invalidOverload name)) last) ∧
      table.Joined ids (done ++ [new]) last ∧
      last.members scope name = done ∧ (last.symbol scope).holdsMembers = true := by
  have hname : (after.symbol new).name = name :=
    (progress.linked.heads new).name.trans (entity.named new added)
  have hforwards := progress.forwards_of_definition entity added fresh definition
  obtain ⟨hmembers, hlinks⟩ := progress.forwards hforwards
  rw [checkRedeclaration_apply, hname, hmembers]
  cases hdone : done with
  | nil =>
      have hjoined := progress.joined_alone entity added fresh hdone definition
      exact ⟨after, rfl, hdone ▸ hjoined, hmembers.trans hdone, progress.holds⟩
  | cons first rest =>
      have hjoined := progress.joined_definition entity added fresh definition hdone hforwards
      obtain ⟨hunlinked, hcollapsed⟩ := hlinks first rest hdone
      have hcheck := forM_redeclare_definition progress.linked entity added definition
        (fun old hold => ⟨progress.done_ids old (hdone ▸ hold), ne_new fresh (hdone ▸ hold)⟩)
        (hdone ▸ nodup) (hdone ▸ hforwards) hunlinked hcollapsed
      refine ⟨after.link (first, new), ?_, hdone ▸ hjoined, ?_, ?_⟩
      · rw [hcheck]
        cases rest with
        | nil => rfl
        | cons second later => simp
      · rw [members_link, hmembers, hdone]
      · exact (sameHead_link after _ scope).holdsMembers.trans progress.holds

/-- The definition is accepted after at most one forward declaration, and rejected after more.  All
stand for it either way. -/
theorem step_definition (nodup : done.Nodup)
    (definition : (table.symbol new).type.isForward = false) :
    ∃ last, addSymbol scope new after =
        (if done.length < 2 then .ok () last
          else .error (.error (.invalidOverload name)) last) ∧
      table.Progress scope name ids (done ++ [new]) last := by
  have hname : (after.symbol new).name = name :=
    (progress.linked.heads new).name.trans (entity.named new added)
  have hvacuous : ¬ ∀ x ∈ done ++ [new], (table.symbol x).type.isForward = true := by
    intro hall
    simp [hall new (by simp)] at definition
  obtain ⟨checked, hcheck, hjoined, hmembers, hholds⟩ :=
    progress.checkRedeclaration_definition entity added fresh nodup definition
  have hadd := addSymbol_apply progress.holds (by rw [hname]; exact entity.isNamed)
  have hmembersDone : ∀ member ∈ checked.members scope name, member ∈ done :=
    fun member hmember => hmembers ▸ hmember
  by_cases hfew : done.length < 2
  · rw [if_pos hfew] at hcheck
    refine ⟨checked.enroll scope new, ?_, ?_⟩
    · rw [hadd, bind_ok hcheck, insertMember_apply hholds, if_pos hfew]
    · exact enrolled entity hjoined hholds hmembersDone fun hall => absurd hall hvacuous
  · rw [if_neg hfew] at hcheck
    refine ⟨checked, ?_, ?_⟩
    · rw [hadd, bind_error hcheck, if_neg hfew]
    · refine
        { hjoined with
          holds := hholds
          members_done := fun member hmember =>
            List.mem_append_left _ (hmembersDone member hmember)
          members_ne_nil := ?_
          forwards := fun hall => absurd hall hvacuous }
      intro _ hnone
      rw [hmembers] at hnone
      simp [hnone] at hfew

end Step

end Table.Progress

/-! ## All declarations -/

namespace Table

variable {table after : Table} {scope : SymbolId} {name : Name} {ids done : List SymbolId}

/-- What adding a declaration of an entity returns, given how many were added before it. -/
def outcomeAt (table : Table) (id : SymbolId) (position : Nat) : Except SemanticError Unit :=
  if (table.symbol id).type.isForward || position < 2 then .ok ()
  else .error (.invalidOverload (table.symbol id).name)

/-- One more declaration. -/
theorem Progress.step (progress : table.Progress scope name ids done after)
    (entity : table.OneEntity name ids) {new : SymbolId} (added : new ∈ ids) (fresh : new ∉ done)
    (nodup : done.Nodup) :
    ∃ last, Analysis.attempt (Analysis.addSymbol scope new) after =
        .ok (table.outcomeAt new done.length) last ∧
      table.Progress scope name ids (done ++ [new]) last := by
  by_cases hforward : (table.symbol new).type.isForward = true
  · obtain ⟨last, hadd, hprogress⟩ := progress.step_forward entity added fresh hforward
    refine ⟨last, ?_, hprogress⟩
    simp [Analysis.attempt, hadd, outcomeAt, hforward]
  · rw [Bool.not_eq_true] at hforward
    obtain ⟨last, hadd, hprogress⟩ := progress.step_definition entity added fresh nodup hforward
    refine ⟨last, ?_, hprogress⟩
    by_cases hfew : done.length < 2
    · simp [Analysis.attempt, hadd, outcomeAt, hfew]
    · simp [Analysis.attempt, hadd, outcomeAt, hfew, hforward, entity.named new added]

/-- The remaining declarations, one after another. -/
theorem Progress.run {rest : List SymbolId} (progress : table.Progress scope name ids done after)
    (entity : table.OneEntity name ids) (split : ids = done ++ rest) :
    ∃ last, (rest.mapM fun id => Analysis.attempt (Analysis.addSymbol scope id)) after =
        .ok ((rest.zipIdx done.length).map fun (id, position) => table.outcomeAt id position) last ∧
      table.Progress scope name ids ids last := by
  -- The outcomes so far are fixed; each step moves one declaration from `rest` to `done`.
  induction rest generalizing done after with
  | nil =>
      rw [List.append_nil] at split
      exact ⟨after, rfl, split ▸ progress⟩
  | cons new rest ih =>
      have hnodup : (done ++ new :: rest).Nodup := split ▸ entity.nodup
      have hfresh : new ∉ done := by
        intro hdone
        exact (List.nodup_append.mp hnodup).2.2 new hdone new List.mem_cons_self rfl
      have hadded : new ∈ ids := by simp [split]
      obtain ⟨middle, hstep, hprogress⟩ :=
        progress.step entity hadded hfresh (List.nodup_append.mp hnodup).1
      obtain ⟨last, hrest, hlast⟩ := ih hprogress (by simp [split])
      refine ⟨last, ?_, hlast⟩
      rw [List.mapM_cons, Analysis.bind_ok hstep, Analysis.bind_ok hrest]
      simp
      rfl

end Table

namespace Analysis

open Table

/-- Any number of forward declarations and at most one definition of one entity, added in any order
to a scope that does not declare their name yet: every call succeeds, except that the definition is
rejected if two or more forward declarations were added before it.  Afterwards all of them stand for
the definition, rejected or not, and for the first declaration if there is no definition. -/
theorem addSymbol_one_entity (table : Table) (scope : SymbolId) (name : Name)
    (ids : List SymbolId) (entity : table.OneEntity name ids)
    (holds : (table.symbol scope).holdsMembers = true)
    (undeclared : table.members scope name = []) :
    ∃ after, (ids.mapM fun id => attempt (addSymbol scope id)) table =
        .ok (ids.zipIdx.map fun (id, position) =>
          if (table.symbol id).type.isForward || position < 2 then .ok ()
          else .error (.invalidOverload name)) after ∧
      ∀ id ∈ ids, after.canonical id =
        (ids.find? fun id => !(table.symbol id).type.isForward).getD (ids.headD default) := by
  have hstart : table.Progress scope name ids [] table :=
    { linked := .refl entity
      done_ids := by simp
      closed := by simp
      waiting := fun x hx _ => entity.unlinked x hx
      stands := by simp
      holds
      members_done := by simp [undeclared]
      members_ne_nil := by simp
      forwards := by simp [undeclared] }
  obtain ⟨after, hrun, hprogress⟩ := hstart.run entity (List.nil_append ids).symm
  refine ⟨after, ?_, fun id member => (hprogress.stands id member).canonical_eq⟩
  rw [hrun]
  congr 1
  refine List.map_congr_left fun pair hpair => ?_
  have hmember : pair.1 ∈ ids := by
    obtain ⟨hindex, hvalue⟩ := List.mem_zipIdx' hpair
    exact hvalue ▸ List.getElem_mem _
  simp only [outcomeAt, entity.named pair.1 hmember]

/-- A table with two forward declarations of a class and its definition, and with two prototypes of a
function of that class and its definition between them; none of them is in a scope. -/
def declarationsTable : Table :=
  finalTable (Table.new {}) do
    let forward : Flags := { specifiers := { isForward := true } }
    let first ← createClass ⟨17⟩ .cls
    addFlags first forward
    let second ← createClass ⟨17⟩ .cls
    addFlags second forward
    discard (createClass ⟨17⟩ .cls)
    let prototype ← createFunction ⟨18⟩ .function
    discard (addParameterType prototype (.ofSymbol first))
    addFlags prototype forward
    let defined ← createFunction ⟨18⟩ .function
    discard (addParameterType defined (.ofSymbol first))
    let again ← createFunction ⟨18⟩ .function
    discard (addParameterType again (.ofSymbol first))
    addFlags again forward

/-- The definition of the class comes after two forward declarations and is rejected, but all three
stand for it.  The definition of the function comes after one prototype, and all three are accepted. -/
theorem class_rejected_function_accepted :
    (∃ after, ([⟨1⟩, ⟨2⟩, ⟨3⟩].mapM fun id => attempt (addSymbol Table.globalScope id))
        declarationsTable = .ok [.ok (), .ok (), .error (.invalidOverload ⟨17⟩)] after ∧
      ∀ id ∈ [⟨1⟩, ⟨2⟩, ⟨3⟩], after.canonical id = ⟨3⟩) ∧
    ∃ after, ([⟨4⟩, ⟨6⟩, ⟨8⟩].mapM fun id => attempt (addSymbol Table.globalScope id))
        declarationsTable = .ok [.ok (), .ok (), .ok ()] after ∧
      ∀ id ∈ [⟨4⟩, ⟨6⟩, ⟨8⟩], after.canonical id = ⟨6⟩ := by
  have hclass : declarationsTable.OneEntity ⟨17⟩ [⟨1⟩, ⟨2⟩, ⟨3⟩] :=
    { nodup := by decide
      lt_size := by decide
      named := by decide
      isNamed := rfl
      noTemplate := by decide
      noAlias := by decide
      unlinked := by decide
      oneDefinition := by decide
      entity := .inl ⟨by decide, by decide⟩ }
  have hreturn : ∀ x, (declarationsTable.symbol x).returnType = none := by
    intro x
    exact Option.isNone_iff_eq_none.mp
      (forall_symbol declarationsTable (·.returnType.isNone) rfl (by decide) x)
  have hunlinked : ∀ x, declarationsTable.nextLink x = none := by
    intro x
    have hnone := forall_symbol declarationsTable
      (fun symbol => (symbol.aliasOf.or symbol.forwardTarget).isNone) rfl (by decide) x
    rw [nextLink, Option.isNone_iff_eq_none.mp hnone]
    rfl
  have hfunction : declarationsTable.OneEntity ⟨18⟩ [⟨4⟩, ⟨6⟩, ⟨8⟩] :=
    { nodup := by decide
      lt_size := by decide
      named := by decide
      isNamed := rfl
      noTemplate := by decide
      noAlias := by decide
      unlinked := by decide
      oneDefinition := by decide
      entity := .inr
        { isFunction := by decide
          sameParameters := by decide +kernel
          sameReturnType := by
            intro a _ b _ typeA typeB hA
            rw [hreturn a] at hA
            cases hA
          noType := by
            intro x id member hlink
            have hnot := forall_symbol declarationsTable
              (fun symbol => symbol.type.link.all (· ∉ [⟨4⟩, ⟨6⟩, ⟨8⟩])) rfl (by decide) x
            rw [hlink] at hnot
            simp only [Option.all_some, decide_eq_true_eq] at hnot
            exact hnot member
          noReturnType := by
            intro x type hx
            rw [hreturn x] at hx
            cases hx
          noLink := by
            intro x _ id _ hnext
            rw [hunlinked x] at hnext
            cases hnext } }
  exact ⟨addSymbol_one_entity declarationsTable _ ⟨17⟩ _ hclass rfl rfl,
    addSymbol_one_entity declarationsTable _ ⟨18⟩ _ hfunction rfl rfl⟩

end Analysis

end NameBinding
