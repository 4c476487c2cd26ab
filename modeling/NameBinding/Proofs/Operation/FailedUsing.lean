import NameBinding.Proofs.Operation.Acyclic
import NameBinding.Proofs.Operation.UsingDeclaration

/-!
# Using-declarations that fail

A using-declaration adds its aliases one by one, and only an object can be rejected on the way.  A lookup never
gives an object together with anything else, so that the first alias is rejected, or none.

* `Table.OwnFunction`: a function that stands for itself, which the aliases of other functions do not change.
* `foldlM_introduceAlias_ne_error`: functions are never rejected.

The main statement is `failed_using_declaration_unchanged`.
-/

namespace NameBinding

namespace Table

variable {table : Table} {scope target id : SymbolId} {name : Name}

/-- A function or a function template that stands for itself. -/
structure OwnFunction (table : Table) (id : SymbolId) : Prop where
  unlinked : table.nextLink id = none
  function : table.declClass id = .function

/-- What makes it a function: its own kind, or that of its templated declaration. -/
theorem OwnFunction.kind (own : table.OwnFunction id) :
    (table.symbol id).isFunction = true ∨
      ∃ templated, table.templated? id = some templated ∧ (table.symbol templated).isFunction = true := by
  have hclass := own.function
  rw [declClass_eq, canonical_of_nextLink_none own.unlinked, entityClass] at hclass
  split at hclass
  · rename_i kind
    rw [Bool.or_eq_true, isFunctionTemplate, Option.any_eq_true] at kind
    exact kind
  · split at hclass <;> cases hclass

/-- The templated declaration comes first, and so before any alias. -/
theorem templated?_withAlias {templated : SymbolId} (holds : (table.symbol scope).holdsMembers = true)
    (first : table.templated? id = some templated) :
    (table.withAlias scope name target).templated? id = some templated := by
  rw [templated?_eq] at first ⊢
  split at first
  · rename_i isTemplate
    have hlt := lt_size_of_symbol (·.isTemplate) rfl isTemplate
    have hhead := sameHead_withAlias scope name target hlt
    rw [hhead.isTemplate, if_pos isTemplate, hhead.name]
    by_cases same : id = scope
    · subst same
      rw [members_withAlias name target holds]
      split
      · rw [List.head?_append, first, Option.some_or]
      · exact first
    · rw [members_withAlias_of_ne name target hlt same, first]
  · cases first

/-- A function stays one when an alias is added. -/
theorem OwnFunction.withAlias (own : table.OwnFunction id) (holds : (table.symbol scope).holdsMembers = true) :
    (table.withAlias scope name target).OwnFunction id := by
  have hkind : ∀ {x : SymbolId}, (table.symbol x).isFunction = true →
      x.index < table.size ∧ ((table.withAlias scope name target).symbol x).isFunction = true := by
    intro x function
    have hlt := lt_size_of_symbol (·.isFunction) rfl function
    rw [Symbol.isFunction, (sameHead_withAlias scope name target hlt).type]
    exact ⟨hlt, function⟩
  have hlt : id.index < table.size := by
    rcases own.kind with function | ⟨templated, first, -⟩
    · exact (hkind function).1
    · rw [templated?_eq] at first
      split at first
      · rename_i isTemplate
        exact lt_size_of_symbol (·.isTemplate) rfl isTemplate
      · cases first
  have hunlinked : (table.withAlias scope name target).nextLink id = none :=
    (nextLink_of_frame (frame_withAlias scope name target hlt)).trans own.unlinked
  refine ⟨hunlinked, ?_⟩
  rw [declClass_eq, canonical_of_nextLink_none hunlinked, entityClass, if_pos]
  rw [Bool.or_eq_true, isFunctionTemplate, Option.any_eq_true]
  rcases own.kind with function | ⟨templated, first, function⟩
  · exact .inl (hkind function).2
  · exact .inr ⟨templated, templated?_withAlias holds first, (hkind function).2⟩

end Table

namespace Analysis

open Table

variable {table now after : Table} {scope qualifier id : SymbolId} {name : Name} {aliases : List SymbolId}
  {ids : List SymbolId} {error : SemanticError}

/-! ## One alias -/

/-- If an alias is rejected, nothing has changed, and there are two objects of the name. -/
theorem introduceAlias_eq_error (failed : introduceAlias scope name aliases id now = .error (.error error) after) :
    after = now ∧ error = .invalidOverload name ∧ now.declClass (now.canonical id) = .object := by
  rw [introduceAlias, get_bind] at failed
  split at failed
  · cases failed
  · split at failed
    · rename_i objects
      cases failed
      exact ⟨rfl, rfl, eq_of_beq (Bool.and_eq_true_iff.mp objects).1⟩
    · exfalso
      -- The alias itself is made without a check, and so is its membership.
      have hmade : create
          { name, type := (now.symbol (now.canonical id)).type, aliasOf := some (now.canonical id) } now =
            .ok ⟨now.size⟩ _ := rfl
      rw [bind_ok hmade] at failed
      cases hinserted : insertMember scope ⟨now.size⟩ _ with
      | ok _ inserted =>
          rw [bind_ok hinserted] at failed
          cases failed
      | error interrupt inserted =>
          rw [bind_error hinserted] at failed
          cases failed
          exact insertMember_ne_error scope _ _ _ _ hinserted

/-- The functions of a lookup are never rejected, whatever aliases have been added before. -/
theorem foldlM_introduceAlias_ne_error (own : ∀ id ∈ ids, now.OwnFunction id) :
    ids.foldlM (introduceAlias scope name) aliases now ≠ .error (.error error) after := by
  induction ids generalizing aliases now with
  | nil => exact fun failed => nomatch failed
  | cons id rest ih =>
      rw [List.foldlM_cons]
      intro failed
      have hown := own id List.mem_cons_self
      cases hfirst : introduceAlias scope name aliases id now with
      | error interrupt middle =>
          rw [bind_error hfirst] at failed
          cases failed
          have hobject := (introduceAlias_eq_error hfirst).2.2
          rw [canonical_of_nextLink_none hown.unlinked, hown.function] at hobject
          cases hobject
      | ok added middle =>
          rw [bind_ok hfirst] at failed
          refine ih (fun other later => ?_) failed
          have hother := own other (List.mem_cons_of_mem id later)
          rcases introduceAlias_eq_ok hfirst with ⟨-, rfl⟩ | ⟨-, holds, -, rfl⟩
          · exact hother
          · exact hother.withAlias holds

/-! ## The whole declaration -/

/-- What a lookup finds is brought in without a failure, or the first alias is rejected. -/
theorem foldlM_introduceAlias_eq_error (ends : table.LinksEnd) {found : List SymbolId}
    (failed : (table.entities found).foldlM (introduceAlias scope name) [] table =
      .error (.error error) after) :
    after = table ∧ error = .invalidOverload name := by
  have hcanonical : ∀ id ∈ table.entities found, table.nextLink id = none := by
    intro id member
    obtain ⟨_, visible⟩ := exists_of_mem_entities member
    obtain ⟨declared, -, hpair⟩ := exists_of_mem_visibleEntities visible
    cases hpair
    exact ends.nextLink_canonical declared
  by_cases functions : ∀ id ∈ table.entities found, table.declClass id = .function
  · exact absurd failed (foldlM_introduceAlias_ne_error fun id member =>
      ⟨hcanonical id member, functions id member⟩)
  · -- Anything else but functions comes alone.
    push Not at functions
    obtain ⟨single, member, noFunction⟩ := functions
    have halone : table.entities found = [single] := by
      refine List.perm_singleton.mp ((List.perm_ext_iff_of_nodup (table.nodup_entities found)
        (List.nodup_singleton single)).mpr fun other => ?_)
      rw [List.mem_singleton]
      constructor
      · intro hother
        rcases table.entities_alike found other hother single member with same | ⟨-, function⟩
        · exact same
        · exact absurd function noFunction
      · rintro rfl
        exact member
    rw [halone, List.foldlM_cons] at failed
    cases hsingle : introduceAlias scope name [] single table with
    | ok aliases middle =>
        rw [bind_ok hsingle] at failed
        cases failed
    | error interrupt middle =>
        rw [bind_error hsingle] at failed
        cases failed
        exact ⟨(introduceAlias_eq_error hsingle).1, (introduceAlias_eq_error hsingle).2.1⟩

/-- A using-declaration that fails leaves the table as it was, if no chain of links comes back to its start.  It
fails with the error of the lookup, because nothing was found, or because of a second object of the name. -/
theorem failed_using_declaration_unchanged
    (acyclic : ∀ id, ¬ Relation.TransGen (fun a b => table.nextLink a = some b) id id)
    (failed : addUsingDeclaration scope name qualifier table = .error (.error error) after) :
    after = table ∧
      (lookup qualifier name { qualified := true, keepTemplates := true } table = .error (.error error) table ∨
        error = .invalidUsing name ∨ error = .invalidOverload name) := by
  have hkeeps : Keeps (· = table) (lookup qualifier name { qualified := true, keepTemplates := true }) :=
    keeps_lookup_of_quiet (.inr rfl) qualifier name
  cases hfound : lookup qualifier name { qualified := true, keepTemplates := true } table with
  | error interrupt middle =>
      rw [addUsingDeclaration, bind_error hfound] at failed
      cases failed
      have hends := (hkeeps table rfl).1
      rw [hfound] at hends
      obtain rfl : after = table := hends
      exact ⟨rfl, .inl rfl⟩
  | ok found middle =>
      obtain ⟨rfl, hits, -, hsymbols⟩ := lookup_answers ⟨rfl, rfl⟩ rfl hfound
      rw [addUsingDeclaration, bind_ok hfound] at failed
      split at failed
      · cases failed
        exact ⟨rfl, .inr (.inl rfl)⟩
      · rw [hsymbols] at failed
        obtain ⟨rfl, rfl⟩ := foldlM_introduceAlias_eq_error (.of_acyclic acyclic) failed
        exact ⟨rfl, .inr (.inr rfl)⟩

/-- Two namespaces have an object of one name, and a third one names the object of the second. -/
def declareObjects : List Action :=
  [.perform (.createContainer ⟨18⟩ (.ofKind .nspace)), .perform (.addSymbol ⟨0⟩ ⟨1⟩),
    .perform (.createBasic ⟨17⟩ (.ofKind .int)), .perform (.addSymbol ⟨1⟩ ⟨2⟩),
    .perform (.createContainer ⟨19⟩ (.ofKind .nspace)), .perform (.addSymbol ⟨0⟩ ⟨3⟩),
    .perform (.createBasic ⟨17⟩ (.ofKind .char)), .perform (.addSymbol ⟨3⟩ ⟨4⟩),
    .perform (.createContainer ⟨20⟩ (.ofKind .nspace)), .perform (.addSymbol ⟨0⟩ ⟨5⟩),
    .perform (.addUsingDeclaration ⟨5⟩ ⟨17⟩ ⟨3⟩)]

/-- The table with the two objects and the alias. -/
@[irreducible]
def objectsTable : Table := (Table.new {}).ran declareObjects

/-- The object of the second namespace is not brought into the first one from the third. -/
theorem second_object_rejected_unchanged :
    (∀ id, ¬ Relation.TransGen (fun a b => objectsTable.nextLink a = some b) id id) ∧
      objectsTable.canonical ⟨6⟩ = ⟨4⟩ ∧
      addUsingDeclaration ⟨1⟩ ⟨17⟩ ⟨5⟩ objectsTable = .error (.error (.invalidOverload ⟨17⟩)) objectsTable := by
  have hacyclic : ∀ id, ¬ Relation.TransGen (fun a b => objectsTable.nextLink a = some b) id id := by
    have hreached : Reached Action.Joins ((Table.new {}).ran declareObjects) :=
      Reached.ran (.new {}) (by decide +kernel)
    rw [objectsTable]
    exact hreached.linksEnd_sheltered.holds.2.acyclic
  obtain ⟨after, hfailed⟩ : ∃ after, addUsingDeclaration ⟨1⟩ ⟨17⟩ ⟨5⟩ objectsTable =
      .error (.error (.invalidOverload ⟨17⟩)) after := exists_error_of_ending (by decide +kernel)
  obtain ⟨hunchanged, -⟩ := failed_using_declaration_unchanged hacyclic hfailed
  exact ⟨hacyclic, by decide +kernel, hunchanged ▸ hfailed⟩

end Analysis

end NameBinding
