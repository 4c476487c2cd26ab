import NameBinding.Proofs.Table.Evolution
import NameBinding.Proofs.Lookup.Keeps
import NameBinding.Table.Attach
import NameBinding.Template.ExplicitSpecialization

/-!
# Every mutator evolves the table

Each operation that declares something is a sequence of creations and of edits that can be taken
back, between checks that only read the table.  The lemmas go through all of them, from the check of
a redeclaration to using-declarations and explicit specializations.
-/

namespace NameBinding

/-- An edit with which a declaration joins a scope: where it is placed, its entry in the scope, and the links
of what it redeclares. -/
def Edit.IsJoin : Edit → Prop
  | .assign (.scope _ _) => True
  | .assign (.forwardTarget _) => True
  | .insertMember _ _ => True
  | _ => False

/-! ## Redeclarations -/

namespace Joining

open Analysis

variable {inv : Table → Prop} (edits : ∀ id {edit : Edit}, edit.IsJoin → Keeps inv (Analysis.edit id edit))

include edits

theorem keeps_insertMember (scope id : SymbolId) : Keeps inv (insertMember scope id) := by
  refine Yields.read fun table _ => ?_
  dsimp only
  have hinsert : Keeps inv (do
      assign id (.scope (some scope)
        ((table.symbol scope).isTemplate || (table.symbol scope).inTemplate))
      edit scope (.insertMember (table.symbol id).name id)) :=
    (edits id (by trivial)).seq fun _ => edits scope (by trivial)
  split
  · exact hinsert
  · exact (Yields.unsupported _ _).seq fun _ => hinsert

theorem keeps_setForwardTarget (id target : SymbolId) : Keeps inv (setForwardTarget id target) :=
  edits id (by trivial)

theorem keeps_redeclare (old new : SymbolId) (name : Name) : Keeps inv (redeclare old new name) := by
  refine Yields.read fun table _ => ?_
  split
  · exact Yields.fail _ _
  · exact Yields.pure trivial
  · exact keeps_setForwardTarget edits _ _

theorem keeps_checkRedeclaration (scope new : SymbolId) : Keeps inv (checkRedeclaration scope new) := by
  refine Yields.read fun table _ => ?_
  refine Yields.forM fun old _ => ?_
  split
  · exact Yields.pure trivial
  · exact keeps_redeclare edits old new _

theorem keeps_addSymbol (scope id : SymbolId) : Keeps inv (addSymbol scope id) := by
  refine Yields.read fun table _ => ?_
  have hcheck : Keeps inv (do
      unless (table.symbol id).name.isEmpty do checkRedeclaration scope id
      insertMember scope id) := by
    dsimp only
    split
    · exact keeps_insertMember edits scope id
    · exact (keeps_checkRedeclaration edits scope id).seq fun _ => keeps_insertMember edits scope id
  dsimp only
  split
  · exact hcheck
  · exact (Yields.unsupported _ _).seq fun _ => hcheck

end Joining

namespace Evolution

open Analysis

variable {before : Table}

theorem instantiationKeeps : InstantiationKeeps (Evolution before) := follows_instantiateWithin

/-- A symbol that holds nothing can always be created. -/
theorem keeps_createBlank {symbol : Symbol} (blank : symbol.payload.Blank) :
    Keeps (Evolution before) (create symbol) :=
  keeps_create (Symbol.Tidy.of_blank blank)

/-- A partial specialization has patterns and nothing else. -/
theorem keeps_createSpecialization (name : Name) (patterns : List Descriptor) :
    Keeps (Evolution before) (createSpecialization name patterns) := by
  apply keeps_create
  intro decls hdecls
  cases hdecls
  intro entry member
  exact absurd member List.not_mem_nil

/-- The copy of a symbol is as tidy as the symbol. -/
theorem keeps_cloneSymbol (id : SymbolId) : Keeps (Evolution before) (cloneSymbol id) := by
  refine Yields.read fun table evolution => keeps_create ?_
  have htidy : (table.symbol id).Tidy := by
    cases hsymbol : table.symbols[id.index]? with
    | some symbol =>
        rw [Table.symbol_of_getElem? hsymbol]
        exact evolution.tidy symbol (Array.mem_of_getElem? hsymbol)
    | none =>
        rw [Table.symbol_of_getElem?_none hsymbol]
        exact Symbol.Tidy.of_blank trivial
  exact htidy.of_decls_eq rfl

/-! ## Joining a scope -/

theorem keeps_join (id : SymbolId) {edit : Edit} (join : edit.IsJoin) :
    Keeps (Evolution before) (Analysis.edit id edit) := by
  refine keeps_edit id ?_
  rcases edit with assignment | entry | ⟨name, member⟩
  · cases assignment with
    | scope | forwardTarget => trivial
    | _ => exact join.elim
  · exact join.elim
  · trivial

theorem keeps_insertMember (scope id : SymbolId) : Keeps (Evolution before) (insertMember scope id) :=
  Joining.keeps_insertMember keeps_join scope id

theorem keeps_setForwardTarget (id target : SymbolId) :
    Keeps (Evolution before) (setForwardTarget id target) :=
  Joining.keeps_setForwardTarget keeps_join id target

theorem keeps_addSymbol (scope id : SymbolId) : Keeps (Evolution before) (addSymbol scope id) :=
  Joining.keeps_addSymbol keeps_join scope id

/-! ## Parts of declarations -/

theorem keeps_addParameter (function parameter : SymbolId) :
    Keeps (Evolution before) (addParameter function parameter) := by
  refine Yields.read fun table _ => ?_
  dsimp only
  split
  · exact (keeps_edit function (by trivial)).seq fun _ => keeps_edit parameter (by trivial)
  · exact Yields.unsupported _ _
  · exact Yields.unsupported _ _

theorem keeps_addParameterType (function : SymbolId) (type : Descriptor) :
    Keeps (Evolution before) (addParameterType function type) := by
  refine Yields.seq (keeps_createBlank (by trivial)) fun parameter => ?_
  exact (keeps_addParameter function parameter).seq fun _ => Yields.pure trivial

theorem keeps_setVarargs (function : SymbolId) (varargs : Bool) :
    Keeps (Evolution before) (setVarargs function varargs) := by
  refine Yields.read fun table _ => ?_
  split
  · exact keeps_edit function (by trivial)
  · exact Yields.unsupported _ _

theorem keeps_setReturnType (function : SymbolId) (type : Descriptor) :
    Keeps (Evolution before) (setReturnType function type) := by
  refine Yields.read fun table _ => ?_
  split
  · exact Yields.fail _ _
  · split
    · exact keeps_edit function (by trivial)
    · exact Yields.unsupported _ _

theorem keeps_addParent (derived parent : SymbolId) (access : Access) (isVirtual : Bool) :
    Keeps (Evolution before) (addParent derived parent access isVirtual) := by
  refine Yields.read fun table _ => ?_
  dsimp only
  split
  · exact Yields.fail _ _
  · split
    · exact keeps_edit derived (by trivial)
    · exact Yields.unsupported _ _

theorem keeps_setParent (derived : SymbolId) (position : Nat) (parent : SymbolId) :
    Keeps (Evolution before) (setParent derived position parent) := by
  refine Yields.read fun table _ => ?_
  split
  · exact keeps_edit derived (by trivial)
  · exact Yields.violated _ _

theorem keeps_addConstructor (owner function : SymbolId) :
    Keeps (Evolution before) (addConstructor owner function) := by
  refine Yields.read fun table _ => ?_
  split
  · exact Yields.unsupported _ _
  · split
    · exact Yields.unsupported _ _
    · exact (keeps_edit owner (by trivial)).seq fun _ => keeps_edit function (by trivial)

theorem keeps_addConversion (owner function : SymbolId) :
    Keeps (Evolution before) (addConversion owner function) := by
  refine Yields.read fun table _ => ?_
  split
  · exact Yields.unsupported _ _
  · split
    · exact Yields.unsupported _ _
    · exact (keeps_edit owner (by trivial)).seq fun _ => keeps_edit function (by trivial)

theorem keeps_addTemplateParameter (template parameter : SymbolId) :
    Keeps (Evolution before) (addTemplateParameter template parameter) := by
  refine Yields.read fun table _ => ?_
  split
  · exact Yields.fail _ _
  · split
    · exact (keeps_edit template (by trivial)).seq fun _ => keeps_edit parameter (by trivial)
    · exact Yields.unsupported _ _

theorem keeps_addTemplateSpecialization (primary specialization : SymbolId) :
    Keeps (Evolution before) (addTemplateSpecialization primary specialization) := by
  refine Yields.read fun table _ => ?_
  dsimp only
  split
  · exact Yields.unsupported _ _
  · split
    · exact Yields.fail _ _
    · split
      · exact Yields.fail _ _
      · refine Yields.seq (keeps_edit specialization (by trivial)) fun _ => ?_
        refine Yields.seq (keeps_edit specialization (by trivial)) fun _ => ?_
        exact keeps_edit primary (by trivial)

theorem keeps_mapDefinitionParameter (template : SymbolId) (name : Name) (parameter : SymbolId) :
    Keeps (Evolution before) (mapDefinitionParameter template name parameter) := by
  refine Yields.read fun table _ => ?_
  split
  · exact keeps_edit template (by trivial)
  · exact Yields.unsupported _ _

theorem keeps_addUsingDirective (scope nominated : SymbolId) :
    Keeps (Evolution before) (addUsingDirective scope nominated) := by
  refine Yields.read fun table _ => ?_
  dsimp only
  split
  · exact Yields.fail _ _
  · split
    · exact keeps_edit scope (by trivial)
    · exact Yields.unsupported _ _

theorem keeps_addNamespaceAlias (scope : SymbolId) (name : Name) (target : SymbolId) :
    Keeps (Evolution before) (addNamespaceAlias scope name target) := by
  refine Yields.read fun table _ => ?_
  dsimp only
  split
  · exact Yields.fail _ _
  · refine Yields.seq (keeps_createBlank rfl) fun synonym => ?_
    exact (keeps_addSymbol scope synonym).seq fun _ => Yields.pure trivial

/-! ## Using-declarations and explicit specializations -/

theorem keeps_addUsingDeclaration (scope : SymbolId) (name : Name) (qualifier : SymbolId) :
    Keeps (Evolution before) (addUsingDeclaration scope name qualifier) := by
  refine (keeps_lookup instantiationKeeps qualifier name _).seq fun found => ?_
  split
  · exact Yields.fail _ _
  · refine Yields.foldlM (fun aliases found _ => ?_) _
    refine Yields.read fun table _ => ?_
    dsimp only
    split
    · exact Yields.pure trivial
    · split
      · exact Yields.fail _ _
      · refine Yields.seq (keeps_createBlank (by trivial)) fun made => ?_
        exact (keeps_insertMember scope made).seq fun _ => Yields.pure trivial

theorem keeps_specializeMember (template : SymbolId) (args : List Descriptor) (id : SymbolId) :
    Keeps (Evolution before) (specializeMember template args id) := by
  refine (keeps_instantiate instantiationKeeps template args).seq fun made => ?_
  refine Yields.read fun table _ => ?_
  dsimp only
  split
  · exact Yields.fail _ _
  · split
    · exact (keeps_addSymbol made id).seq fun _ => Yields.pure trivial
    · refine (keeps_setForwardTarget _ id).seq fun _ => ?_
      exact (keeps_insertMember made id).seq fun _ => Yields.pure trivial

theorem keeps_specializeTemplate (template : SymbolId) (args : List Descriptor) (id : SymbolId) :
    Keeps (Evolution before) (specializeTemplate template args id) := by
  refine (tracks_completeArguments (keeps_resolveType instantiationKeeps) template args).seq
    fun completed => ?_
  refine Yields.read fun table _ => ?_
  dsimp only
  split
  · exact Yields.fail _ _
  · refine Yields.seq (keeps_edit template (by trivial)) fun _ => ?_
    refine Yields.seq (keeps_edit id (by trivial)) fun _ => ?_
    split
    · exact (keeps_edit id (by trivial)).seq fun _ => Yields.pure trivial
    · exact Yields.pure trivial

theorem keeps_addExplicitSpecialization (template : SymbolId) (args : List Descriptor)
    (id : SymbolId) : Keeps (Evolution before) (addExplicitSpecialization template args id) := by
  refine Yields.read fun table _ => ?_
  dsimp only
  split
  · exact Yields.fail _ _
  · split
    · exact keeps_specializeMember _ args id
    · exact keeps_specializeTemplate _ args id

end Evolution

end NameBinding
