import NameBinding.Proofs.Table.Mutators

/-!
# Operations and reachable tables

`Operation` lists what a caller can ask of a table, apart from transactions, and `Action` adds
transactions and the two edits that leave no record: the link to a syntax node and added flags.  A
table is `Reachable` if actions lead to it from a new table, none of which ended with a fault; an
action that ends with a recoverable error counts with all its effects.

The main statement is `Reachable.settled`: in every reachable table no instantiation is running, and
no scope lists a name without members.
-/

namespace NameBinding

/-- What a caller can ask of a table, apart from transactions. -/
inductive Operation where
  | intern (text : String)
  | createBasic (name : Name) (type : Descriptor)
  | createContainer (name : Name) (type : Descriptor)
  | createClass (name : Name) (kind : BaseKind)
  | createFunction (name : Name) (kind : BaseKind)
  | createTemplate (name : Name)
  | createTemplateParameter (name : Name) (sort : BaseKind)
  | createTemplateTemplateParameter (name : Name)
  | createSpecialization (name : Name) (patterns : List Descriptor)
  | cloneSymbol (id : SymbolId)
  | setAccess (id : SymbolId) (access : Access)
  | setType (id : SymbolId) (type : Descriptor)
  | setScope (id : SymbolId) (scope : Option SymbolId) (inTemplate : Bool)
  | setForwardTarget (id target : SymbolId)
  | setOrigin (id : SymbolId) (origin : TemplateUse)
  | setParent (derived : SymbolId) (position : Nat) (parent : SymbolId)
  | insertMember (scope id : SymbolId)
  | addSymbol (scope id : SymbolId)
  | addParameter (function parameter : SymbolId)
  | addParameterType (function : SymbolId) (type : Descriptor)
  | setVarargs (function : SymbolId) (varargs : Bool)
  | setReturnType (function : SymbolId) (type : Descriptor)
  | addParent (derived parent : SymbolId) (access : Access) (isVirtual : Bool)
  | addConstructor (owner function : SymbolId)
  | addConversion (owner function : SymbolId)
  | addTemplateParameter (template parameter : SymbolId)
  | addTemplateSpecialization (primary specialization : SymbolId)
  | mapDefinitionParameter (template : SymbolId) (name : Name) (parameter : SymbolId)
  | addUsingDirective (scope nominated : SymbolId)
  | addNamespaceAlias (scope : SymbolId) (name : Name) (target : SymbolId)
  | addUsingDeclaration (scope : SymbolId) (name : Name) (qualifier : SymbolId)
  | addExplicitSpecialization (template : SymbolId) (args : List Descriptor) (id : SymbolId)
  | lookup (scope : SymbolId) (name : Name) (options : LookupOptions)
  | lookupName (scope : SymbolId) (name : Name)
  | qualifiedLookup (qualifier : SymbolId) (name : Name)
  | lookupNestedName (scope : SymbolId) (name : Name) (qualified : Bool)
  | lookupFunction (scope : SymbolId) (name : Name) (args : List Descriptor)
  | qualifiedFunctionLookup (qualifier : SymbolId) (name : Name) (args : List Descriptor)
  | lookupConstructor (id : SymbolId) (args : List Descriptor)
  | lookupTemplateId (scope : SymbolId) (name : Name) (args : List Descriptor)
  | lookupCompletions (scope : SymbolId) (stem : String) (filter : Filter)
  | resolveFunction (candidates : List SymbolId) (args : Option (List Descriptor))
  | conversionCost (source target : Descriptor) (nested : Bool)
  | resolveType (type : Descriptor)
  | instantiate (template : SymbolId) (args : List Descriptor)

/-- Does the operation only ask?  Asking declares nothing, although it may make instances. -/
def Operation.IsQuestion : Operation → Prop
  | .intern _ | .lookup _ _ _ | .lookupName _ _ | .qualifiedLookup _ _ | .lookupNestedName _ _ _
  | .lookupFunction _ _ _ | .qualifiedFunctionLookup _ _ _ | .lookupConstructor _ _
  | .lookupTemplateId _ _ _ | .lookupCompletions _ _ _ | .resolveFunction _ _
  | .conversionCost _ _ _ | .resolveType _ | .instantiate _ _ => True
  | _ => False

namespace Analysis

/-- Carry out an operation; its value is of no interest here. -/
def carryOut : Operation → Analysis Unit
  | .intern text => discard (modifyGet (·.intern text))
  | .createBasic name type => discard (createBasic name type)
  | .createContainer name type => discard (createContainer name type)
  | .createClass name kind => discard (createClass name kind)
  | .createFunction name kind => discard (createFunction name kind)
  | .createTemplate name => discard (createTemplate name)
  | .createTemplateParameter name sort => discard (createTemplateParameter name sort)
  | .createTemplateTemplateParameter name => discard (createTemplateTemplateParameter name)
  | .createSpecialization name patterns => discard (createSpecialization name patterns)
  | .cloneSymbol id => discard (cloneSymbol id)
  | .setAccess id access => setAccess id access
  | .setType id type => setType id type
  | .setScope id scope inTemplate => assign id (.scope scope inTemplate)
  | .setForwardTarget id target => setForwardTarget id target
  | .setOrigin id origin => assign id (.origin (some origin))
  | .setParent derived position parent => setParent derived position parent
  | .insertMember scope id => insertMember scope id
  | .addSymbol scope id => addSymbol scope id
  | .addParameter function parameter => addParameter function parameter
  | .addParameterType function type => discard (addParameterType function type)
  | .setVarargs function varargs => setVarargs function varargs
  | .setReturnType function type => setReturnType function type
  | .addParent derived parent access isVirtual =>
      addParent derived parent access isVirtual
  | .addConstructor owner function => addConstructor owner function
  | .addConversion owner function => addConversion owner function
  | .addTemplateParameter template parameter => addTemplateParameter template parameter
  | .addTemplateSpecialization primary specialization =>
      addTemplateSpecialization primary specialization
  | .mapDefinitionParameter template name parameter =>
      mapDefinitionParameter template name parameter
  | .addUsingDirective scope nominated => addUsingDirective scope nominated
  | .addNamespaceAlias scope name target => discard (addNamespaceAlias scope name target)
  | .addUsingDeclaration scope name qualifier =>
      discard (addUsingDeclaration scope name qualifier)
  | .addExplicitSpecialization template args id =>
      discard (addExplicitSpecialization template args id)
  | .lookup scope name options => discard (lookup scope name options)
  | .lookupName scope name => discard (lookupName scope name)
  | .qualifiedLookup qualifier name => discard (qualifiedLookup qualifier name)
  | .lookupNestedName scope name qualified => discard (lookupNestedName scope name qualified)
  | .lookupFunction scope name args => discard (lookupFunction scope name args)
  | .qualifiedFunctionLookup qualifier name args =>
      discard (qualifiedFunctionLookup qualifier name args)
  | .lookupConstructor id args => discard (lookupConstructor id args)
  | .lookupTemplateId scope name args => discard (lookupTemplateId scope name args)
  | .lookupCompletions scope stem filter => discard (lookupCompletions scope stem filter)
  | .resolveFunction candidates args => discard (resolveFunction candidates args)
  | .conversionCost source target nested => discard (conversionCost source target nested)
  | .resolveType type => discard (resolveType type)
  | .instantiate template args => discard (instantiate template args)

variable {inv : Table → Prop} {before : Table}

theorem keeps_discard {α : Type} {step : Analysis α} (keeps : Keeps inv step) :
    Keeps inv (discard step) := by
  refine Yields.keeps_of_ends fun table hinv => ?_
  have hends := (keeps table hinv).1
  show EndsWith inv inv (fun _ => True) (EStateM.map _ step table)
  unfold EStateM.map
  cases hstep : step table with
  | ok value after =>
      rw [hstep] at hends
      exact ⟨hends.1, trivial⟩
  | error interrupt after =>
      rw [hstep] at hends
      cases interrupt with
      | error error => exact hends
      | fault fault => trivial

/-- Whatever is kept by instantiation and by interning a name is kept by asking. -/
theorem keeps_question (hinst : InstantiationKeeps inv)
    (interns : ∀ text, Keeps inv (modifyGet (·.intern text) : Analysis Name)) {question : Operation}
    (asks : question.IsQuestion) : Keeps inv (carryOut question) := by
  cases question with
  | intern text => exact keeps_discard (interns text)
  | lookup scope name options => exact keeps_discard (keeps_lookup hinst scope name options)
  | lookupName scope name => exact keeps_discard (keeps_lookupName hinst scope name)
  | qualifiedLookup qualifier name =>
      exact keeps_discard (keeps_qualifiedLookup hinst qualifier name)
  | lookupNestedName scope name qualified =>
      exact keeps_discard (keeps_lookupNestedName hinst scope name qualified)
  | lookupFunction scope name args =>
      exact keeps_discard (keeps_lookupFunction hinst scope name args)
  | qualifiedFunctionLookup qualifier name args =>
      exact keeps_discard (keeps_qualifiedFunctionLookup hinst qualifier name args)
  | lookupConstructor id args => exact keeps_discard (keeps_lookupConstructor hinst id args)
  | lookupTemplateId scope name args =>
      exact keeps_discard (keeps_lookupTemplateId hinst scope name args)
  | lookupCompletions scope stem filter =>
      exact keeps_discard ((interns stem).seq fun name => keeps_lookup hinst scope name _)
  | resolveFunction candidates args =>
      exact keeps_discard (keeps_resolveFunction hinst candidates args)
  | conversionCost source target nested =>
      exact keeps_discard (keeps_conversionCost hinst source target nested)
  | resolveType type => exact keeps_discard (keeps_resolveType hinst type)
  | instantiate template args => exact keeps_discard (keeps_instantiate hinst template args)
  | _ => exact asks.elim

open Evolution in
/-- Every operation evolves the table. -/
theorem keeps_carryOut (operation : Operation) :
    Keeps (Evolution before) (carryOut operation) := by
  have hinst : InstantiationKeeps (Evolution before) := instantiationKeeps
  cases operation with
  | intern text => exact keeps_question hinst keeps_intern trivial
  | createBasic | createTemplateParameter => exact keeps_discard (keeps_createBlank (by trivial))
  | createContainer | createClass | createFunction | createTemplate
  | createTemplateTemplateParameter => exact keeps_discard (keeps_createBlank rfl)
  | createSpecialization name patterns =>
      exact keeps_discard (keeps_createSpecialization name patterns)
  | cloneSymbol id => exact keeps_discard (keeps_cloneSymbol id)
  | setAccess id _ | setType id _ | setScope id _ _ | setForwardTarget id _ | setOrigin id _ =>
      exact keeps_edit id (by trivial)
  | setParent derived position parent => exact keeps_setParent derived position parent
  | insertMember scope id => exact keeps_insertMember scope id
  | addSymbol scope id => exact keeps_addSymbol scope id
  | addParameter function parameter => exact keeps_addParameter function parameter
  | addParameterType function type => exact keeps_discard (keeps_addParameterType function type)
  | setVarargs function varargs => exact keeps_setVarargs function varargs
  | setReturnType function type => exact keeps_setReturnType function type
  | addParent derived parent access isVirtual =>
      exact keeps_addParent derived parent access isVirtual
  | addConstructor owner function => exact keeps_addConstructor owner function
  | addConversion owner function => exact keeps_addConversion owner function
  | addTemplateParameter template parameter => exact keeps_addTemplateParameter template parameter
  | addTemplateSpecialization primary specialization =>
      exact keeps_addTemplateSpecialization primary specialization
  | mapDefinitionParameter template name parameter =>
      exact keeps_mapDefinitionParameter template name parameter
  | addUsingDirective scope nominated => exact keeps_addUsingDirective scope nominated
  | addNamespaceAlias scope name target =>
      exact keeps_discard (keeps_addNamespaceAlias scope name target)
  | addUsingDeclaration scope name qualifier =>
      exact keeps_discard (keeps_addUsingDeclaration scope name qualifier)
  | addExplicitSpecialization template args id =>
      exact keeps_discard (keeps_addExplicitSpecialization template args id)
  | lookup | lookupName | qualifiedLookup | lookupNestedName | lookupFunction
  | qualifiedFunctionLookup | lookupConstructor | lookupTemplateId | lookupCompletions
  | resolveFunction | conversionCost | resolveType | instantiate =>
      exact keeps_question hinst keeps_intern trivial

end Analysis

/-! ## Actions -/

/-- What a caller can do with a table. -/
inductive Action where
  | perform (operation : Operation)
  | mark
  | commit (mark : Mark)
  | rollback (mark : Mark)
  | setAstLink (id : SymbolId) (link : UInt64)
  | addFlags (id : SymbolId) (flags : Flags)

namespace Action

/-- Does the action leave a record of what it does to a symbol? -/
def IsRecorded : Action → Prop
  | .setAstLink _ _ => False
  | .addFlags _ _ => False
  | _ => True

/-- Carry out an action. -/
def run : Action → Analysis Unit
  | .perform operation => Analysis.carryOut operation
  | .mark => discard Analysis.mark
  | .commit released => discard (Analysis.commit released)
  | .rollback released => discard (Analysis.rollback released)
  | .setAstLink id link => Analysis.setAstLink id link
  | .addFlags id flags => Analysis.addFlags id flags

/-- The table after an action that succeeds or ends with a recoverable error; nothing if it ends
with a fault. -/
def after (action : Action) (table : Table) : Option Table :=
  match action.run table with
  | .ok _ next => some next
  | .error (.error _) next => some next
  | .error (.fault _) _ => none

/-- An invariant that the action keeps holds after it. -/
theorem keeps_after {action : Action} {inv : Table → Prop} {table next : Table}
    (ends : action.after table = some next) (keeps : Analysis.Keeps inv action.run)
    (hinv : inv table) : inv next := by
  have hkeeps := (keeps table hinv).1
  unfold after at ends
  cases hrun : action.run table with
  | ok value last =>
      rw [hrun] at hkeeps ends
      cases ends
      exact hkeeps.1
  | error interrupt last =>
      rw [hrun] at hkeeps ends
      cases interrupt with
      | error error =>
          cases ends
          exact hkeeps
      | fault fault => cases ends

/-- The table after an action whose value is of no interest. -/
theorem after_discard {α : Type} {action : Action} {step : Analysis α} {table next : Table}
    {value : α} (runs : action.run = discard step) (ends : step table = .ok value next) :
    action.after table = some next := by
  have hrun : action.run table = .ok () next := by
    rw [runs]
    show EStateM.map _ step table = _
    simp only [EStateM.map, ends]
  rw [after, hrun]

/-- The table after a mark. -/
theorem after_mark (table : Table) :
    Action.mark.after table = some { table with journal := (table.journal.mark table.size).2 } :=
  after_discard rfl rfl

end Action

/-- The tables that actions lead to from a new one. -/
inductive Reachable : Table → Prop where
  | new (config : Config) : Reachable (Table.new config)
  | act {table next : Table} (reachable : Reachable table) (action : Action)
      (ends : action.after table = some next) : Reachable next

/-! ## What holds in every reachable table -/

/-- No instantiation is running, and no scope lists a name without members. -/
structure Table.Settled (table : Table) : Prop where
  idle : table.Idle
  tidy : table.Tidy

namespace Table.Settled

open Analysis

theorem new (config : Config) : (Table.new config).Settled := by
  refine ⟨rfl, fun symbol member => ?_⟩
  have hsymbol : symbol =
      { name := Name.empty, type := .ofKind .nspace, payload := .container {} } := by
    simpa [Table.new] using member
  rw [hsymbol]
  exact Symbol.Tidy.of_blank rfl

/-- A change of one symbol that leaves its members alone. -/
theorem keeps_annotate (id : SymbolId) {change : Symbol → Symbol}
    (same : ∀ symbol, (change symbol).decls? = symbol.decls?) :
    Keeps Settled (modify fun table =>
      { table with symbols := table.symbols.modify id.index change } : Analysis Unit) :=
  Yields.update
    (fun _ settled => ⟨settled.idle, Tidy.of_modify settled.tidy id.index fun symbol tidy =>
      tidy.of_decls_eq (same symbol)⟩)
    fun _ _ _ => trivial

theorem keeps_undoAll (taken : List Record) : Keeps Settled (undoAll taken) := by
  induction taken with
  | nil => exact Yields.pure trivial
  | cons record rest ih =>
      cases record with
      | mark id size => exact Yields.violated _ _
      | edit id reversal =>
          have hundo : Keeps Settled (modify (·.undo id reversal) : Analysis Unit) := by
            refine Yields.update (fun table settled => ⟨settled.idle, ?_⟩) fun _ _ _ => trivial
            exact Tidy.of_modify settled.tidy id.index fun _ => reversal.apply_tidy
          exact hundo.seq fun _ => ih

theorem keeps_truncate (size : Nat) : Keeps Settled (modify (·.truncate size) : Analysis Unit) := by
  refine Yields.update (fun table settled => ⟨settled.idle, fun symbol member => ?_⟩)
    fun _ _ _ => trivial
  have hmember : symbol ∈ table.symbols.take size := member
  obtain ⟨index, hindex⟩ := Array.mem_iff_getElem?.mp hmember
  rw [Array.take_eq_extract, Array.getElem?_extract] at hindex
  split at hindex
  · exact settled.tidy symbol (Array.mem_of_getElem? hindex)
  · cases hindex

/-- The journal is no part of it. -/
theorem setJournal {table : Table} (settled : table.Settled) (journal : Journal) :
    Settled { table with journal } :=
  ⟨settled.idle, settled.tidy⟩

theorem keeps_rollback (mark : Mark) : Keeps Settled (rollback mark) := by
  intro table settled
  refine YieldsAt.read ?_
  split
  · exact Yields.pure trivial table settled
  · split
    · exact Yields.violated _ _ table settled
    · rename_i taken size kept hsplit
      refine (YieldsAt.set (settled.setJournal _) fun _ => trivial).bind fun _ _ => ?_
      refine (keeps_undoAll taken).seq fun _ => ?_
      exact (keeps_truncate size).seq fun _ => Yields.pure trivial

theorem keeps_commit (mark : Mark) : Keeps Settled (commit mark) := by
  intro table settled
  refine YieldsAt.read ?_
  split
  · exact Yields.pure trivial table settled
  · refine (YieldsAt.set (settled.setJournal _) fun _ => trivial).bind fun _ _ => ?_
    exact Yields.pure trivial

/-- Every action that does not end with a fault leads from a settled table to a settled one. -/
theorem act {table next : Table} (settled : table.Settled) {action : Action}
    (ends : action.after table = some next) : next.Settled := by
  cases action with
  | perform operation =>
      have hevolution : Evolution table next :=
        Action.keeps_after ends (keeps_carryOut operation)
          (Evolution.refl settled.idle settled.tidy)
      exact ⟨hevolution.idle, hevolution.tidy⟩
  | mark =>
      have hmark : Keeps Settled Analysis.mark :=
        Yields.updateGet (fun _ before => ⟨before.setJournal _, trivial⟩) fun _ _ _ => trivial
      exact Action.keeps_after ends (keeps_discard hmark) settled
  | commit mark => exact Action.keeps_after ends (keeps_discard (keeps_commit mark)) settled
  | rollback mark => exact Action.keeps_after ends (keeps_discard (keeps_rollback mark)) settled
  | setAstLink id link =>
      exact Action.keeps_after ends (keeps_annotate id fun _ => rfl) settled
  | addFlags id flags =>
      exact Action.keeps_after ends (keeps_annotate id fun _ => rfl) settled

end Table.Settled

/-- Every reachable table is settled. -/
theorem Reachable.settled {table : Table} (reachable : Reachable table) : table.Settled := by
  induction reachable with
  | new config => exact Table.Settled.new config
  | act _ action ends ih => exact ih.act ends

end NameBinding
