import NameBinding.Proofs.Operation.Restorable
import NameBinding.Proofs.Table.LinkMoves

/-!
# The representation invariant

A caller who only refers to symbols that exist never makes the table refer to one that does not.

* `Operation.mentions` and `Action.mentions`: what the arguments of an operation or action refer to.
* `moves_carryOut` and `moves_carryOut_linking`: what operations do to a table, those that leave links
  alone and all of them.
* `Reached` and `Grounded`: the tables that a caller reaches with allowed actions, and those
  reached by a caller who only refers to symbols of the table.

The main statement is `grounded_table_represented`: in every such table, whether operations succeeded or
failed and whatever was committed or rolled back, every symbol that is mentioned anywhere exists, and the
members of a scope by name are its members in order that have this name.
-/

namespace NameBinding

/-! ## What arguments refer to -/

/-- The symbols that the options of a lookup refer to. -/
def LookupOptions.mentions (options : LookupOptions) : List SymbolId :=
  options.stopScope.toList ++ Descriptor.mentionsAll (options.arguments.getD [])

/-- The symbols that the arguments of an operation refer to. -/
def Operation.mentions : Operation → List SymbolId
  | .intern _ | .createClass _ _ | .createFunction _ _ | .createTemplate _
  | .createTemplateParameter _ _ | .createTemplateTemplateParameter _ => []
  | .createBasic _ type | .createContainer _ type | .resolveType type => type.mentions
  | .createSpecialization _ patterns => Descriptor.mentionsAll patterns
  | .cloneSymbol id | .setAccess id _ | .setVarargs id _ => [id]
  | .setType id type | .addParameterType id type | .setReturnType id type => id :: type.mentions
  | .setScope id scope _ => id :: scope.toList
  | .setOrigin id origin => id :: origin.mentions
  | .setForwardTarget a b | .setParent a _ b | .insertMember a b | .addSymbol a b
  | .addParameter a b | .addParent a b _ _ | .addConstructor a b | .addConversion a b
  | .addTemplateParameter a b | .addTemplateSpecialization a b | .mapDefinitionParameter a _ b
  | .addUsingDirective a b | .addNamespaceAlias a _ b | .addUsingDeclaration a _ b => [a, b]
  | .addExplicitSpecialization template args id => template :: id :: Descriptor.mentionsAll args
  | .lookup scope _ options => scope :: options.mentions
  | .lookupName scope _ | .qualifiedLookup scope _ | .lookupNestedName scope _ _
  | .lookupCompletions scope _ _ => [scope]
  | .lookupFunction scope _ args | .qualifiedFunctionLookup scope _ args
  | .lookupConstructor scope args | .lookupTemplateId scope _ args
  | .instantiate scope args => scope :: Descriptor.mentionsAll args
  | .resolveFunction candidates args => candidates ++ Descriptor.mentionsAll (args.getD [])
  | .conversionCost source target _ => source.mentions ++ target.mentions

/-- The symbols that the arguments of an action refer to. -/
def Action.mentions : Action → List SymbolId
  | .perform operation => operation.mentions
  | .mark | .commit _ | .rollback _ => []
  | .setAstLink id _ | .addFlags id _ => [id]

/-- Does the operation redirect declarations to others? -/
def Operation.Redirects : Operation → Prop
  | .setForwardTarget _ _ | .addSymbol _ _ | .addNamespaceAlias _ _ _
  | .addExplicitSpecialization _ _ _ => True
  | _ => False

/-! ## What operations do -/

namespace Analysis

variable {regime : Regime} {table next : Table}

theorem moves_discard {α : Type} {step : Analysis α} {result : Table → α → Prop}
    (moves : MovesAt regime step result table) :
    MovesAt regime (discard step) (fun _ _ => True) table := by
  have hmap : discard step table = EStateM.map (fun _ => ()) step table := rfl
  unfold MovesAt at moves ⊢
  rw [hmap]
  unfold EStateM.map
  cases hstep : step table with
  | ok value after =>
      rw [hstep] at moves
      exact ⟨moves.1, trivial⟩
  | error interrupt after =>
      rw [hstep] at moves
      cases interrupt with
      | error error => exact moves
      | fault fault => trivial

theorem moves_intern (text : String) (sound : regime.Sound table) :
    MovesAt regime (modifyGet (·.intern text) : Analysis Name) (fun _ _ => True) table := by
  have hchange : Change regime table (table.intern text).2 :=
    .elsewhere rfl ⟨sound.work.contexts, sound.work.queue⟩ (fun _ _ => rfl) (fun _ queued _ => queued)
      fun _ queued => .inl queued
  exact .of_ok rfl (.of_change hchange rfl) trivial

/-- An operation that leaves links alone only declares what its arguments refer to. -/
theorem moves_carryOut {operation : Operation} (keeps : ¬ operation.Redirects)
    (sound : Regime.declaring.Sound table) (within : Within table.size operation.mentions) :
    MovesAt .declaring (carryOut operation) (fun _ _ => True) table := by
  cases operation with
  | intern text => exact moves_discard (moves_intern text sound)
  | createBasic name type => exact moves_discard (moves_createBlank name within (by trivial) rfl)
  | createContainer name type => exact moves_discard (moves_createBlank name within rfl rfl)
  | createClass name kind | createFunction name kind =>
      exact moves_discard (moves_createBlank name (Descriptor.Below.ofKind _ kind) rfl rfl)
  | createTemplate name =>
      exact moves_discard (moves_createBlank name (Descriptor.Below.ofKind _ .template) rfl rfl)
  | createTemplateParameter name sort =>
      have hsort := Descriptor.Below.ofParameter table.size sort
      exact moves_discard (moves_createBlank name hsort (by trivial) rfl)
  | createTemplateTemplateParameter name =>
      have hsort := Descriptor.Below.ofParameter table.size .template
      exact moves_discard (moves_createBlank name hsort rfl rfl)
  | createSpecialization name patterns =>
      exact moves_discard (moves_createSpecialization name (Descriptor.within_mentionsAll.mp within))
  | cloneSymbol id => exact moves_discard (moves_cloneSymbol id sound)
  | setAccess id access =>
      exact (moves_assign id (by trivial) (by simp [Assignment.mentions])).weaken
        fun _ _ _ _ => trivial
  | setType id type =>
      obtain ⟨-, htype⟩ := (Within.cons id).mp within
      exact (moves_assign id (by trivial) htype).weaken fun _ _ _ _ => trivial
  | setScope id scope inTemplate =>
      obtain ⟨-, hscope⟩ := (Within.cons id).mp within
      exact (moves_assign id (by trivial) hscope).weaken fun _ _ _ _ => trivial
  | setOrigin id origin =>
      obtain ⟨-, horigin⟩ := (Within.cons id).mp within
      exact (moves_assign id (by trivial) horigin).weaken fun _ _ _ _ => trivial
  | setParent derived position parent =>
      simp only [Operation.mentions, Within.cons] at within
      exact moves_setParent derived position within.2.1
  | insertMember scope id =>
      simp only [Operation.mentions, Within.cons] at within
      exact moves_insertMember sound within.1 within.2.1
  | addParameter function parameter =>
      simp only [Operation.mentions, Within.cons] at within
      exact moves_addParameter sound within.1 within.2.1
  | addParameterType function type =>
      obtain ⟨hfunction, htype⟩ := (Within.cons function).mp within
      exact moves_discard (moves_addParameterType sound hfunction htype)
  | setVarargs function varargs => exact moves_setVarargs function varargs
  | setReturnType function type =>
      obtain ⟨-, htype⟩ := (Within.cons function).mp within
      exact moves_setReturnType function htype
  | addParent derived parent access isVirtual =>
      simp only [Operation.mentions, Within.cons] at within
      exact moves_addParent derived access isVirtual sound within.2.1
  | addConstructor owner function =>
      simp only [Operation.mentions, Within.cons] at within
      exact moves_addConstructor sound within.1 within.2.1
  | addConversion owner function =>
      simp only [Operation.mentions, Within.cons] at within
      exact moves_addConversion sound within.1 within.2.1
  | addTemplateParameter template parameter =>
      simp only [Operation.mentions, Within.cons] at within
      exact moves_addTemplateParameter sound within.1 within.2.1
  | addTemplateSpecialization primary specialization =>
      simp only [Operation.mentions, Within.cons] at within
      exact moves_addTemplateSpecialization sound within.1 within.2.1
  | mapDefinitionParameter template name parameter =>
      simp only [Operation.mentions, Within.cons] at within
      exact moves_mapDefinitionParameter template name within.2.1
  | addUsingDirective scope nominated =>
      simp only [Operation.mentions, Within.cons] at within
      exact moves_addUsingDirective sound within.1 within.2.1
  | addUsingDeclaration scope name qualifier =>
      simp only [Operation.mentions, Within.cons] at within
      exact moves_discard (moves_addUsingDeclaration name qualifier sound within.1)
  | lookup scope name options =>
      obtain ⟨-, hoptions⟩ := (Within.cons scope).mp within
      have hbelow : options.Below table.size := by
        intro args given
        simp only [LookupOptions.mentions, Within.append, given, Option.getD_some] at hoptions
        exact Descriptor.within_mentionsAll.mp hoptions.2
      exact moves_discard (moves_lookup scope name sound hbelow)
  | lookupName scope name => exact moves_discard (moves_lookupName scope name sound)
  | qualifiedLookup qualifier name => exact moves_discard (moves_qualifiedLookup qualifier name sound)
  | lookupNestedName scope name qualified =>
      exact moves_discard (moves_lookupNestedName scope name qualified sound)
  | lookupFunction scope name args =>
      have hargs := Descriptor.within_mentionsAll.mp ((Within.cons scope).mp within).2
      exact moves_discard (moves_lookupFunction scope name sound hargs)
  | qualifiedFunctionLookup qualifier name args =>
      have hargs := Descriptor.within_mentionsAll.mp ((Within.cons qualifier).mp within).2
      exact moves_discard (moves_qualifiedFunctionLookup qualifier name sound hargs)
  | lookupConstructor id args =>
      have hargs := Descriptor.within_mentionsAll.mp ((Within.cons id).mp within).2
      exact moves_discard (moves_lookupConstructor id sound hargs)
  | lookupTemplateId scope name args =>
      have hargs := Descriptor.within_mentionsAll.mp ((Within.cons scope).mp within).2
      exact moves_discard (moves_lookupTemplateId scope name sound hargs)
  | lookupCompletions scope stem filter =>
      have hlookup : MovesAt .declaring (lookupCompletions scope stem filter) (fun _ _ => True)
          table := by
        refine (moves_intern stem sound).bind sound fun name after _ hsound _ => ?_
        exact (moves_lookup scope name hsound (.of_none rfl)).weaken fun _ _ _ _ => trivial
      exact moves_discard hlookup
  | resolveFunction candidates args =>
      have hargs := (Within.append.mp within).2
      refine moves_discard (moves_resolveFunction candidates sound fun types given => ?_)
      rw [given] at hargs
      exact Descriptor.within_mentionsAll.mp hargs
  | conversionCost source target nested =>
      obtain ⟨hsource, htarget⟩ := Within.append.mp within
      exact moves_discard (moves_conversionCost nested source target table sound hsource htarget)
  | resolveType type => exact moves_discard (moves_resolveType type table sound within)
  | instantiate template args =>
      have hargs := Descriptor.within_mentionsAll.mp ((Within.cons template).mp within).2
      have hmade := moves_instantiate template sound.copying hargs
      exact moves_discard (hmade.mono (Regime.declaring_allows_copying 0 0))
  | setForwardTarget | addSymbol | addNamespaceAlias | addExplicitSpecialization =>
      exact absurd trivial keeps

/-- Whatever an operation does, it brings in nothing but what its arguments refer to. -/
theorem moves_carryOut_linking (operation : Operation) (sound : Regime.linking.Sound table)
    (within : Within table.size operation.mentions) :
    MovesAt .linking (carryOut operation) (fun _ _ => True) table := by
  have hlinks : ∀ new, AllowsLinks .linking new fun _ => True := allowsLinks_linking
  by_cases hredirects : operation.Redirects
  · cases operation with
    | setForwardTarget id target =>
        simp only [Operation.mentions, Within.cons] at within
        have htarget : Within table.size (Edit.assign (.forwardTarget (some target))).mentions := by
          simpa [Edit.mentions, Assignment.mentions] using within.2.1
        exact (moves_edit (by trivial) htarget (by simp) (by trivial)).weaken fun _ _ _ _ => trivial
    | addSymbol scope id =>
        simp only [Operation.mentions, Within.cons] at within
        exact moves_addSymbol (hlinks id) sound trivial within.1 within.2.1
    | addNamespaceAlias scope name target =>
        simp only [Operation.mentions, Within.cons] at within
        exact moves_discard (moves_addNamespaceAlias name (hlinks _) (fun _ _ => trivial) sound
          within.1 within.2.1)
    | addExplicitSpecialization template args id =>
        simp only [Operation.mentions, Within.cons] at within
        obtain ⟨htemplate, hid, hargs⟩ := within
        have hgiven := Descriptor.within_mentionsAll.mp hargs
        refine moves_discard (moves_addExplicitSpecialization (hlinks id).declares
          (fun entity => ?_) sound htemplate hid hgiven)
        have hmade := (moves_instantiate entity sound.declaring.copying hgiven).mono
          (Regime.declaring_allows_copying 0 0)
        refine moves_specializeMember (hlinks id) (fun _ _ => trivial) (fun _ _ _ => trivial)
          ((hmade.mono (hlinks id).declares).weaken fun _ _ _ made => ⟨made, trivial⟩) sound hid
    | _ => exact hredirects.elim
  · exact (moves_carryOut hredirects sound.declaring within).mono (hlinks ⟨0⟩).declares

/-- What an operation does is done, whether it succeeds or fails. -/
theorem moved_after {operation : Operation}
    (moves : MovesAt regime (carryOut operation) (fun _ _ => True) table)
    (ends : (Action.perform operation).after table = some next) : Moved regime table next := by
  unfold Action.after at ends
  cases hrun : (Action.perform operation).run table with
  | ok value after =>
      rw [hrun] at ends
      cases ends
      exact (moves.ok hrun).1
  | error interrupt after =>
      rw [hrun] at ends
      cases interrupt with
      | error error =>
          cases ends
          exact (moves.error hrun).1
      | fault fault => cases ends

end Analysis

/-! ## The invariant -/

/-- Flags and syntax nodes mention nothing. -/
theorem Symbol.mentions_plain (symbol : Symbol) : symbol.plain.mentions = symbol.mentions := by
  have htype : ({ symbol.type with flags := {} } : Descriptor).mentions = symbol.type.mentions := by
    obtain ⟨kind, flags, ops, link, args, sort, constant, value⟩ := symbol.type
    simp [Descriptor.mentions]
  simp only [mentions, plain, htype]

theorem Table.Represented.ignoresFlags : IgnoresFlags Table.Represented := by
  intro table after same represented
  have hplain : ∀ x, (after.symbol x).plain = (table.symbol x).plain := same.symbol_eq
  have hname : ∀ x, (after.symbol x).name = (table.symbol x).name := by
    intro x
    show (after.symbol x).plain.name = (table.symbol x).plain.name
    rw [hplain]
  constructor
  · intro x
    have hmentions : (after.symbol x).mentions = (table.symbol x).mentions := by
      rw [← Symbol.mentions_plain, hplain, Symbol.mentions_plain]
    rw [hmentions, Table.size, same.size_eq]
    exact represented.within x
  · intro x
    simp only [hname]
    refine (represented.indexed x).of_eq ?_ ?_
    · show (after.symbol x).plain.membersNamed = (table.symbol x).plain.membersNamed
      rw [hplain]
    · show (after.symbol x).plain.contents = (table.symbol x).plain.contents
      rw [hplain]

/-- The tables that a caller reaches who takes only actions that are allowed. -/
inductive Reached (allowed : Table → Action → Prop) : Table → Prop where
  | new (config : Config) : Reached allowed (Table.new config)
  | act {table next : Table} (reached : Reached allowed table) (action : Action)
      (allows : allowed table action) (ends : action.after table = some next) : Reached allowed next

theorem Reached.mono {weak strong : Table → Action → Prop} {table : Table}
    (reached : Reached strong table)
    (implies : ∀ table action, strong table action → weak table action) : Reached weak table := by
  induction reached with
  | new config => exact .new config
  | act _ action allows ends ih => exact .act ih action (implies _ _ allows) ends

/-- The action only refers to symbols of the table. -/
def Action.Refers (table : Table) (action : Action) : Prop := Within table.size action.mentions

/-- The tables that a caller reaches who only refers to symbols of the table. -/
abbrev Grounded : Table → Prop := Reached Action.Refers

/-- A new table holds only the global namespace, which is empty. -/
theorem Table.Represented.new (config : Config) : (Table.new config).Represented := by
  have hsymbol : ∀ id, ((Table.new config).symbol id).mentions = [] ∧
      ((Table.new config).symbol id).payload.Blank := by
    rintro ⟨index⟩
    cases index with
    | zero => exact ⟨rfl, rfl⟩
    | succ index =>
        rw [Table.symbol_of_getElem?_none (by simp [Table.new])]
        exact ⟨rfl, trivial⟩
  constructor
  · intro id
    rw [(hsymbol id).1]
    simp
  · exact fun id => .of_blank (hsymbol id).2 _

/-- The regime needs no more than that everything mentioned exists and nothing is running. -/
theorem Regime.Sound.of_settled {table : Table} (represented : table.Represented)
    (settled : table.Settled) : Regime.linking.Sound table := by
  have hidle := settled.idle
  unfold Table.Idle at hidle
  refine ⟨represented, ⟨?_, ?_⟩, .inl settled.idle, Nat.zero_le _, Nat.zero_le _⟩
  · simp [hidle]
  · simp [hidle]

/-- Everything mentioned goes on existing, whatever is done and taken back. -/
theorem Reached.represented_sheltered {table : Table} (grounded : Grounded table) :
    Sheltered Table.Represented table := by
  induction grounded with
  | new config => exact .new config (.new config)
  | act _ action refers ends ih =>
      refine ih.act Table.Represented.ignoresFlags ends ?_
      rintro operation rfl
      have hsound := Regime.Sound.of_settled ih.holds ih.settled
      have hmoved := Analysis.moved_after
        (Analysis.moves_carryOut_linking operation hsound refers) ends
      exact hmoved.changes.represented ih.holds

/-- The representation invariant of a table.  Whatever a caller does who only refers to symbols that
exist, and however it ends: every symbol that is mentioned anywhere in the table is in the table; the
members of a name are the members in order that have this name; and no name is listed without members. -/
theorem grounded_table_represented {table : Table} (grounded : Grounded table) :
    (∀ symbol ∈ table.symbols, ∀ id ∈ symbol.mentions, id.index < table.size) ∧
      (∀ symbol ∈ table.symbols, ∀ name, symbol.membersNamed name =
        symbol.contents.filter fun member => (table.symbol member).name = name) ∧
      ∀ symbol ∈ table.symbols, ∀ decls, symbol.decls? = some decls →
        ∀ entry ∈ decls.byName, entry.2 ≠ [] := by
  have hsheltered := grounded.represented_sheltered
  have hread : ∀ symbol ∈ table.symbols, ∃ id, table.symbol id = symbol := by
    intro symbol member
    obtain ⟨index, hindex⟩ := Array.mem_iff_getElem?.mp member
    exact ⟨⟨index⟩, Table.symbol_of_getElem? hindex⟩
  refine ⟨?_, ?_, ?_⟩
  · intro symbol member
    obtain ⟨id, rfl⟩ := hread symbol member
    exact hsheltered.holds.within id
  · intro symbol member
    obtain ⟨id, rfl⟩ := hread symbol member
    exact hsheltered.holds.indexed id
  · intro symbol member
    exact hsheltered.settled.tidy symbol member

/-! ## A run -/

instance {size : Nat} {ids : List SymbolId} : Decidable (Within size ids) :=
  inferInstanceAs (Decidable (∀ id ∈ ids, id.index < size))

instance {table : Table} {action : Action} : Decidable (action.Refers table) :=
  inferInstanceAs (Decidable (Within table.size action.mentions))

/-- Are all the actions allowed, and does none of them end with a fault? -/
def Table.permits (allowed : Table → Action → Prop)
    [∀ table action, Decidable (allowed table action)] (table : Table) : List Action → Bool
  | [] => true
  | action :: rest =>
      decide (allowed table action) &&
        match action.after table with
        | none => false
        | some next => next.permits allowed rest

/-- The last table of a run. -/
def Table.ran (table : Table) : List Action → Table
  | [] => table
  | action :: rest =>
      match action.after table with
      | none => table
      | some next => next.ran rest

theorem Reached.ran {allowed : Table → Action → Prop}
    [∀ table action, Decidable (allowed table action)] {table : Table}
    (reached : Reached allowed table) {actions : List Action}
    (permits : table.permits allowed actions = true) : Reached allowed (table.ran actions) := by
  induction actions generalizing table with
  | nil => exact reached
  | cons action rest ih =>
      simp only [Table.permits, Bool.and_eq_true, decide_eq_true_eq] at permits
      unfold Table.ran
      cases hafter : action.after table with
      | none => simp [hafter] at permits
      | some next =>
          simp only [hafter] at permits
          exact ih (reached.act action permits.1 hafter) permits.2

/-- A class template with a member of its parameter's type is instantiated.  Under a mark a second
instance is made, a definition is rejected, and all of it is taken back. -/
def instantiatedAndRolledBack : List Action :=
  [.perform (.createTemplate ⟨17⟩), .perform (.createTemplateParameter ⟨18⟩ .typeName),
    .perform (.addTemplateParameter ⟨1⟩ ⟨2⟩), .perform (.createClass ⟨17⟩ .struct),
    .perform (.addSymbol ⟨1⟩ ⟨3⟩), .perform (.createBasic ⟨19⟩ (.ofSymbol ⟨2⟩)),
    .perform (.addSymbol ⟨3⟩ ⟨4⟩), .perform (.addSymbol ⟨0⟩ ⟨1⟩),
    .perform (.instantiate ⟨1⟩ [.ofKind .int]), .mark,
    .perform (.instantiate ⟨1⟩ [.ofKind .char]), .perform (.createClass ⟨20⟩ .struct),
    .perform (.addSymbol ⟨0⟩ ⟨9⟩), .perform (.createClass ⟨20⟩ .struct),
    .perform (.addSymbol ⟨0⟩ ⟨10⟩), .rollback ⟨1⟩]

/-- After the rollback the template still mentions its first instance, which is in the table. -/
theorem rolled_back_table_represented :
    ∃ table, Grounded table ∧ table.size = 7 ∧ ⟨5⟩ ∈ (table.symbol ⟨1⟩).mentions ∧
      (∀ symbol ∈ table.symbols, ∀ id ∈ symbol.mentions, id.index < table.size) ∧
      (∀ symbol ∈ table.symbols, ∀ name, symbol.membersNamed name =
        symbol.contents.filter fun member => (table.symbol member).name = name) ∧
      ∀ symbol ∈ table.symbols, ∀ decls, symbol.decls? = some decls →
        ∀ entry ∈ decls.byName, entry.2 ≠ [] := by
  have hgrounded : Grounded ((Table.new {}).ran instantiatedAndRolledBack) :=
    Reached.ran (.new {}) (by decide +kernel)
  exact ⟨_, hgrounded, by decide +kernel, by decide +kernel, grounded_table_represented hgrounded⟩

end NameBinding
