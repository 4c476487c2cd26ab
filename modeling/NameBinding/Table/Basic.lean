import NameBinding.Journal
import NameBinding.Template.State

/-!
# The symbol table

A `Table` owns everything known about one program unit: the declarations, the interned names,
the undo journal, and the state of running instantiations.  Declarations are only ever added at the
end, so a handle stays valid until a rollback truncates the table.

* `Table.allocate` adds a declaration.
* `Table.perform` edits one and leaves a record in the journal.
* `Table.write` edits one without a record, for declarations that no rollback would keep.
* `Analysis` is the monad of engine steps: the table is kept when a step ends early, since the side
  effects of a failed step stay.
-/

namespace NameBinding

/-- The source language.  C has no using-directives and no argument-dependent lookup. -/
inductive Language where
  | c
  | cxx
  deriving DecidableEq, Repr

/-- What is fixed when a table is made. -/
structure Config where
  language : Language := .cxx
  /-- Completion mode allows lookups by the beginning of a name. -/
  completion : Bool := false
  /-- How many passes over queued work an instantiation may take before it is abandoned. -/
  passLimit : Nat := 32
  /-- How deeply the engine follows template-ids inside each other before it gives up.  No bound
  would do for every program: default arguments can ask for ever new instances. -/
  nestingLimit : Nat := 100000
  deriving DecidableEq, Repr

namespace Config

/-- Are the C++ rules in force? -/
def isCxx (config : Config) : Bool := config.language == .cxx

end Config

/-- Everything known about one program unit. -/
structure Table where
  config : Config
  interner : Interner
  symbols : Array Symbol
  journal : Journal
  templates : InstantiationState

namespace Table

/-- The global namespace is the first declaration. -/
def globalScope : SymbolId := ⟨0⟩

/-- A table that holds only the global namespace. -/
def new (config : Config) : Table where
  config := config
  interner := Interner.initial
  symbols := #[{ name := Name.empty, type := .ofKind .nspace, payload := .container {} }]
  journal := {}
  templates := {}

/-- The number of declarations. -/
def size (table : Table) : Nat := table.symbols.size

/-- The declaration at a handle. -/
def symbol (table : Table) (id : SymbolId) : Symbol := table.symbols.getD id.index default

/-- The spelling of a name. -/
def spelling (table : Table) (name : Name) : String := table.interner.lookup name

/-- The spelling of the name of a declaration. -/
def nameOf (table : Table) (id : SymbolId) : String := table.spelling (table.symbol id).name

/-- Intern a spelling. -/
def intern (table : Table) (text : String) : Name × Table :=
  let (name, interner) := table.interner.intern text
  (name, { table with interner })

/-- Add a declaration at the end. -/
def allocate (table : Table) (symbol : Symbol) : SymbolId × Table :=
  (⟨table.size⟩, { table with symbols := table.symbols.push symbol })

/-- Edit a declaration and leave no record.  A declaration that is younger than every live mark needs
none: a rollback discards it. -/
def write (table : Table) (id : SymbolId) (edit : Edit) : Table :=
  { table with symbols := table.symbols.modify id.index edit.apply }

/-- Edit a declaration and record how to take the edit back. -/
def perform (table : Table) (id : SymbolId) (edit : Edit) : Table :=
  let journal := table.journal.push (.edit id (edit.reversal (table.symbol id)))
  { table with journal, symbols := table.symbols.modify id.index edit.apply }

/-- The members of `scope` called `name`, oldest first. -/
def members (table : Table) (scope : SymbolId) (name : Name) : List SymbolId :=
  (table.symbol scope).membersNamed name

/-- The declaration a template introduces: its first member of its own name. -/
def templated? (table : Table) (template : SymbolId) : Option SymbolId :=
  let symbol := table.symbol template
  symbol.templateData?.bind fun data => (data.decls.get symbol.name).head?

end Table

/-- A step of the engine.  It may end early, and the table is kept either way. -/
abbrev Analysis := EStateM Interrupt Table

namespace Analysis

/-- End with a recoverable error. -/
def fail {α : Type} (error : SemanticError) : Analysis α := throw (.error error)

/-- End because the kind of a symbol does not support what was asked. -/
def unsupported {α : Type} (operation : Unsupported) : Analysis α :=
  throw (.fault (.unsupported operation))

/-- End because an internal condition does not hold. -/
def violated {α : Type} (condition : Invariant) : Analysis α :=
  throw (.fault (.invariant condition))

/-- The outcome of a query as a step. -/
def ofExcept {α : Type} : Except SemanticError α → Analysis α
  | .ok value => pure value
  | .error error => fail error

/-- Turn a recoverable error of a step into its result.  What the step did stays done, and faults
still end the run. -/
def attempt {α : Type} (step : Analysis α) : Analysis (Except SemanticError α) := fun table =>
  match step table with
  | .ok value after => .ok (.ok value) after
  | .error (.error error) after => .ok (.error error) after
  | .error (.fault fault) after => .error (.fault fault) after

/-- Add a declaration at the end. -/
def create (symbol : Symbol) : Analysis SymbolId := modifyGet (·.allocate symbol)

/-- Edit a declaration and record how to take the edit back. -/
def edit (id : SymbolId) (edit : Edit) : Analysis Unit := modify (·.perform id edit)

/-- Edit a declaration and leave no record. -/
def write (id : SymbolId) (edit : Edit) : Analysis Unit := modify (·.write id edit)

/-- Assign a field of a declaration. -/
def assign (id : SymbolId) (assignment : Assignment) : Analysis Unit :=
  edit id (.assign assignment)

/-- Append to a list of a declaration. -/
def append (id : SymbolId) (entry : Entry) : Analysis Unit := edit id (.append entry)

end Analysis

end NameBinding
