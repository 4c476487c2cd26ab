import NameBinding.Symbol.Basic

/-!
# Edits of a symbol and their reversal

Every change of a symbol after its creation is an `Edit`: a field is assigned, an entry is appended
to one of the symbol's lists, or a member is inserted.  `Edit.reversal` says, from the symbol before
the edit, how to take it back; a reversal touches nothing but what the edit changed.

An edit of a part that the symbol's payload does not have changes nothing, and neither does its
reversal.
-/

namespace NameBinding

namespace Symbol

/-- Change the members of a symbol that can have any. -/
def mapDecls (change : Declarations → Declarations) (symbol : Symbol) : Symbol :=
  match symbol.payload with
  | .container decls => { symbol with payload := .container (change decls) }
  | .cls data => { symbol with payload := .cls { data with decls := change data.decls } }
  | .function data => { symbol with payload := .function { data with decls := change data.decls } }
  | .template data => { symbol with payload := .template { data with decls := change data.decls } }
  | .basic | .placeholder _ => symbol

/-- Change what a class holds. -/
def mapClass (change : ClassData → ClassData) (symbol : Symbol) : Symbol :=
  match symbol.payload with
  | .cls data => { symbol with payload := .cls (change data) }
  | _ => symbol

/-- Change what a function holds. -/
def mapFunction (change : FunctionData → FunctionData) (symbol : Symbol) : Symbol :=
  match symbol.payload with
  | .function data => { symbol with payload := .function (change data) }
  | _ => symbol

/-- Change what a template holds. -/
def mapTemplate (change : TemplateData → TemplateData) (symbol : Symbol) : Symbol :=
  match symbol.payload with
  | .template data => { symbol with payload := .template (change data) }
  | _ => symbol

end Symbol

/-- Bind a name, in place if it is bound already and at the end otherwise. -/
def bindName : List (Name × SymbolId) → Name → SymbolId → List (Name × SymbolId)
  | [], name, id => [(name, id)]
  | (key, bound) :: rest, name, id =>
      if key = name then (key, id) :: rest else (key, bound) :: bindName rest name id

/-- Forget the binding of a name. -/
def unbindName : List (Name × SymbolId) → Name → List (Name × SymbolId)
  | [], _ => []
  | (key, bound) :: rest, name =>
      if key = name then rest else (key, bound) :: unbindName rest name

/-- The assignment of a value to a field. -/
inductive Assignment where
  | scope (scope : Option SymbolId) (inTemplate : Bool)
  | type (type : Descriptor)
  | access (access : Access)
  | forwardTarget (target : Option SymbolId)
  | aliasOf (target : Option SymbolId)
  | origin (origin : Option TemplateUse)
  | returnType (type : Option Descriptor)
  | varargs (varargs : Bool)
  | parent (position : Nat) (parent : SymbolId)
  | primary (primary : Option SymbolId)
  | definitionParameter (name : Name) (parameter : Option SymbolId)

namespace Assignment

/-- Carry out an assignment. -/
def apply : Assignment → Symbol → Symbol
  | .scope outer inside, symbol => { symbol with scope := outer, inTemplate := inside }
  | .type value, symbol => { symbol with type := value }
  | .access value, symbol => { symbol with access := value }
  | .forwardTarget target, symbol => { symbol with forwardTarget := target }
  | .aliasOf target, symbol => { symbol with aliasOf := target }
  | .origin value, symbol => { symbol with origin := value }
  | .returnType value, symbol =>
      symbol.mapFunction fun data => { data with returnType := value }
  | .varargs value, symbol => symbol.mapFunction fun data => { data with varargs := value }
  | .parent position base, symbol =>
      symbol.mapClass fun data =>
        { data with
          parents := data.parents.modify position fun link => { link with parent := base } }
  | .primary value, symbol => symbol.mapTemplate fun data => { data with primary := value }
  | .definitionParameter name parameter, symbol =>
      symbol.mapTemplate fun data =>
        { data with
          definitionParameters :=
            match parameter with
            | some id => bindName data.definitionParameters name id
            | none => unbindName data.definitionParameters name }

/-- The assignment that gives the same field the value it has now. -/
def current : Assignment → Symbol → Assignment
  | .scope _ _, symbol => .scope symbol.scope symbol.inTemplate
  | .type _, symbol => .type symbol.type
  | .access _, symbol => .access symbol.access
  | .forwardTarget _, symbol => .forwardTarget symbol.forwardTarget
  | .aliasOf _, symbol => .aliasOf symbol.aliasOf
  | .origin _, symbol => .origin symbol.origin
  | .returnType _, symbol => .returnType symbol.returnType
  | .varargs _, symbol => .varargs symbol.varargs
  | .parent position base, symbol =>
      .parent position ((symbol.parents[position]?.map (·.parent)).getD base)
  | .primary _, symbol => .primary (symbol.templateData?.bind (·.primary))
  | .definitionParameter name _, symbol =>
      .definitionParameter name
        (symbol.templateData?.bind (·.definitionParameters.lookup name))

end Assignment

/-- A new last entry of one of a symbol's lists. -/
inductive Entry where
  | parameter (id : SymbolId)
  | templateParameter (id : SymbolId)
  | parent (link : BaseLink)
  | constructor (id : SymbolId)
  | conversion (id : SymbolId)
  | directive (directive : UsingDirective)
  | specialization (id : SymbolId)
  | explicit (entry : Instance)
  | cached (entry : Instance)
  | placeholder (entry : Instance)

namespace Entry

/-- Append the entry to its list. -/
def append : Entry → Symbol → Symbol
  | .parameter id, symbol =>
      symbol.mapFunction fun data => { data with parameters := data.parameters ++ [id] }
  | .templateParameter id, symbol =>
      symbol.mapTemplate fun data => { data with parameters := data.parameters ++ [id] }
  | .parent link, symbol =>
      symbol.mapClass fun data => { data with parents := data.parents ++ [link] }
  | .constructor id, symbol =>
      symbol.mapClass fun data => { data with constructors := data.constructors ++ [id] }
  | .conversion id, symbol =>
      symbol.mapClass fun data => { data with conversions := data.conversions ++ [id] }
  | .directive added, symbol =>
      symbol.mapDecls fun decls => { decls with directives := decls.directives ++ [added] }
  | .specialization id, symbol =>
      symbol.mapTemplate fun data => { data with specializations := data.specializations ++ [id] }
  | .explicit entry, symbol =>
      symbol.mapTemplate fun data => { data with explicits := data.explicits ++ [entry] }
  | .cached entry, symbol =>
      symbol.mapTemplate fun data => { data with instances := data.instances ++ [entry] }
  | .placeholder entry, symbol =>
      symbol.mapTemplate fun data => { data with placeholders := data.placeholders ++ [entry] }

/-- Drop the last entry of the list that the entry belongs to. -/
def retract : Entry → Symbol → Symbol
  | .parameter _, symbol =>
      symbol.mapFunction fun data => { data with parameters := data.parameters.dropLast }
  | .templateParameter _, symbol =>
      symbol.mapTemplate fun data => { data with parameters := data.parameters.dropLast }
  | .parent _, symbol => symbol.mapClass fun data => { data with parents := data.parents.dropLast }
  | .constructor _, symbol =>
      symbol.mapClass fun data => { data with constructors := data.constructors.dropLast }
  | .conversion _, symbol =>
      symbol.mapClass fun data => { data with conversions := data.conversions.dropLast }
  | .directive _, symbol =>
      symbol.mapDecls fun decls => { decls with directives := decls.directives.dropLast }
  | .specialization _, symbol =>
      symbol.mapTemplate fun data => { data with specializations := data.specializations.dropLast }
  | .explicit _, symbol =>
      symbol.mapTemplate fun data => { data with explicits := data.explicits.dropLast }
  | .cached _, symbol =>
      symbol.mapTemplate fun data => { data with instances := data.instances.dropLast }
  | .placeholder _, symbol =>
      symbol.mapTemplate fun data => { data with placeholders := data.placeholders.dropLast }

end Entry

/-- One change of a symbol. -/
inductive Edit where
  | assign (assignment : Assignment)
  | append (entry : Entry)
  | insertMember (name : Name) (member : SymbolId)

/-- How to take an edit back. -/
inductive Reversal where
  | restore (assignment : Assignment)
  | retract (entry : Entry)
  | removeMember (name : Name) (member : SymbolId)

namespace Edit

/-- Carry out an edit. -/
def apply : Edit → Symbol → Symbol
  | .assign assignment, symbol => assignment.apply symbol
  | .append entry, symbol => entry.append symbol
  | .insertMember name member, symbol => symbol.mapDecls (·.insert name member)

/-- How to take the edit back, given the symbol before it. -/
def reversal : Edit → Symbol → Reversal
  | .assign assignment, symbol => .restore (assignment.current symbol)
  | .append entry, _ => .retract entry
  | .insertMember name member, _ => .removeMember name member

end Edit

namespace Reversal

/-- Take an edit back. -/
def apply : Reversal → Symbol → Symbol
  | .restore assignment, symbol => assignment.apply symbol
  | .retract entry, symbol => entry.retract symbol
  | .removeMember name member, symbol => symbol.mapDecls (·.remove name member)

end Reversal

end NameBinding
