import NameBinding.Lookup.Query
import NameBinding.Overload.Resolution

/-!
# Merging and hiding at one scope level

The declarations that one level finds for a name are sorted into tags, objects, functions and
function templates.

* Aliases and completed forward declarations count as the entity they stand for, and each entity
  counts once; friends are invisible.
* A tag is hidden by an object or function declared in the same scope, and ambiguous with one from a
  different scope.
* Two tags, two objects, or an object and a function are ambiguous.
* Function templates are kept, or replaced by the instance that the argument types of a call deduce.

`Candidates` is the pure half of these rules, and `collectSymbol` applies it in a lookup.
-/

namespace NameBinding

/-- The visible declarations of one name at one level, sorted.  Each entity comes with the scope in
which its name was declared. -/
structure Candidates where
  /-- All visible entities, in order. -/
  visible : List SymbolId
  tags : List (SymbolId × Option SymbolId)
  objects : List (SymbolId × Option SymbolId)
  functions : List (SymbolId × Option SymbolId)
  templates : List (SymbolId × Option SymbolId)

namespace Candidates

/-- The scopes of the declarations that may hide a tag. -/
def hidingScopes (candidates : Candidates) : List (Option SymbolId) :=
  ((candidates.objects.take 1) ++ candidates.functions ++ candidates.templates).map (·.2)

/-- Is the tag hidden by declarations in its own scope? -/
def hidesTag (candidates : Candidates) : Bool :=
  match candidates.tags with
  | [] => false
  | tag :: _ => !candidates.hidingScopes.isEmpty && candidates.hidingScopes.all (· == tag.2)

/-- Does a tag meet declarations from a different scope? -/
def clashesWithTag (candidates : Candidates) : Bool :=
  match candidates.tags with
  | [] => false
  | tag :: _ => candidates.hidingScopes.any (· != tag.2)

/-- Do the declarations exclude each other? -/
def isAmbiguous (candidates : Candidates) : Bool :=
  candidates.tags.length > 1 || candidates.objects.length > 1 || candidates.clashesWithTag
    || (!candidates.objects.isEmpty
      && !(candidates.functions.isEmpty && candidates.templates.isEmpty))

/-- The result, given what the function templates contribute. -/
def select (candidates : Candidates) (instances : List SymbolId) : List SymbolId :=
  let functions := candidates.functions.map (·.1) ++ instances
  if !functions.isEmpty then functions
  else if candidates.hidesTag then []
  else (candidates.tags.take 1).map (·.1)

end Candidates

namespace Table

/-- The scope in which a candidate's name counts as declared.  For a function template it is the
scope of the template, and for anything else that of the declaration or alias that was found. -/
def declaredIn (table : Table) (found entity : SymbolId) : Option SymbolId :=
  if table.declClass entity = .function && (table.symbol entity).isTemplate then
    (table.symbol entity).scope
  else (table.symbol found).scope

/-- Sort what was found for one name. -/
def classify (table : Table) (found : List SymbolId) : Candidates :=
  let entities := (found.map fun id => (id, table.canonical id)).eraseDupsBy fun a b => a.2 == b.2
  let visible := entities.filter fun pair => !(table.symbol pair.2).type.isFriend
  let declared := visible.map fun pair => (pair.2, table.declaredIn pair.1 pair.2)
  let sorted := fun (kind : DeclClass) => declared.filter fun pair => table.declClass pair.1 == kind
  { visible := declared.map (·.1)
    tags := sorted .tag
    objects := sorted .object
    functions := (sorted .function).filter fun pair => !(table.symbol pair.1).isTemplate
    templates := (sorted .function).filter fun pair => (table.symbol pair.1).isTemplate }

end Table

namespace Analysis

/-- What function templates contribute to an overload set. -/
def foldTemplates (options : LookupOptions) (templates : List SymbolId) :
    Analysis (List SymbolId) :=
  match options.arguments with
  | none => pure templates
  | some args =>
      if options.keepTemplates then pure templates
      else
        templates.foldlM
          (fun folded template => do
            match ← deducedInstance? template args with
            | some made => pure (folded ++ [made])
            | none => pure folded)
          []

end Analysis

/-- What a lookup remembers on its way. -/
structure Trail where
  /-- The namespaces that using-directives have not led to yet. -/
  fresh : List SymbolId := []
  /-- Nominated namespaces that wait for the walk to reach the scope they are anchored at. -/
  pending : List (SymbolId × SymbolId) := []
  /-- The virtual bases searched so far. -/
  virtualBases : List SymbolId := []
  /-- The classes proved to be free of circular inheritance. -/
  acyclic : List SymbolId := []
  /-- The names found ambiguous in completion mode. -/
  ambiguous : List Name := []

/-- A step of a lookup. -/
abbrev Search := StateT Trail Analysis

namespace Search

/-- Report an ambiguous name: in completion mode it is noted, otherwise the lookup fails. -/
def ambiguity (query : Query) (name : Name) : Search Unit :=
  if query.isCompleting then
    modify fun trail =>
      if name ∈ trail.ambiguous then trail
      else { trail with ambiguous := trail.ambiguous ++ [name] }
  else Analysis.fail (.ambiguous name)

/-- The table as it is now. -/
def table : Search Table := StateT.lift get

/-- Merge what one level found for a name. -/
def collectSymbol (query : Query) (name : Name) (found : List SymbolId) :
    Search (List SymbolId) := do
  let table ← Search.table
  let candidates := table.classify found
  if candidates.isAmbiguous then do
    ambiguity query name
    pure candidates.visible
  else
    match candidates.objects with
    | object :: _ => pure [object.1]
    | [] => do
        let instances ← Analysis.foldTemplates query.options (candidates.templates.map (·.1))
        pure (candidates.select instances)

/-- Merge what one level found, name by name; names without a visible declaration are dropped. -/
def collectLevel (query : Query) (hits : List Hit) : Search Found :=
  (Found.ofHits hits).foldlM
    (fun collected entry => do
      let ids ← collectSymbol query entry.1 entry.2
      pure (if ids.isEmpty then collected else collected ++ [(entry.1, ids)]))
    []

end Search

end NameBinding
