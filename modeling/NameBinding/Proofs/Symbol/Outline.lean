import NameBinding.Proofs.Table.Growth
import NameBinding.Template.Copy

/-!
# The outline of a declaration

A declaration has types, and it has an outline: a name, an access, a kind, and lists of other declarations.  A copy
takes over the outline, with other declarations in the lists, and its types are read one by one.

* `Symbol.outline`: what a declaration is apart from its types, its links and the scope it belongs to.
* `Symbol.typeAt`: the types of a declaration by their places.  A base stands there as the type that names it.
* `Edit.outline_surface` and `Edit.typeAt_part`: the edits that finish a type leave the outline alone, and those
  that add to the outline leave the types alone, but for the base that they add.
-/

namespace NameBinding

/-- A declaration without its types and links.  Of its bases there is the access and whether they are virtual, and of
its using-directives the nominated namespace. -/
structure Outline where
  name : Name
  access : Access
  kind : Payload
  parameters : List SymbolId
  contents : List SymbolId
  constructors : List SymbolId
  conversions : List SymbolId
  bases : List (Access × Bool)
  nominated : List SymbolId

/-- The same declaration, with nothing in it. -/
def Outline.bare (outline : Outline) : Outline where
  name := outline.name
  access := outline.access
  kind := outline.kind
  parameters := []
  contents := []
  constructors := []
  conversions := []
  bases := []
  nominated := []

namespace Symbol

variable {symbol other : Symbol}

def outline (symbol : Symbol) : Outline where
  name := symbol.name
  access := symbol.access
  kind := symbol.payload.shell
  parameters := symbol.parameters
  contents := symbol.contents
  constructors := symbol.constructors
  conversions := symbol.conversions
  bases := symbol.parents.map fun link => (link.access, link.isVirtual)
  nominated := symbol.directives.map (·.nominated)

/-- The type at a place of the symbol.  A base class counts as the type that is its name. -/
def typeAt (symbol : Symbol) : DeferredPart → Option Descriptor
  | .type => some symbol.type
  | .returnType => symbol.returnType
  | .parent position => symbol.parents[position]?.map fun link => .ofSymbol link.parent

theorem typeAt_parent (symbol : Symbol) (position : Nat) :
    symbol.typeAt (.parent position) = (symbol.parents.map (·.parent))[position]?.map .ofSymbol := by
  rw [List.getElem?_map, Option.map_map]
  rfl

theorem typeAt_below {size : Nat} (within : Within size symbol.mentions) {part : DeferredPart} {type : Descriptor}
    (has : symbol.typeAt part = some type) : type.Below size := by
  cases part with
  | type =>
      cases has
      exact type_below within
  | returnType => exact returnType_below within has
  | parent position =>
      obtain ⟨link, hlink, rfl⟩ := Option.map_eq_some_iff.mp has
      exact .ofSymbol (parents_within within _ (List.mem_map_of_mem (List.mem_of_getElem? hlink)))

/-- A new copy has the outline of its source, with nothing in it. -/
theorem outline_shell (symbol : Symbol) : symbol.shell.outline = symbol.outline.bare := by
  obtain ⟨name, scope, type, inTemplate, access, target, named, origin, link, payload⟩ := symbol
  cases payload <;> rfl

/-- Of its types, a new copy only has the one that every symbol has. -/
theorem typeAt_of_shell {payload : Payload} (same : symbol.payload = payload.shell) {part : DeferredPart}
    (differs : part ≠ .type) : symbol.typeAt part = none := by
  obtain ⟨name, scope, type, inTemplate, access, target, named, origin, link, held⟩ := symbol
  obtain rfl : held = payload.shell := same
  cases part with
  | type => exact absurd rfl differs
  | returnType | parent => cases payload <;> rfl

theorem GrowsTo.outline_eq (grows : symbol.GrowsTo other) : other.outline = symbol.outline := by
  refine grows.read Symbol.outline ?_
  rintro ⟨name, scope, type, inTemplate, access, target, named, origin, link, payload⟩
  cases payload <;> rfl

theorem GrowsTo.typeAt_eq (grows : symbol.GrowsTo other) (part : DeferredPart) :
    other.typeAt part = symbol.typeAt part := by
  refine grows.read (Symbol.typeAt · part) ?_
  rintro ⟨name, scope, type, inTemplate, access, target, named, origin, link, payload⟩
  cases part <;> cases payload <;> rfl

/-- Symbols of one kind are classes or not. -/
theorem classData?_isSome_of_kind (same : symbol.outline.kind = other.outline.kind) :
    symbol.classData?.isSome = other.classData?.isSome := by
  obtain ⟨name, scope, type, inTemplate, access, target, named, origin, link, payload⟩ := symbol
  obtain ⟨name', scope', type', inTemplate', access', target', named', origin', link', payload'⟩ := other
  cases payload <;> cases payload' <;> first | rfl | cases same

/-- Only a class has constructors and conversions. -/
theorem classData?_isSome_of_special (special : symbol.constructors ≠ [] ∨ symbol.conversions ≠ []) :
    symbol.classData?.isSome = true := by
  cases hdata : symbol.classData? with
  | none => simp [constructors, conversions, hdata] at special
  | some data => rfl

theorem holdsMembers_of_kind (same : symbol.outline.kind = other.outline.kind) :
    symbol.holdsMembers = other.holdsMembers := by
  obtain ⟨name, scope, type, inTemplate, access, target, named, origin, link, payload⟩ := symbol
  obtain ⟨name', scope', type', inTemplate', access', target', named', origin', link', payload'⟩ := other
  cases payload <;> cases payload' <;> first | rfl | cases same

end Symbol

namespace Edit

variable {edit : Edit} {symbol : Symbol} {id : SymbolId}

/-! ## Finished types -/

/-- A finished type is no part of the outline. -/
theorem outline_surface (surface : edit.IsSurface) (symbol : Symbol) :
    (edit.apply symbol).outline = symbol.outline := by
  obtain ⟨name, scope, type, inTemplate, access, target, named, origin, link, payload⟩ := symbol
  rcases edit with assignment | entry | ⟨under, member⟩
  · cases assignment with
    | type | origin => rfl
    | returnType => cases payload <;> rfl
    | parent position base =>
        cases payload with
        | cls data =>
            have hbases : (data.parents.modify position fun link => { link with parent := base }).map
                (fun link => (link.access, link.isVirtual)) =
                data.parents.map fun link => (link.access, link.isVirtual) := by
              refine List.ext_getElem? fun index => ?_
              simp only [List.getElem?_map, List.getElem?_modify]
              split
              · cases data.parents[index]? <;> rfl
              · simp
            simp only [apply, Assignment.apply, Symbol.mapClass, Symbol.outline, Symbol.parents, Symbol.classData?,
              Option.map_some, Option.getD_some, hbases]
            rfl
        | _ => rfl
    | _ => exact surface.elim
  · cases entry with
    | cached | placeholder => cases payload <;> rfl
    | _ => exact surface.elim
  · exact surface.elim

/-- The edit puts the type into its place, if the symbol has the place. -/
inductive Puts : Edit → DeferredPart → Descriptor → Prop where
  | type (type : Descriptor) : Puts (.assign (.type type)) .type type
  | returnType (type : Descriptor) : Puts (.assign (.returnType (some type))) .returnType type
  | parent (position : Nat) (base : SymbolId) :
      Puts (.assign (.parent position base)) (.parent position) (.ofSymbol base)

theorem Puts.isSurface {part : DeferredPart} {type : Descriptor} (puts : edit.Puts part type) : edit.IsSurface := by
  cases puts <;> trivial

/-- After a type is put into its place, every other place has the type that it had. -/
theorem Puts.typeAt {part place : DeferredPart} {type found : Descriptor} (puts : edit.Puts part type)
    (has : (edit.apply symbol).typeAt place = some found) :
    place = part ∧ found = type ∨ place ≠ part ∧ symbol.typeAt place = some found := by
  obtain ⟨name, scope, own, inTemplate, access, target, named, origin, link, payload⟩ := symbol
  -- A symbol whose kind has no such place is left as it is, and then nothing is found there.
  cases puts with
  | type =>
      cases place with
      | type => exact .inl ⟨rfl, (Option.some.inj has).symm⟩
      | _ => exact .inr ⟨by simp, has⟩
  | returnType =>
      cases place with
      | returnType =>
          cases payload with
          | function data => exact .inl ⟨rfl, (Option.some.inj has).symm⟩
          | _ => cases has
      | _ => cases payload <;> exact .inr ⟨by simp, has⟩
  | parent position base =>
      cases place with
      | parent index =>
          cases payload with
          | cls data =>
              simp only [Symbol.typeAt, apply, Assignment.apply, Symbol.mapClass, Symbol.parents, Symbol.classData?,
                Option.map_some, Option.getD_some, List.getElem?_modify] at has ⊢
              split at has
              · rename_i hsame
                subst hsame
                cases hlink : data.parents[position]? <;> simp_all
              · rename_i hdiffers
                simpa [Ne.symm hdiffers] using has
          | _ => cases has
      | _ => cases payload <;> exact .inr ⟨by simp, has⟩

/-! ## New parts -/

/-- What becomes part of a declaration has no say in its types, unless it is a base. -/
theorem typeAt_part (part : edit.IsPart) (noBase : ∀ link, edit ≠ .append (.parent link)) (symbol : Symbol)
    (place : DeferredPart) : (edit.apply symbol).typeAt place = symbol.typeAt place := by
  obtain ⟨name, scope, type, inTemplate, access, target, named, origin, link, payload⟩ := symbol
  rcases edit with assignment | entry | ⟨under, member⟩
  · cases assignment with
    | scope => cases place <;> rfl
    | _ => exact part.elim
  · cases entry with
    | explicit | cached | placeholder | specialization => exact part.elim
    | parent added => exact absurd rfl (noBase added)
    | _ => cases place <;> cases payload <;> rfl
  · cases place <;> cases payload <;> rfl

theorem outline_scope (outer : Option SymbolId) (inside : Bool) (symbol : Symbol) :
    ((Edit.assign (.scope outer inside)).apply symbol).outline = symbol.outline := rfl

theorem outline_parameter (holds : ∃ data, symbol.payload = .function data) :
    ((Edit.append (.parameter id)).apply symbol).outline =
      { symbol.outline with parameters := symbol.parameters ++ [id] } := by
  obtain ⟨name, scope, type, inTemplate, access, target, named, origin, link, payload⟩ := symbol
  obtain ⟨data, rfl⟩ : ∃ data, payload = .function data := holds
  rfl

theorem outline_templateParameter (holds : ∃ data, symbol.payload = .template data) :
    ((Edit.append (.templateParameter id)).apply symbol).outline =
      { symbol.outline with parameters := symbol.parameters ++ [id] } := by
  obtain ⟨name, scope, type, inTemplate, access, target, named, origin, link, payload⟩ := symbol
  obtain ⟨data, rfl⟩ : ∃ data, payload = .template data := holds
  rfl

theorem outline_constructor (isClass : symbol.classData?.isSome = true) :
    ((Edit.append (.constructor id)).apply symbol).outline =
      { symbol.outline with constructors := symbol.constructors ++ [id] } := by
  obtain ⟨name, scope, type, inTemplate, access, target, named, origin, link, payload⟩ := symbol
  cases payload with
  | cls data => rfl
  | _ => cases isClass

theorem outline_conversion (isClass : symbol.classData?.isSome = true) :
    ((Edit.append (.conversion id)).apply symbol).outline =
      { symbol.outline with conversions := symbol.conversions ++ [id] } := by
  obtain ⟨name, scope, type, inTemplate, access, target, named, origin, link, payload⟩ := symbol
  cases payload with
  | cls data => rfl
  | _ => cases isClass

theorem outline_member (holds : symbol.holdsMembers = true) (name : Name) :
    ((Edit.insertMember name id).apply symbol).outline =
      { symbol.outline with contents := symbol.contents ++ [id] } := by
  obtain ⟨name', scope, type, inTemplate, access, target, named, origin, link, payload⟩ := symbol
  cases payload with
  | basic | placeholder => cases holds
  | _ => rfl

theorem outline_directive (holds : symbol.holdsMembers = true) (directive : UsingDirective) :
    ((Edit.append (.directive directive)).apply symbol).outline =
      { symbol.outline with nominated := symbol.outline.nominated ++ [directive.nominated] } := by
  obtain ⟨name, scope, type, inTemplate, access, target, named, origin, link, payload⟩ := symbol
  cases payload with
  | basic | placeholder => cases holds
  | _ => simp [Symbol.outline, Symbol.directives, Symbol.decls?, apply, Entry.append, Symbol.mapDecls,
      Symbol.parameters, Symbol.contents, Symbol.constructors, Symbol.conversions, Symbol.parents, Symbol.classData?,
      Payload.shell]

/-- A new base stands behind the others. -/
theorem outline_base (isClass : symbol.classData?.isSome = true) (added : BaseLink) :
    ((Edit.append (.parent added)).apply symbol).outline =
      { symbol.outline with bases := symbol.outline.bases ++ [(added.access, added.isVirtual)] } := by
  obtain ⟨name, scope, type, inTemplate, access, target, named, origin, link, payload⟩ := symbol
  cases payload with
  | cls data => simp [Symbol.outline, Symbol.directives, Symbol.decls?, apply, Entry.append, Symbol.mapClass,
      Symbol.parameters, Symbol.contents, Symbol.constructors, Symbol.conversions, Symbol.parents, Symbol.classData?,
      Payload.shell]
  | _ => cases isClass

/-- A new base is one more place for a type. -/
theorem typeAt_base {added : BaseLink} {place : DeferredPart} {found : Descriptor}
    (has : ((Edit.append (.parent added)).apply symbol).typeAt place = some found) :
    place = .parent symbol.parents.length ∨ symbol.typeAt place = some found := by
  obtain ⟨name, scope, type, inTemplate, access, target, named, origin, link, payload⟩ := symbol
  cases place with
  | type | returnType => cases payload <;> exact .inr has
  | parent index =>
      cases payload with
      | cls data =>
          simp only [Symbol.typeAt, apply, Entry.append, Symbol.mapClass, Symbol.parents, Symbol.classData?,
            Option.map_some, Option.getD_some] at has ⊢
          rcases Nat.lt_trichotomy index data.parents.length with before | same | behind
          · rw [List.getElem?_append_left before] at has
            exact .inr has
          · exact .inl (by rw [same])
          · rw [List.getElem?_eq_none (by simp; omega)] at has
            cases has
      | _ => exact .inr has

end Edit

end NameBinding
