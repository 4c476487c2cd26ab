import NameBinding.Proofs.Lookup.Hiding

/-!
# Tags hidden in their own scope

A tag is hidden by the functions that are declared beside it, in the scope in which the tag itself is declared.
A using-declaration declares a name in its own scope too.  That is where a function counts as declared that it
brings in, but not a function template: that counts as declared where the template itself is, and so it clashes
with the tag instead.

* `Table.Beside`: all that is seen is declared in one scope, itself or by a using-declaration.
* `Beside.snd_eq`: the scope in which each of the entities counts as declared then.
* `Beside.isAmbiguous_iff`: a tag and functions beside it clash because of a template from elsewhere.

The main statement is `collectSymbol_hides_tag`.
-/

namespace NameBinding

namespace Table

variable {table : Table} {found : List SymbolId} {kind : DeclClass} {entity tag : SymbolId}
  {scope declared : Option SymbolId}

/-- Everything but friends is declared in one scope, whatever entity it stands for. -/
def Beside (table : Table) (scope : Option SymbolId) (found : List SymbolId) : Prop :=
  ∀ id ∈ table.seen found, (table.symbol id).scope = scope

/-- The entities of each sort are visible, and nothing else is. -/
theorem mem_entitiesOf_iff_visible : entity ∈ table.entitiesOf kind found ↔
    (∃ declared, (entity, declared) ∈ table.visibleEntities found) ∧ table.declClass entity = kind := by
  have hvisible : (∃ declared, (entity, declared) ∈ table.visibleEntities found) ↔
      entity ∈ (table.visibleEntities found).map (·.1) := by simp
  rw [hvisible, fst_visibleEntities, entitiesOf, List.mem_filter, List.mem_filter, Bool.and_eq_true, beq_iff_eq,
    and_assoc]

namespace Beside

/-- What is declared beside each other counts as declared there, but for the templates among the functions. -/
theorem snd_eq (beside : table.Beside scope found) (visible : (entity, declared) ∈ table.visibleEntities found) :
    declared = if table.declClass entity = .function && (table.symbol entity).isTemplate then
      (table.symbol entity).scope else scope := by
  obtain ⟨id, seen, hpair⟩ := exists_of_mem_visibleEntities visible
  obtain ⟨rfl, rfl⟩ := Prod.ext_iff.mp hpair
  rw [declaredIn, beside id seen]

/-- A tag clashes with a function beside it if that is a template from another scope. -/
theorem excludes_iff (beside : table.Beside scope found) {a b : SymbolId × Option SymbolId}
    (ha : a ∈ table.visibleEntities found) (hb : b ∈ table.visibleEntities found)
    (isTag : table.declClass a.1 = .tag) (isFunction : table.declClass b.1 = .function) :
    table.Excludes a b ↔ (table.symbol b.1).isTemplate = true ∧ (table.symbol b.1).scope ≠ scope := by
  rw [Excludes, isTag, isFunction, beside.snd_eq ha, beside.snd_eq hb, isTag, isFunction]
  cases (table.symbol b.1).isTemplate with
  | false => simp
  | true => simp [ne_comm]

/-- Beside one tag and no object, only templates from other scopes make the functions ambiguous. -/
theorem isAmbiguous_iff (beside : table.Beside scope found) (single : table.entitiesOf .tag found = [tag])
    (noObject : table.entitiesOf .object found = []) :
    (table.classify found).isAmbiguous = true ↔
      ∃ entity ∈ table.entitiesOf .function found,
        (table.symbol entity).isTemplate = true ∧ (table.symbol entity).scope ≠ scope := by
  have hsorted : ∀ {a : SymbolId × Option SymbolId}, a ∈ table.visibleEntities found →
      a.1 ∈ table.entitiesOf (table.declClass a.1) found :=
    fun visible => mem_entitiesOf_iff_visible.mpr ⟨⟨_, visible⟩, rfl⟩
  -- A tag and a function, whichever of them comes first, are the only pair that is left.
  have hpair : ∀ {a b : SymbolId × Option SymbolId}, a ∈ table.visibleEntities found →
      b ∈ table.visibleEntities found → table.declClass a.1 = .tag → table.declClass b.1 = .function →
      table.Excludes a b → ∃ entity ∈ table.entitiesOf .function found,
        (table.symbol entity).isTemplate = true ∧ (table.symbol entity).scope ≠ scope :=
    fun ha hb isTag isFunction excludes =>
      ⟨_, isFunction ▸ hsorted hb, (beside.excludes_iff ha hb isTag isFunction).mp excludes⟩
  rw [Table.isAmbiguous_iff]
  constructor
  · rintro ⟨a, ha, b, hb, differ, excludes⟩
    have hseenA := hsorted ha
    have hseenB := hsorted hb
    cases hclassA : table.declClass a.1 <;> cases hclassB : table.declClass b.1 <;>
      rw [hclassA] at hseenA <;> rw [hclassB] at hseenB
    case tag.tag =>
      rw [single, List.mem_singleton] at hseenA hseenB
      exact absurd (hseenA.trans hseenB.symm) differ
    case tag.function => exact hpair ha hb hclassA hclassB excludes
    case function.tag => exact hpair hb ha hclassB hclassA excludes.symm
    case function.function => simp [Excludes, hclassA, hclassB] at excludes
    all_goals simp [noObject] at hseenA hseenB
  · rintro ⟨entity, member, elsewhere⟩
    obtain ⟨⟨declared, visible⟩, isFunction⟩ := mem_entitiesOf_iff_visible.mp member
    obtain ⟨⟨declaredTag, visibleTag⟩, isTag⟩ :=
      mem_entitiesOf_iff_visible.mp (single ▸ List.mem_singleton_self tag)
    exact ⟨_, visibleTag, _, visible, ne_of_declClass isTag isFunction (by decide),
      (beside.excludes_iff visibleTag visible isTag isFunction).mpr elsewhere⟩

end Beside

end Table

namespace Search

open Analysis Table

variable {table : Table} {query : Query} {found : List SymbolId} {tag : SymbolId} {scope : Option SymbolId}

/-- A tag and functions that are declared beside it, itself or by using-declarations, when the name is looked up
without argument types.  The tag is hidden, and all the functions are found, unless there is a function template
among them that itself belongs to another scope: then the name is ambiguous. -/
theorem collectSymbol_hides_tag (exact : query.IsExact) (single : table.entitiesOf .tag found = [tag])
    (noObject : table.entitiesOf .object found = []) (functions : table.entitiesOf .function found ≠ [])
    (beside : table.Beside scope found) (trail : Trail) (name : Name) :
    let isTemplate := fun entity => (table.symbol entity).isTemplate
    let templates := (table.entitiesOf .function found).filter isTemplate
    let overloads := (table.entitiesOf .function found).filter (!isTemplate ·) ++ templates
    (collectSymbol query name found trail table = .ok (overloads, trail) table ↔
      ∀ template ∈ templates, (table.symbol template).scope = scope) ∧
    (collectSymbol query name found trail table = .error (.error (.ambiguous name)) table ↔
      ∃ template ∈ templates, (table.symbol template).scope ≠ scope) := by
  intro isTemplate templates overloads
  have hends := ends_collectSymbol exact table trail name found
  have helsewhere : (table.classify found).isAmbiguous = true ↔
      ∃ template ∈ templates, (table.symbol template).scope ≠ scope := by
    rw [beside.isAmbiguous_iff single noObject]
    simp only [templates, List.mem_filter, isTemplate, and_assoc]
  by_cases ambiguous : (table.classify found).isAmbiguous = true
  · rw [settle, if_pos ambiguous] at hends
    have hfailed : collectSymbol query name found trail table = .error (.error (.ambiguous name)) table := hends
    obtain ⟨template, member, elsewhere⟩ := helsewhere.mp ambiguous
    refine ⟨⟨fun ok => ?_, fun here => absurd (here template member) elsewhere⟩,
      ⟨fun _ => ⟨template, member, elsewhere⟩, fun _ => hfailed⟩⟩
    cases hfailed.symm.trans ok
  · have hmerged : table.merged found = overloads := by
      rw [merged, noObject, if_neg (not_not_intro rfl), if_pos functions]
    rw [settle, if_neg ambiguous, entities_of_clear (Bool.eq_false_of_not_eq_true ambiguous), hmerged] at hends
    have hfound : collectSymbol query name found trail table = .ok (overloads, trail) table := hends
    refine ⟨⟨fun _ template member => ?_, fun _ => hfound⟩,
      ⟨fun failed => ?_, fun elsewhere => absurd (helsewhere.mpr elsewhere) ambiguous⟩⟩
    · by_contra elsewhere
      exact ambiguous (helsewhere.mpr ⟨template, member, elsewhere⟩)
    · cases hfound.symm.trans failed

/-- A struct of the global scope, and functions of its name: a template in the global scope, and in a namespace
another template and a function, which a using-declaration brings into the global scope. -/
def structBesideFunctionsTable : Table :=
  finalTable (Table.new {}) do
    let templateIn := fun (scope : SymbolId) (type : Descriptor) => do
      let template ← createTemplate ⟨17⟩
      addTemplateParameter template (← createTemplateParameter ⟨18⟩ .typeName)
      let templated ← createFunction ⟨17⟩ .function
      discard (addParameterType templated type)
      addSymbol template templated
      addSymbol scope template
    let nspace ← createContainer ⟨19⟩ (.ofKind .nspace)
    addSymbol ⟨0⟩ nspace
    let function ← createFunction ⟨17⟩ .function
    addSymbol nspace function
    templateIn nspace (.ofKind .int)
    let struct ← createClass ⟨17⟩ .struct
    addSymbol ⟨0⟩ struct
    discard (addUsingDeclaration ⟨0⟩ ⟨17⟩ nspace)
    templateIn ⟨0⟩ (.ofKind .char)

/-- The function that is brought in hides the struct together with the template beside it, but the template that
is brought in does not. -/
theorem imported_function_hides_struct :
    let query := structBesideFunctionsTable.query ⟨17⟩ {}
    structBesideFunctionsTable.members ⟨0⟩ ⟨17⟩ = [⟨7⟩, ⟨8⟩, ⟨9⟩, ⟨10⟩] ∧
      [⟨8⟩, ⟨9⟩].map structBesideFunctionsTable.canonical = [⟨2⟩, ⟨3⟩] ∧
      query.IsExact ∧ structBesideFunctionsTable.Beside (some ⟨0⟩) [⟨7⟩, ⟨8⟩, ⟨9⟩, ⟨10⟩] ∧
      collectSymbol query ⟨17⟩ [⟨7⟩, ⟨8⟩, ⟨10⟩] {} structBesideFunctionsTable =
        .ok ([⟨2⟩, ⟨10⟩], {}) structBesideFunctionsTable ∧
      collectSymbol query ⟨17⟩ [⟨7⟩, ⟨9⟩] {} structBesideFunctionsTable =
        .error (.error (.ambiguous ⟨17⟩)) structBesideFunctionsTable := by
  intro query
  have hexact : query.IsExact := ⟨rfl, rfl⟩
  have hbeside : ∀ found : List SymbolId, found ⊆ [⟨7⟩, ⟨8⟩, ⟨9⟩, ⟨10⟩] →
      structBesideFunctionsTable.Beside (some ⟨0⟩) found := by
    have hscopes : ∀ id ∈ [⟨7⟩, ⟨8⟩, ⟨9⟩, ⟨10⟩], (structBesideFunctionsTable.symbol id).scope = some ⟨0⟩ := by
      decide +kernel
    exact fun found sub id seen => hscopes id (sub (List.mem_filter.mp seen).1)
  have hsingle : ∀ found ∈ [[⟨7⟩, ⟨8⟩, ⟨10⟩], [⟨7⟩, ⟨9⟩]],
      structBesideFunctionsTable.entitiesOf .tag found = [⟨7⟩] := by decide +kernel
  have hfound := collectSymbol_hides_tag hexact (hsingle [⟨7⟩, ⟨8⟩, ⟨10⟩] (by decide)) (by decide +kernel)
    (by decide +kernel) (hbeside _ (by decide)) {} ⟨17⟩
  have hclash := collectSymbol_hides_tag hexact (hsingle [⟨7⟩, ⟨9⟩] (by decide)) (by decide +kernel)
    (by decide +kernel) (hbeside _ (by decide)) {} ⟨17⟩
  have hoverloads : (structBesideFunctionsTable.entitiesOf .function [⟨7⟩, ⟨8⟩, ⟨10⟩]).filter
      (fun entity => !(structBesideFunctionsTable.symbol entity).isTemplate) ++
        (structBesideFunctionsTable.entitiesOf .function [⟨7⟩, ⟨8⟩, ⟨10⟩]).filter
          (fun entity => (structBesideFunctionsTable.symbol entity).isTemplate) = [⟨2⟩, ⟨10⟩] := by decide +kernel
  dsimp only at hfound
  rw [hoverloads] at hfound
  exact ⟨by decide +kernel, by decide +kernel, hexact, hbeside _ (List.Subset.refl _),
    hfound.1.mpr (by decide +kernel), hclash.2.mpr (by decide +kernel)⟩

end Search

end NameBinding
