import Mathlib
import NameBinding.Symbol.Edit

/-!
# A reversal takes back exactly one edit

Every edit of a symbol comes with the reversal that is computed from the symbol before it.  The main
statement is `Edit.reversal_apply`: the reversal gives the symbol back, field by field and list by
list.

Two things can stand in the way.  Removing the last member of a name drops the name, so a name must
not be listed without members: `Symbol.Tidy` says so, and every edit and every reversal keeps it.
And a forgotten name of a template parameter would come back at the end of its list; names are
forgotten by reversals only, which is what `Edit.Reversible` says.
-/

namespace NameBinding

/-! ## Lists of members -/

/-- Erasing the last occurrence of the entry that was appended gives the list back. -/
@[simp]
theorem eraseLast_append_self (ids : List SymbolId) (id : SymbolId) :
    eraseLast (ids ++ [id]) id = ids := by
  simp [eraseLast]

namespace MemberMap

/-- No name is listed without members. -/
def Tidy (map : MemberMap) : Prop := ∀ entry ∈ map, entry.2 ≠ []

theorem tidy_cons (key : Name) (ids : List SymbolId) (rest : MemberMap) :
    Tidy ((key, ids) :: rest) ↔ ids ≠ [] ∧ Tidy rest := by
  simp [Tidy]

theorem Tidy.insert {map : MemberMap} (tidy : map.Tidy) (name : Name) (id : SymbolId) :
    (map.insert name id).Tidy := by
  induction map with
  | nil => simp [Tidy, MemberMap.insert]
  | cons entry rest ih =>
      obtain ⟨key, ids⟩ := entry
      obtain ⟨hne, hrest⟩ := (tidy_cons key ids rest).mp tidy
      rw [MemberMap.insert]
      split
      · exact (tidy_cons key (ids ++ [id]) rest).mpr ⟨by simp, hrest⟩
      · exact (tidy_cons key ids _).mpr ⟨hne, ih hrest⟩

theorem Tidy.remove {map : MemberMap} (tidy : map.Tidy) (name : Name) (id : SymbolId) :
    (map.remove name id).Tidy := by
  induction map with
  | nil => exact tidy
  | cons entry rest ih =>
      obtain ⟨key, ids⟩ := entry
      obtain ⟨hne, hrest⟩ := (tidy_cons key ids rest).mp tidy
      rw [MemberMap.remove]
      split
      · split
        · exact hrest
        · rename_i hleft
          exact (tidy_cons key _ rest).mpr ⟨hleft, hrest⟩
      · exact (tidy_cons key ids _).mpr ⟨hne, ih hrest⟩

/-- Removing a member right after inserting it gives the map back, names in the same order. -/
theorem remove_insert {map : MemberMap} (tidy : map.Tidy) (name : Name) (id : SymbolId) :
    (map.insert name id).remove name id = map := by
  induction map with
  | nil => simp [insert, remove, eraseLast]
  | cons entry rest ih =>
      obtain ⟨key, ids⟩ := entry
      obtain ⟨hne, hrest⟩ := (tidy_cons key ids rest).mp tidy
      rw [insert]
      by_cases hkey : key = name
      · rw [if_pos hkey, remove, if_pos hkey, eraseLast_append_self]
        -- Only an empty list would drop the name, and a tidy map has none.
        cases ids with
        | nil => exact absurd rfl hne
        | cons first others => rfl
      · rw [if_neg hkey, remove, if_neg hkey, ih hrest]

end MemberMap

/-! ## Names of template parameters -/

theorem lookup_cons_of_ne {key name : Name} (bound : SymbolId) (rest : List (Name × SymbolId))
    (hkey : key ≠ name) : ((key, bound) :: rest).lookup name = rest.lookup name := by
  have hne : (name == key) = false := by simpa using hkey.symm
  simp [List.lookup, hne]

/-- Forgetting a name that was not bound before gives the bindings back. -/
theorem unbindName_bindName {bindings : List (Name × SymbolId)} {name : Name} (id : SymbolId)
    (unbound : bindings.lookup name = none) :
    unbindName (bindName bindings name id) name = bindings := by
  induction bindings with
  | nil => simp [bindName, unbindName]
  | cons binding rest ih =>
      obtain ⟨key, bound⟩ := binding
      by_cases hkey : key = name
      · simp [hkey] at unbound
      · rw [lookup_cons_of_ne bound rest hkey] at unbound
        rw [bindName, if_neg hkey, unbindName, if_neg hkey, ih unbound]

/-- Binding a name to what it was bound to before gives the bindings back. -/
theorem bindName_bindName {bindings : List (Name × SymbolId)} {name : Name} {old : SymbolId}
    (id : SymbolId) (bound : bindings.lookup name = some old) :
    bindName (bindName bindings name id) name old = bindings := by
  induction bindings with
  | nil => simp at bound
  | cons binding rest ih =>
      obtain ⟨key, previous⟩ := binding
      by_cases hkey : key = name
      · have hold : previous = old := by simpa [hkey] using bound
        rw [bindName, if_pos hkey, bindName, if_pos hkey, hold]
      · rw [lookup_cons_of_ne previous rest hkey] at bound
        rw [bindName, if_neg hkey, bindName, if_neg hkey, ih bound]

/-! ## Base-class links -/

/-- Pointing a base-class link back at its old parent gives the links back. -/
theorem modify_parent_restore (links : List BaseLink) (position : Nat) (base : SymbolId) :
    (links.modify position fun link => { link with parent := base }).modify position
        (fun link => { link with parent := (links[position]?.map (·.parent)).getD base }) =
      links := by
  apply List.ext_getElem?
  intro index
  by_cases hindex : position = index
  · subst hindex
    cases hlink : links[position]? with
    | none => simp [hlink]
    | some link => simp [hlink]
  · simp [hindex]

/-! ## Edits -/

namespace Assignment

/-- An assignment that gives a field a value.  Only a reversal forgets the name of a template
parameter. -/
def Reversible : Assignment → Prop
  | .definitionParameter _ none => False
  | _ => True

/-- Giving a field back the value it had undoes the assignment. -/
theorem current_apply {assignment : Assignment} (reversible : assignment.Reversible)
    (symbol : Symbol) : (assignment.current symbol).apply (assignment.apply symbol) = symbol := by
  obtain ⟨name, scope, type, inTemplate, access, forward, aliasOf, origin, ast, payload⟩ := symbol
  cases assignment with
  | scope => rfl
  | type => rfl
  | access => rfl
  | forwardTarget => rfl
  | aliasOf => rfl
  | origin => rfl
  -- The others edit the payload, and do nothing to a payload of another sort.
  | returnType value => cases payload <;> rfl
  | varargs value => cases payload <;> rfl
  | primary value => cases payload <;> rfl
  | parent position base =>
      cases payload with
      | cls data =>
          simp only [current, apply, Symbol.mapClass, Symbol.parents, Symbol.classData?,
            Option.map_some, Option.getD_some]
          rw [modify_parent_restore data.parents position base]
      | _ => rfl
  | definitionParameter key parameter =>
      cases parameter with
      | none => exact reversible.elim
      | some id =>
          cases payload with
          | template data =>
              simp only [current, apply, Symbol.mapTemplate, Symbol.templateData?,
                Option.bind_some]
              -- A name that was not bound is forgotten, and any other one is bound again.
              cases hbound : data.definitionParameters.lookup key with
              | none => simp only [unbindName_bindName id hbound]
              | some old => simp only [bindName_bindName id hbound]
          | _ => rfl

end Assignment

namespace Entry

/-- Dropping the last entry of a list undoes appending it. -/
theorem retract_append (entry : Entry) (symbol : Symbol) :
    entry.retract (entry.append symbol) = symbol := by
  obtain ⟨name, scope, type, inTemplate, access, forward, aliasOf, origin, ast, payload⟩ := symbol
  cases entry <;> cases payload <;>
    simp [append, retract, Symbol.mapFunction, Symbol.mapTemplate, Symbol.mapClass,
      Symbol.mapDecls]

end Entry

namespace Symbol

/-- No name is listed without members. -/
def Tidy (symbol : Symbol) : Prop :=
  ∀ decls, symbol.decls? = some decls → decls.byName.Tidy

theorem Tidy.mapDecls {symbol : Symbol} {change : Declarations → Declarations}
    (tidy : symbol.Tidy)
    (keeps : ∀ decls : Declarations, decls.byName.Tidy → (change decls).byName.Tidy) :
    (symbol.mapDecls change).Tidy := by
  intro decls hdecls
  unfold Symbol.mapDecls at hdecls
  split at hdecls <;> rename_i hpayload
  all_goals simp only [decls?, hpayload, Option.some.injEq, reduceCtorEq] at hdecls
  all_goals subst hdecls
  all_goals exact keeps _ (tidy _ (by simp [decls?, hpayload]))

/-- Changing the members back gives the symbol back. -/
theorem mapDecls_restore {symbol : Symbol} {change back : Declarations → Declarations}
    (restores : ∀ decls, symbol.decls? = some decls → back (change decls) = decls) :
    (symbol.mapDecls change).mapDecls back = symbol := by
  obtain ⟨name, scope, type, inTemplate, access, forward, aliasOf, origin, ast, payload⟩ := symbol
  cases payload with
  | basic | placeholder => rfl
  | container decls => simp [mapDecls, restores decls rfl]
  | cls data => simp [mapDecls, restores data.decls rfl]
  | function data => simp [mapDecls, restores data.decls rfl]
  | template data => simp [mapDecls, restores data.decls rfl]

/-- A symbol with the same members is as tidy as before. -/
theorem Tidy.of_decls_eq {symbol other : Symbol} (tidy : symbol.Tidy)
    (same : other.decls? = symbol.decls?) : other.Tidy :=
  fun decls hdecls => tidy decls (same ▸ hdecls)

theorem decls?_mapClass {change : ClassData → ClassData}
    (keeps : ∀ data, (change data).decls = data.decls) (symbol : Symbol) :
    (symbol.mapClass change).decls? = symbol.decls? := by
  unfold mapClass
  split
  · rename_i data hpayload
    simp [decls?, hpayload, keeps data]
  · rfl

theorem decls?_mapFunction {change : FunctionData → FunctionData}
    (keeps : ∀ data, (change data).decls = data.decls) (symbol : Symbol) :
    (symbol.mapFunction change).decls? = symbol.decls? := by
  unfold mapFunction
  split
  · rename_i data hpayload
    simp [decls?, hpayload, keeps data]
  · rfl

theorem decls?_mapTemplate {change : TemplateData → TemplateData}
    (keeps : ∀ data, (change data).decls = data.decls) (symbol : Symbol) :
    (symbol.mapTemplate change).decls? = symbol.decls? := by
  unfold mapTemplate
  split
  · rename_i data hpayload
    simp [decls?, hpayload, keeps data]
  · rfl

theorem Tidy.mapClass {symbol : Symbol} (tidy : symbol.Tidy) {change : ClassData → ClassData}
    (keeps : ∀ data, (change data).decls = data.decls) : (symbol.mapClass change).Tidy :=
  tidy.of_decls_eq (decls?_mapClass keeps symbol)

theorem Tidy.mapFunction {symbol : Symbol} (tidy : symbol.Tidy)
    {change : FunctionData → FunctionData} (keeps : ∀ data, (change data).decls = data.decls) :
    (symbol.mapFunction change).Tidy :=
  tidy.of_decls_eq (decls?_mapFunction keeps symbol)

theorem Tidy.mapTemplate {symbol : Symbol} (tidy : symbol.Tidy)
    {change : TemplateData → TemplateData} (keeps : ∀ data, (change data).decls = data.decls) :
    (symbol.mapTemplate change).Tidy :=
  tidy.of_decls_eq (decls?_mapTemplate keeps symbol)

end Symbol

/-- No assignment touches the members. -/
theorem Assignment.decls?_apply (assignment : Assignment) (symbol : Symbol) :
    (assignment.apply symbol).decls? = symbol.decls? := by
  cases assignment with
  | returnType | varargs =>
      apply Symbol.decls?_mapFunction
      intro data
      rfl
  | parent =>
      apply Symbol.decls?_mapClass
      intro data
      rfl
  | primary | definitionParameter =>
      apply Symbol.decls?_mapTemplate
      intro data
      rfl
  | _ => rfl

theorem Entry.append_tidy (entry : Entry) {symbol : Symbol} (tidy : symbol.Tidy) :
    (entry.append symbol).Tidy := by
  cases entry with
  | directive => exact tidy.mapDecls fun _ keeps => keeps
  | parameter =>
      apply tidy.mapFunction
      intro data
      rfl
  | parent | constructor | conversion =>
      apply tidy.mapClass
      intro data
      rfl
  | templateParameter | specialization | explicit | cached | placeholder =>
      apply tidy.mapTemplate
      intro data
      rfl

theorem Entry.retract_tidy (entry : Entry) {symbol : Symbol} (tidy : symbol.Tidy) :
    (entry.retract symbol).Tidy := by
  cases entry with
  | directive => exact tidy.mapDecls fun _ keeps => keeps
  | parameter =>
      apply tidy.mapFunction
      intro data
      rfl
  | parent | constructor | conversion =>
      apply tidy.mapClass
      intro data
      rfl
  | templateParameter | specialization | explicit | cached | placeholder =>
      apply tidy.mapTemplate
      intro data
      rfl

namespace Edit

/-- An edit that the engine makes, as opposed to a reversal. -/
def Reversible : Edit → Prop
  | .assign assignment => assignment.Reversible
  | _ => True

theorem apply_tidy (edit : Edit) {symbol : Symbol} (tidy : symbol.Tidy) :
    (edit.apply symbol).Tidy := by
  cases edit with
  | assign assignment => exact tidy.of_decls_eq (assignment.decls?_apply symbol)
  | append entry => exact entry.append_tidy tidy
  | insertMember name member => exact tidy.mapDecls fun _ keeps => keeps.insert name member

/-- The reversal of an edit gives the symbol back. -/
theorem reversal_apply {edit : Edit} (reversible : edit.Reversible) {symbol : Symbol}
    (tidy : symbol.Tidy) : (edit.reversal symbol).apply (edit.apply symbol) = symbol := by
  cases edit with
  | assign assignment => exact assignment.current_apply reversible symbol
  | append entry => exact entry.retract_append symbol
  | insertMember name member =>
      apply Symbol.mapDecls_restore
      intro decls hdecls
      have hback := MemberMap.remove_insert (tidy decls hdecls) name member
      simp [Declarations.insert, Declarations.remove, hback]

end Edit

namespace Reversal

theorem apply_tidy (reversal : Reversal) {symbol : Symbol} (tidy : symbol.Tidy) :
    (reversal.apply symbol).Tidy := by
  cases reversal with
  | restore assignment => exact tidy.of_decls_eq (assignment.decls?_apply symbol)
  | retract entry => exact entry.retract_tidy tidy
  | removeMember name member => exact tidy.mapDecls fun _ keeps => keeps.remove name member

end Reversal

end NameBinding
