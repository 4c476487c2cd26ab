import NameBinding.Proofs.Table.Growth
import NameBinding.Proofs.Template.HalfBuilt
import NameBinding.Proofs.Template.InstantiationMoves
import NameBinding.Proofs.Template.Repetition
import NameBinding.Proofs.Template.Runs

/-!
# Instances that are found are remembered

A template remembers its explicit specializations, its instances and its placeholders.  Whatever stands for a
template applied to arguments, whether it was there or was made, is one of these.

* `Table.Knows`: the template remembers the symbol.
* `Table.IsInstance`: some template remembers the symbol.
* `Changes.isInstance`: nothing that is remembered is ever forgotten.

The main statements are `knows_instantiateWithin_idle` and `knows_instantiateWithin_copying`: what an
instantiation gives is remembered by the template when it ends.
-/

namespace NameBinding

/-- Everything that a template remembers. -/
def Symbol.remembered (symbol : Symbol) : List Instance :=
  symbol.explicits ++ symbol.instances ++ symbol.placeholders

/-- The template remembers the symbol for some arguments. -/
def Table.Knows (table : Table) (template id : SymbolId) : Prop :=
  ∃ entry ∈ (table.symbol template).remembered, entry.symbol = id

/-- Some template remembers the symbol for some arguments. -/
def Table.IsInstance (table : Table) (id : SymbolId) : Prop :=
  ∃ template, ∃ entry ∈ (table.symbol template).remembered, entry.symbol = id

/-- No edit makes a template forget anything. -/
theorem Edit.mem_remembered (edit : Edit) {symbol : Symbol} {entry : Instance}
    (member : entry ∈ symbol.remembered) : entry ∈ (edit.apply symbol).remembered := by
  obtain ⟨name, scope, type, inTemplate, access, target, named, origin, link, payload⟩ := symbol
  cases payload with
  | template data =>
      simp only [Symbol.remembered, Symbol.explicits, Symbol.instances, Symbol.placeholders, Symbol.templateData?,
        Option.map_some, Option.getD_some, List.mem_append] at member
      rcases edit with assignment | added | ⟨under, inserted⟩
      · cases assignment <;> simpa [apply, Assignment.apply, Symbol.mapTemplate, Symbol.mapFunction,
          Symbol.mapClass, Symbol.remembered, Symbol.explicits, Symbol.instances, Symbol.placeholders,
          Symbol.templateData?, or_assoc] using member
      · cases added <;> simp [apply, Entry.append, Symbol.mapTemplate, Symbol.mapFunction, Symbol.mapClass,
          Symbol.mapDecls, Symbol.remembered, Symbol.explicits, Symbol.instances, Symbol.placeholders,
          Symbol.templateData?] <;> tauto
      · simpa [apply, Symbol.mapDecls, Symbol.remembered, Symbol.explicits, Symbol.instances, Symbol.placeholders,
          Symbol.templateData?, or_assoc] using member
  | _ => simp [Symbol.remembered, Symbol.explicits, Symbol.instances, Symbol.placeholders,
      Symbol.templateData?] at member

/-- No edit makes anything a template that was none, or the other way round. -/
theorem Edit.isTemplate_apply (edit : Edit) (symbol : Symbol) :
    (edit.apply symbol).isTemplate = symbol.isTemplate := by
  obtain ⟨name, scope, type, inTemplate, access, target, named, origin, link, payload⟩ := symbol
  rcases edit with assignment | added | ⟨under, inserted⟩
  · cases assignment <;> cases payload <;> rfl
  · cases added <;> cases payload <;> rfl
  · cases payload <;> rfl

/-- A template stays one while others are copied. -/
theorem Table.isTemplate_lasts (size : Nat) (template : SymbolId) :
    Lasts size fun table => (table.symbol template).isTemplate = true := by
  intro before after steps isTemplate
  have hedit : ∀ (table : Table) (id : SymbolId) (edit : Edit), (table.symbol template).isTemplate = true →
      ((table.perform id edit).symbol template).isTemplate = true := by
    intro table id edit old
    rw [symbol_perform]
    split
    · rw [edit.isTemplate_apply]
      exact old
    · exact old
  induction steps with
  | refl => exact isTemplate
  | create _ symbol _ ih => rwa [symbol_allocate (lt_size_of_isTemplate ih)]
  | cache _ id edit _ ih => exact hedit _ id edit ih
  | perform _ id edit _ ih => exact hedit _ id edit ih
  | write _ id edit _ ih => exact hedit _ id edit ih
  | instantiations _ _ ih => exact ih

namespace Table

variable {table after : Table} {id template : SymbolId}

namespace Knows

theorem isInstance (knows : table.Knows template id) : table.IsInstance id := ⟨template, knows⟩

/-- Only a template that the table has remembers anything. -/
theorem lt_size (knows : table.Knows template id) : template.index < table.size := by
  obtain ⟨entry, member, -⟩ := knows
  refine lt_size_of_symbol (fun symbol => !symbol.remembered.isEmpty) rfl ?_
  simpa using List.ne_nil_of_mem member

theorem of_existing {args : List Descriptor} (known : table.existingInstance? template args = some id) :
    table.Knows template id := by
  unfold existingInstance? at known
  cases hdata : (table.symbol template).templateData? with
  | none => simp [hdata] at known
  | some data =>
      simp only [hdata, Option.bind_some] at known
      obtain ⟨entry, hentry, rfl⟩ := Option.map_eq_some_iff.mp known
      refine ⟨entry, ?_, rfl⟩
      simp only [Symbol.remembered, Symbol.explicits, Symbol.instances, hdata, Option.map_some, Option.getD_some,
        List.mem_append]
      rcases Option.or_eq_some_iff.mp hentry with explicit | ⟨-, cached⟩
      · exact .inl (.inl (List.mem_of_find?_eq_some explicit))
      · exact .inl (.inr (List.mem_of_find?_eq_some cached))

theorem of_remembers {entry : Instance} (remembers : table.Remembers template entry) :
    table.Knows template entry.symbol :=
  ⟨entry, by simp [Symbol.remembered, show entry ∈ (table.symbol template).instances from remembers], rfl⟩

theorem perform (knows : table.Knows template id) (edited : SymbolId) (edit : Edit) :
    (table.perform edited edit).Knows template id := by
  obtain ⟨entry, member, same⟩ := knows
  refine ⟨entry, ?_, same⟩
  rw [symbol_perform]
  split
  · exact edit.mem_remembered member
  · exact member

end Knows

/-- Only what templates remember that the table has is an instance. -/
theorem IsInstance.of_symbols (isInstance : table.IsInstance id)
    (keeps : ∀ template : SymbolId, template.index < table.size → ∀ entry ∈ (table.symbol template).remembered,
      entry ∈ (after.symbol template).remembered) : after.IsInstance id := by
  obtain ⟨template, knows⟩ := isInstance
  have hlt := Knows.lt_size knows
  obtain ⟨entry, member, same⟩ := knows
  exact ⟨template, entry, keeps template hlt entry member, same⟩

end Table

/-- What is remembered stays remembered. -/
theorem Change.isInstance {regime : Regime} {table after : Table} {id : SymbolId}
    (change : Change regime table after) (isInstance : table.IsInstance id) : after.IsInstance id := by
  refine isInstance.of_symbols fun template lt entry member => ?_
  cases change with
  | create symbol symbols => rwa [Table.symbol_of_push symbols, if_neg (by omega)]
  | edit edited edit allowed symbols =>
      rw [Table.symbol_of_modify symbols]
      split
      · exact edit.mem_remembered member
      · exact member
  | elsewhere symbols => rwa [Table.symbol_of_symbols_eq symbols]
  | links start context le copies links =>
      rcases links.cases template with ⟨source, hmember, hdiffers⟩ | hsame
      · rw [links.linked _ hmember hdiffers]
        exact member
      · rwa [hsame]

theorem Changes.isInstance {regime : Regime} {table after : Table} {id : SymbolId}
    (changes : Changes regime table after) (isInstance : table.IsInstance id) : after.IsInstance id := by
  induction changes with
  | refl => exact isInstance
  | tail _ change ih => exact change.isInstance ih

namespace Analysis

variable {table after : Table} {template made : SymbolId} {args : List Descriptor} {bound depth : Nat}

/-- A run that succeeds ends with what it keeps. -/
theorem Yields.ends_ok {α : Type} {inv : Table → Prop} {step : Analysis α} {value : α} (keeps : Keeps inv step)
    (start : inv table) (ends : step table = .ok value after) : inv after := by
  have hends := (keeps table start).1
  rw [ends] at hends
  exact hends.1

/-- What is evident throughout may be made part of the invariant. -/
theorem Follows.evident {inv holds : Table → Prop} {inst : Instantiator}
    (follows : Follows inv (.lasting holds) inst inst) :
    Follows (fun table => inv table ∧ holds table) .none inst inst := by
  intro template args
  refine Yields.keeps_of_ends fun table both => ?_
  obtain ⟨hends, hevident⟩ := follows template args table both.1
  have hstays := hevident (.inl both.2)
  cases hrun : inst template args table with
  | ok made after =>
      rw [hrun] at hends hstays
      exact ⟨⟨hends.1, hstays.1⟩, trivial⟩
  | error interrupt after =>
      rw [hrun] at hends hstays
      cases interrupt with
      | error error => exact ⟨hends, hstays⟩
      | fault fault => trivial

/-- A placeholder is remembered by its template. -/
theorem knows_of_deferredInstance (isTemplate : (table.symbol template).isTemplate = true)
    (ends : deferredInstance template args table = .ok made after) : after.Knows template made := by
  cases hknown : (table.symbol template).placeholders.find? fun entry => Descriptor.sameAll entry.args args with
  | some entry =>
      rw [deferredInstance_known hknown] at ends
      cases ends
      refine ⟨entry, ?_, rfl⟩
      simp [Symbol.remembered, List.mem_of_find?_eq_some hknown]
  | none =>
      rw [deferredInstance_made hknown] at ends
      cases ends
      have hlt := Table.lt_size_of_isTemplate isTemplate
      have hpushed := Table.symbol_allocate hlt (placeholderFor template args (table.symbol template))
      refine ⟨⟨args, ⟨table.size⟩⟩, ?_, rfl⟩
      simp [Symbol.remembered, placeholders_perform (hpushed.symm ▸ isTemplate)]

/-- A copy inside another one is remembered before it is filled. -/
theorem knows_of_nested {size : Nat} (copying : Copying size (depth + 1) table)
    (ends : instantiateUncached (instantiateWithin bound) bound template args table = .ok made after) :
    after.Knows template made := by
  rw [instantiateUncached_nested copying.nested, nestedCopy_apply] at ends
  cases hcopy : copyTemplate (substituter (instantiateWithin bound) bound false) bound template args
      table.deeper with
  | error interrupt last =>
      rw [hcopy] at ends
      cases interrupt <;> cases ends
  | ok first last =>
      rw [hcopy] at ends
      cases ends
      obtain ⟨rfl, hdeclares⟩ := copyTemplate_made hcopy
      have hsubstitutes := Copying.follow_substituter (Copying.follows_instantiateWithin
        (Table.Remembers.lasts size template ⟨args, ⟨table.deeper.size⟩⟩) bound (depth + 1)) bound false
      have hremembers := copyTemplate_remembers copying.deeper hsubstitutes hdeclares bound
      rw [hcopy] at hremembers
      exact .of_remembers hremembers.1

section Levels

variable {inv : Table → Prop}
  (follows : Follows inv .none (instantiateWithin bound) (instantiateWithin bound))
  (stays : ∀ now, inv now → (now.symbol (table.canonical template)).isTemplate = true)
  (copies : ∀ args now made after, inv now →
    instantiateUncached (instantiateWithin bound) bound (table.canonical template) args now = .ok made after →
    after.Knows (table.canonical template) made)

include follows stays copies

/-- The branches of one level of instantiation: in each of them the template remembers what it gives, as long as
it stays a template and remembers its copies. -/
theorem knows_instantiateStep (start : inv table)
    (ends : instantiateWithin (bound + 1) template args table = .ok made after) :
    after.Knows (table.canonical template) made := by
  obtain ⟨-, -, completed, middle, hcompleted, ends⟩ := instantiateStep_eq_ok.mp ends
  have hresolves := tracks_resolveTemplateIds follows bound
  have hcompletes : Keeps inv (completedArguments (instantiateWithin bound) bound template args) := by
    refine Yields.read fun now _ => ?_
    exact (Yields.mapM fun arg _ => hresolves arg).seq fun resolved => tracks_completeArguments hresolves _ _
  have hmiddle : inv middle := hcompletes.ends_ok start hcompleted
  cases hdependent : (table.symbol (table.canonical template)).isTemplateParameter ||
      middle.anyDependent completed with
  | true =>
      rw [instanceFor_deferred hdependent] at ends
      exact knows_of_deferredInstance (stays middle hmiddle) ends
  | false =>
      rw [instanceFor_fits hdependent (fits_of_instanceFor_ok hdependent ends)] at ends
      cases ConcreteRun.of_ok ends with
      | known known => exact .of_existing known
      | @specialized specialization _ deduced reached _ _ inner =>
          have hreached : inv reached := (follows specialization deduced).ends_ok hmiddle inner
          have hremembers := Table.remembers_cached (stays reached hreached) ⟨completed, made⟩
          exact (Table.Knows.of_remembers hremembers).perform _ _
      | copied _ inner => exact copies completed middle made after hmiddle inner

end Levels

/-- What an instantiation gives is remembered by the template. -/
theorem knows_instantiateWithin_idle (idle : table.Idle)
    (ends : instantiateWithin bound template args table = .ok made after) :
    after.Knows (table.canonical template) made := by
  cases bound with
  | zero => cases ends
  | succ bound =>
      obtain ⟨isTemplate, -⟩ := instantiateStep_eq_ok.mp ends
      have hstays : ∀ now, Growth table now → (now.symbol (table.canonical template)).isTemplate = true := by
        intro now growth
        rw [(growth.grows.symbols _ (Table.lt_size_of_isTemplate isTemplate)).isTemplate]
        exact isTemplate
      exact knows_instantiateStep (Growth.instantiationKeeps bound) hstays
        (fun _ _ _ _ growth inner => .of_remembers (instantiateUncached_remembers growth.idle inner))
        ⟨idle, .refl table⟩ ends

/-- In the middle of a copy, too, what an instantiation gives is remembered by the template. -/
theorem knows_instantiateWithin_copying {size : Nat} (copying : Copying size (depth + 1) table)
    (ends : instantiateWithin bound template args table = .ok made after) :
    after.Knows (table.canonical template) made := by
  cases bound with
  | zero => cases ends
  | succ bound =>
      obtain ⟨isTemplate, -⟩ := instantiateStep_eq_ok.mp ends
      have hfollows := Copying.follows_instantiateWithin
        (Table.isTemplate_lasts size (table.canonical template)) bound depth
      exact knows_instantiateStep hfollows.evident (fun _ both => both.2)
        (fun _ _ _ _ both inner => knows_of_nested both.1 inner) ⟨copying, isTemplate⟩ ends

/-- In the middle of a copy, what the instantiator gives is remembered when it ends. -/
def FindsInstances (inst : Instantiator) : Prop :=
  ∀ template args table made after, table.templates.depth ≠ 0 → inst template args table = .ok made after →
    after.IsInstance made

theorem findsInstances_instantiateWithin (bound : Nat) : FindsInstances (instantiateWithin bound) := by
  intro template args table made after nested ends
  obtain ⟨depth, hdepth⟩ := Nat.exists_eq_succ_of_ne_zero nested
  -- All symbols count as new here: what is asked is only whether the instance stays remembered.
  have hcopying : Copying 0 (depth + 1) table :=
    ⟨Nat.zero_le _, hdepth, fun _ _ _ _ => Nat.zero_le _, fun _ _ => Nat.zero_le _⟩
  exact (knows_instantiateWithin_copying hcopying ends).isInstance

end Analysis

end NameBinding
