import NameBinding.Proofs.Table.Entities
import NameBinding.Proofs.Template.DeducedArguments
import NameBinding.Proofs.Template.Failures
import NameBinding.Proofs.Template.Matching
import NameBinding.Table.Attach

/-!
# The choice of a partial specialization

Of the partial specializations whose patterns match the arguments, the one is chosen that is at least as
specialized as every other one while none of these is at least as specialized as it.  There cannot be two of
that sort, so that the choice does not depend on the order in which they were registered.

* `Table.Suits`: a registered specialization that matches, with what is deduced for its parameters.
* `Table.Prevails`: it is the most specialized one of those that match.
* `selectSpecialization_eq_some_iff`: what is chosen, said of the list of those that match.
* `Table.Reregisters`: the table with the same specializations, registered in another order.

The main statement is `selectSpecialization_most_specialized`.
-/

namespace NameBinding

/-- A symbol without the partial specializations registered with it. -/
def Symbol.unregistered (symbol : Symbol) : Symbol :=
  match symbol.payload with
  | .template data => { symbol with payload := .template { data with specializations := [] } }
  | _ => symbol

namespace Table

variable {table other : Table} {template specialization a b : SymbolId} {args deduced : List Descriptor}

/-! ## Those that match -/

/-- A registered partial specialization whose patterns match the arguments, and what is deduced for its
parameters. -/
def Suits (table : Table) (template : SymbolId) (args : List Descriptor) (specialization : SymbolId)
    (deduced : List Descriptor) : Prop :=
  specialization ∈ (table.symbol template).specializations ∧
    ∃ data patterns, (table.symbol specialization).templateData? = some data ∧
      data.patterns = some patterns ∧ table.deduceFromPatterns data.parameters patterns args = some deduced

/-- The specialization is at least as specialized as every other one that matches, and none of these is at
least as specialized as it.  One that alone matches prevails. -/
def Prevails (table : Table) (template : SymbolId) (args : List Descriptor) (specialization : SymbolId) : Prop :=
  ∀ rival bound, table.Suits template args rival bound → rival ≠ specialization →
    table.atLeastAsSpecialized specialization rival = true ∧
      table.atLeastAsSpecialized rival specialization = false

/-- The specializations that match, in the order in which they were registered. -/
def suiting (table : Table) (template : SymbolId) (args : List Descriptor) :
    List (SymbolId × List Descriptor) :=
  (table.symbol template).specializations.filterMap (table.matchSpecialization? args)

theorem mem_suiting {entry : SymbolId × List Descriptor} :
    entry ∈ table.suiting template args ↔ table.Suits template args entry.1 entry.2 := by
  rw [suiting, List.mem_filterMap]
  simp only [matchSpecialization?_eq_some_iff]
  constructor
  · rintro ⟨_, registered, rfl, suits⟩
    exact ⟨registered, suits⟩
  · rintro ⟨registered, suits⟩
    exact ⟨entry.1, registered, rfl, suits⟩

/-- Specializations that are registered once match once. -/
theorem nodup_suiting (distinct : (table.symbol template).specializations.Nodup) (args : List Descriptor) :
    ((table.suiting template args).map Prod.fst).Nodup := by
  refine distinct.sublist ?_
  rw [suiting]
  induction (table.symbol template).specializations with
  | nil => exact .slnil
  | cons first rest ih =>
      rw [List.filterMap_cons]
      cases hfirst : table.matchSpecialization? args first with
      | none => exact ih.cons first
      | some entry =>
          rw [List.map_cons, (matchSpecialization?_eq_some_iff.mp hfirst).1]
          exact ih.cons_cons first

/-- The choice, said of those that match. -/
theorem selectSpecialization_eq (table : Table) (template : SymbolId) (args : List Descriptor) :
    table.selectSpecialization template args =
      match table.suiting template args with
      | [] => .ok none
      | [only] => .ok (some only)
      | several =>
          match several.zipIdx.filter fun (candidate, i) => several.zipIdx.all fun (rival, j) =>
            i == j || table.strictlyMoreSpecialized candidate.1 rival.1 with
          | [(winner, _)] => .ok (some winner)
          | _ => .error (.ambiguous (table.symbol template).name) := rfl

/-! ## The most specialized one -/

theorem strictlyMoreSpecialized_iff :
    table.strictlyMoreSpecialized a b = true ↔
      table.atLeastAsSpecialized a b = true ∧ table.atLeastAsSpecialized b a = false := by
  rw [strictlyMoreSpecialized, Bool.and_eq_true, Bool.not_eq_true']

theorem strictlyMoreSpecialized_asymm (more : table.strictlyMoreSpecialized a b = true) :
    table.strictlyMoreSpecialized b a = false := by
  rw [strictlyMoreSpecialized_iff] at more
  rw [strictlyMoreSpecialized, more.2, Bool.false_and]

section Winners

variable (table) {several : List (SymbolId × List Descriptor)} (distinct : (several.map Prod.fst).Nodup)

include distinct

/-- Two entries at different places are two specializations, so that a winner is an entry that is more
specialized than all the other ones. -/
theorem mem_winners {entry : SymbolId × List Descriptor} {place : Nat} :
    (entry, place) ∈ (several.zipIdx.filter fun (candidate, i) =>
        several.zipIdx.all fun (rival, j) => i == j || table.strictlyMoreSpecialized candidate.1 rival.1) ↔
      several[place]? = some entry ∧
        ∀ rival ∈ several, rival ≠ entry → table.strictlyMoreSpecialized entry.1 rival.1 = true := by
  have hentries : several.Nodup := distinct.of_map
  rw [List.mem_filter, List.mem_zipIdx_iff_getElem?]
  refine and_congr_right fun hplace => ?_
  simp only [List.all_eq_true, Bool.or_eq_true, beq_iff_eq]
  constructor
  · intro all rival member differs
    obtain ⟨other, hother⟩ := List.mem_iff_getElem?.mp member
    refine (all (rival, other) (List.mem_zipIdx_iff_getElem?.mpr hother)).resolve_left ?_
    rintro rfl
    exact differs (Option.some.inj (hother.symm.trans hplace))
  · rintro all ⟨rival, other⟩ member
    have hother : several[other]? = some rival := List.mem_zipIdx_iff_getElem?.mp member
    by_cases hsame : rival = entry
    · subst hsame
      obtain ⟨hlt, -⟩ := List.getElem?_eq_some_iff.mp hplace
      exact .inl ((List.getElem?_inj hlt hentries).mp (hplace.trans hother.symm))
    · exact .inr (all rival (List.mem_of_getElem? hother) hsame)

/-- There is no more than one winner, for of two different ones each would be more specialized than the
other. -/
theorem winners_eq_singleton_iff {entry : SymbolId × List Descriptor} :
    (∃ place, (several.zipIdx.filter fun (candidate, i) => several.zipIdx.all fun (rival, j) =>
        i == j || table.strictlyMoreSpecialized candidate.1 rival.1) = [(entry, place)]) ↔
      entry ∈ several ∧
        ∀ rival ∈ several, rival ≠ entry → table.strictlyMoreSpecialized entry.1 rival.1 = true := by
  constructor
  · rintro ⟨place, only⟩
    have hmember := List.mem_singleton_self (entry, place)
    rw [← only, mem_winners table distinct] at hmember
    exact ⟨List.mem_of_getElem? hmember.1, hmember.2⟩
  · rintro ⟨member, best⟩
    obtain ⟨place, hplace⟩ := List.mem_iff_getElem?.mp member
    have hwinner := (mem_winners table distinct).mpr ⟨hplace, best⟩
    have hplaces : several.zipIdx.Nodup := by
      refine List.Nodup.of_map Prod.snd ?_
      rw [List.zipIdx_map_snd]
      exact List.nodup_range'
    refine ⟨place, of_not_not fun several' => ?_⟩
    rcases ((hplaces.filter _).ne_singleton_iff _).mp several' with hnone | ⟨⟨rival, other⟩, hrival, hdiffers⟩
    · rw [hnone] at hwinner
      cases hwinner
    · obtain ⟨hother, hbest⟩ := (mem_winners table distinct).mp hrival
      by_cases hsame : rival = entry
      · subst hsame
        obtain ⟨hlt, -⟩ := List.getElem?_eq_some_iff.mp hplace
        have hplaceSame : place = other :=
          (List.getElem?_inj hlt distinct.of_map).mp (hplace.trans hother.symm)
        exact hdiffers (by rw [hplaceSame])
      · have hback := strictlyMoreSpecialized_asymm (best rival (List.mem_of_getElem? hother) hsame)
        rw [hbest entry member (Ne.symm hsame)] at hback
        cases hback

end Winners

/-- The specialization that is chosen matches and is more specialized than all other ones that match. -/
theorem selectSpecialization_eq_some_iff (distinct : (table.symbol template).specializations.Nodup)
    (args : List Descriptor) (specialization : SymbolId) (deduced : List Descriptor) :
    table.selectSpecialization template args = .ok (some (specialization, deduced)) ↔
      table.Suits template args specialization deduced ∧ table.Prevails template args specialization := by
  have hdistinct := nodup_suiting distinct args
  have hprevails : ∀ entry ∈ table.suiting template args,
      table.Prevails template args entry.1 ↔ ∀ rival ∈ table.suiting template args, rival ≠ entry →
        table.strictlyMoreSpecialized entry.1 rival.1 = true := by
    intro entry member
    constructor
    · intro prevails rival hrival differs
      refine strictlyMoreSpecialized_iff.mpr (prevails rival.1 rival.2 (mem_suiting.mp hrival) fun same => ?_)
      exact differs (List.inj_on_of_nodup_map hdistinct hrival member same)
    · intro all rival bound suits differs
      exact strictlyMoreSpecialized_iff.mp
        (all (rival, bound) (mem_suiting.mpr suits) fun same => differs (congrArg Prod.fst same))
  have hchosen : table.selectSpecialization template args = .ok (some (specialization, deduced)) ↔
      (specialization, deduced) ∈ table.suiting template args ∧
        ∀ rival ∈ table.suiting template args, rival ≠ (specialization, deduced) →
          table.strictlyMoreSpecialized specialization rival.1 = true := by
    rw [selectSpecialization_eq]
    clear hprevails
    generalize table.suiting template args = suiting at hdistinct
    split
    · simp
    · rename_i only
      constructor
      · intro same
        cases same
        exact ⟨List.mem_singleton_self _, fun rival member differs =>
          absurd (List.mem_singleton.mp member) differs⟩
      · rintro ⟨member, -⟩
        rw [List.mem_singleton.mp member]
    · rename_i several _ _
      rw [← winners_eq_singleton_iff table hdistinct]
      split
      · rename_i winner place hwinners
        rw [hwinners]
        simp
      · rename_i hnot
        refine iff_of_false (fun same => nomatch same) ?_
        rintro ⟨place, only⟩
        exact hnot _ place only
  rw [hchosen, mem_suiting]
  refine and_congr_right fun suits => ?_
  rw [hprevails (specialization, deduced) (mem_suiting.mpr suits)]

/-- Nothing is chosen exactly if nothing matches. -/
theorem selectSpecialization_eq_none_iff :
    table.selectSpecialization template args = .ok none ↔ ∀ rival bound, ¬ table.Suits template args rival bound := by
  have hempty : (∀ rival bound, ¬ table.Suits template args rival bound) ↔ table.suiting template args = [] := by
    rw [List.eq_nil_iff_forall_not_mem]
    exact ⟨fun none entry member => none _ _ (mem_suiting.mp member), fun none rival bound suits =>
      none (rival, bound) (mem_suiting.mpr suits)⟩
  rw [hempty, selectSpecialization_eq]
  split
  · simp [*]
  · simp [*]
  · rename_i several hnil _
    refine iff_of_false (fun none => ?_) hnil
    split at none <;> cases none

/-- The use is ambiguous exactly if something matches and nothing prevails. -/
theorem selectSpecialization_eq_error_iff (distinct : (table.symbol template).specializations.Nodup)
    (args : List Descriptor) :
    table.selectSpecialization template args = .error (.ambiguous (table.symbol template).name) ↔
      (∃ rival bound, table.Suits template args rival bound) ∧
        ¬ ∃ specialization deduced, table.Suits template args specialization deduced ∧
          table.Prevails template args specialization := by
  constructor
  · intro failed
    refine ⟨?_, ?_⟩
    · by_contra none
      rw [selectSpecialization_eq_none_iff.mpr fun rival bound suits => none ⟨rival, bound, suits⟩] at failed
      cases failed
    · rintro ⟨specialization, deduced, best⟩
      rw [(selectSpecialization_eq_some_iff distinct args specialization deduced).mpr best] at failed
      cases failed
  · rintro ⟨⟨rival, bound, suits⟩, hnone⟩
    cases hselected : table.selectSpecialization template args with
    | error error => rw [selectSpecialization_error hselected]
    | ok chosen =>
        cases chosen with
        | none => exact absurd suits (selectSpecialization_eq_none_iff.mp hselected rival bound)
        | some chosen =>
            exact absurd ⟨chosen.1, chosen.2, (selectSpecialization_eq_some_iff distinct args _ _).mp hselected⟩ hnone

/-! ## The order of registration -/

/-- Only symbols of the table have anything registered with them. -/
theorem unregistered_symbol (table : Table) (id : SymbolId) :
    (table.symbol id).unregistered = (table.symbols.map Symbol.unregistered).getD id.index default := by
  rw [symbol, Array.getD_eq_getD_getElem?, Array.getD_eq_getD_getElem?, Array.getElem?_map]
  cases table.symbols[id.index]? <;> rfl

/-- The other table has the same symbols, but the partial specializations of templates may be registered in
another order; those of `template` are the same ones. -/
structure Reregisters (table other : Table) (template : SymbolId) : Prop where
  config : other.config = table.config
  size : other.size = table.size
  symbols : ∀ id, (other.symbol id).unregistered = (table.symbol id).unregistered
  registered : (other.symbol template).specializations.Perm (table.symbol template).specializations

namespace Reregisters

variable (again : table.Reregisters other template)

include again

/-- Whatever is read from a symbol without what is registered with it is the same. -/
theorem read {α : Type} (reader : Symbol → α)
    (blind : ∀ symbol : Symbol, reader symbol.unregistered = reader symbol) (id : SymbolId) :
    reader (other.symbol id) = reader (table.symbol id) := by
  rw [← blind (other.symbol id), ← blind (table.symbol id), again.symbols id]

/-- So is what does not depend on the payload, or is read from the payload without it. -/
theorem readPayload {α : Type} (reader : Symbol → α)
    (plain : ∀ (symbol : Symbol) (data : TemplateData), symbol.payload = .template data →
      reader { symbol with payload := .template { data with specializations := [] } } = reader symbol)
    (id : SymbolId) : reader (other.symbol id) = reader (table.symbol id) := by
  refine again.read reader (fun symbol => ?_) id
  unfold Symbol.unregistered
  split
  · rename_i data hpayload
    exact plain symbol data hpayload
  · rfl

theorem sameEntities : table.SameEntities other where
  size := again.size
  type := again.readPayload Symbol.type fun _ _ _ => rfl
  aliasOf := again.readPayload Symbol.aliasOf fun _ _ _ => rfl
  forwardTarget := again.readPayload Symbol.forwardTarget fun _ _ _ => rfl

theorem placeholder?_eq (id : SymbolId) : (other.symbol id).placeholder? = (table.symbol id).placeholder? :=
  again.readPayload Symbol.placeholder? (fun _ _ payload => by simp [Symbol.placeholder?, payload]) id

theorem argumentSort_eq (arg : Descriptor) : other.argumentSort arg = table.argumentSort arg := by
  have hisTemplate : ∀ id, (other.symbol id).isTemplate = (table.symbol id).isTemplate :=
    again.readPayload Symbol.isTemplate fun _ _ payload => by
      simp [Symbol.isTemplate, Symbol.templateData?, payload]
  simp only [argumentSort, Symbol.isTemplateParameter, again.sameEntities.canonical_eq, again.sameEntities.type,
    hisTemplate]
  rfl

theorem templateIdParts?_eq (type : Descriptor) : other.templateIdParts? type = table.templateIdParts? type := by
  have horigin : ∀ id, (other.symbol id).origin = (table.symbol id).origin :=
    again.readPayload Symbol.origin fun _ _ _ => rfl
  simp only [templateIdParts?, again.sameEntities.canonical_eq, again.placeholder?_eq, horigin]

theorem deduceType_eq (parameters : List SymbolId) (depth : Nat) (mode : DeductionMode) (bindings : Bindings)
    (pattern arg : Descriptor) :
    other.deduceType parameters depth mode bindings pattern arg =
      table.deduceType parameters depth mode bindings pattern arg := by
  induction depth generalizing mode bindings pattern arg with
  | zero => rfl
  | succ depth ih =>
      have hinner : other.deduceType parameters depth = table.deduceType parameters depth := by
        funext mode bindings pattern arg
        exact ih mode bindings pattern arg
      simp only [deduceType, bindParameter, deduceTemplateId, hinner, again.sameEntities.flattenType_eq,
        again.sameEntities.type, again.sameEntities.canonical_eq, again.argumentSort_eq, again.templateIdParts?_eq,
        Symbol.isPlaceholder, again.placeholder?_eq]

theorem deduceFromPatterns_eq (parameters : List SymbolId) (patterns args : List Descriptor) :
    other.deduceFromPatterns parameters patterns args = table.deduceFromPatterns parameters patterns args := by
  simp only [deduceFromPatterns, again.config, again.deduceType_eq]

/-- The parameters and the patterns of a specialization. -/
theorem templateParts_eq (id : SymbolId) :
    (other.symbol id).templateData?.map (fun data => (data.parameters, data.patterns)) =
      (table.symbol id).templateData?.map (fun data => (data.parameters, data.patterns)) :=
  again.readPayload (fun symbol => symbol.templateData?.map fun data => (data.parameters, data.patterns))
    (fun _ _ payload => by simp [Symbol.templateData?, payload]) id

theorem matchSpecialization?_eq (args : List Descriptor) (specialization : SymbolId) :
    other.matchSpecialization? args specialization = table.matchSpecialization? args specialization := by
  have hparts := again.templateParts_eq specialization
  simp only [matchSpecialization?, again.deduceFromPatterns_eq]
  cases hother : (other.symbol specialization).templateData? <;>
    cases htable : (table.symbol specialization).templateData? <;>
      simp only [hother, htable, Option.map_some, Option.map_none, Option.some.injEq, Prod.mk.injEq,
        reduceCtorEq] at hparts
  · rfl
  · simp only [Option.bind_eq_bind, Option.bind_some, hparts.1, hparts.2]

theorem atLeastAsSpecialized_eq (a b : SymbolId) :
    other.atLeastAsSpecialized a b = table.atLeastAsSpecialized a b := by
  have hpartsA := again.templateParts_eq a
  have hpartsB := again.templateParts_eq b
  simp only [atLeastAsSpecialized, again.deduceFromPatterns_eq]
  cases hotherA : (other.symbol a).templateData? <;> cases htableA : (table.symbol a).templateData? <;>
    cases hotherB : (other.symbol b).templateData? <;> cases htableB : (table.symbol b).templateData? <;>
      simp_all

theorem suits_iff :
    other.Suits template args specialization deduced ↔ table.Suits template args specialization deduced := by
  have hmatches : ∀ table : Table, table.Suits template args specialization deduced ↔
      specialization ∈ (table.symbol template).specializations ∧
        table.matchSpecialization? args specialization = some (specialization, deduced) := fun table => by
    rw [Suits, matchSpecialization?_eq_some_iff, and_iff_right rfl]
  rw [hmatches, hmatches, again.registered.mem_iff, again.matchSpecialization?_eq]

theorem prevails_iff :
    other.Prevails template args specialization ↔ table.Prevails template args specialization := by
  simp only [Prevails, again.suits_iff, again.atLeastAsSpecialized_eq]

/-- What is chosen does not depend on the order. -/
theorem selectSpecialization_eq (distinct : (table.symbol template).specializations.Nodup)
    (args : List Descriptor) : other.selectSpecialization template args = table.selectSpecialization template args := by
  have hdistinct : (other.symbol template).specializations.Nodup := again.registered.nodup_iff.mpr distinct
  have hname : (other.symbol template).name = (table.symbol template).name :=
    again.readPayload Symbol.name (fun _ _ _ => rfl) template
  cases hselected : table.selectSpecialization template args with
  | error error =>
      obtain rfl := selectSpecialization_error hselected
      rw [← hname, selectSpecialization_eq_error_iff hdistinct args]
      simp only [again.suits_iff, again.prevails_iff]
      exact (selectSpecialization_eq_error_iff distinct args).mp hselected
  | ok chosen =>
      cases chosen with
      | none =>
          refine selectSpecialization_eq_none_iff.mpr fun rival bound suits => ?_
          exact selectSpecialization_eq_none_iff.mp hselected rival bound (again.suits_iff.mp suits)
      | some chosen =>
          obtain ⟨suits, prevails⟩ := (selectSpecialization_eq_some_iff distinct args _ _).mp hselected
          exact (selectSpecialization_eq_some_iff hdistinct args _ _).mpr
            ⟨again.suits_iff.mpr suits, again.prevails_iff.mpr prevails⟩

end Reregisters

/-! ## The choice -/

/-- Which partial specialization is used.  None if none matches; otherwise the one that prevails, with the
arguments deduced for it; and if none prevails, the use is ambiguous.  No two of them prevail, and so the order in
which they were registered makes no difference. -/
theorem selectSpecialization_most_specialized (table : Table) (template : SymbolId) (args : List Descriptor)
    (distinct : (table.symbol template).specializations.Nodup) :
    (table.selectSpecialization template args = .ok none ↔
      ∀ rival bound, ¬ table.Suits template args rival bound) ∧
    (∀ specialization deduced,
      table.selectSpecialization template args = .ok (some (specialization, deduced)) ↔
        table.Suits template args specialization deduced ∧ table.Prevails template args specialization) ∧
    (table.selectSpecialization template args = .error (.ambiguous (table.symbol template).name) ↔
      (∃ rival bound, table.Suits template args rival bound) ∧
        ¬ ∃ specialization deduced, table.Suits template args specialization deduced ∧
          table.Prevails template args specialization) ∧
    (∀ a b boundA boundB, table.Suits template args a boundA → table.Prevails template args a →
      table.Suits template args b boundB → table.Prevails template args b → a = b ∧ boundA = boundB) ∧
    ∀ other, table.Reregisters other template →
      other.selectSpecialization template args = table.selectSpecialization template args := by
  have hsome := selectSpecialization_eq_some_iff distinct args
  refine ⟨selectSpecialization_eq_none_iff, hsome, selectSpecialization_eq_error_iff distinct args, ?_,
    fun other again => again.selectSpecialization_eq distinct args⟩
  intro a b boundA boundB suitsA prevailsA suitsB prevailsB
  have hA := (hsome a boundA).mpr ⟨suitsA, prevailsA⟩
  rw [(hsome b boundB).mpr ⟨suitsB, prevailsB⟩] at hA
  cases hA
  exact ⟨rfl, rfl⟩

end Table

/-! ## A run -/

open Analysis

/-- A class template `S<T>` and its partial specializations `S<P *>` (the template 4) and `S<const P *>` (the
template 6), registered in the given order. -/
def pointerSpecializations (order : List SymbolId) : Table :=
  finalTable (Table.new { nestingLimit := 8 }) do
    let primary ← createTemplate ⟨17⟩
    let parameter ← createTemplateParameter ⟨18⟩ .typeName
    addTemplateParameter primary parameter
    let pointed ← createTemplateParameter ⟨19⟩ .typeName
    let toPointer ← createSpecialization ⟨17⟩ [(Descriptor.ofSymbol pointed).pointer]
    addTemplateParameter toPointer pointed
    let constant ← createTemplateParameter ⟨19⟩ .typeName
    let toConstant ← createSpecialization ⟨17⟩
      [((Descriptor.ofSymbol constant).setBaseCv { isConst := true }).pointer]
    addTemplateParameter toConstant constant
    order.forM (addTemplateSpecialization primary)

/-- `S<const int *>` matches both specializations and uses `S<const P *>` with `P` bound to `int`, whichever of
the two was registered first. -/
theorem pointer_to_constant_selected :
    ((pointerSpecializations [⟨4⟩, ⟨6⟩]).symbol ⟨1⟩).specializations.Nodup ∧
      (pointerSpecializations [⟨4⟩, ⟨6⟩]).Reregisters (pointerSpecializations [⟨6⟩, ⟨4⟩]) ⟨1⟩ ∧
      (pointerSpecializations [⟨4⟩, ⟨6⟩]).Suits ⟨1⟩ [constIntPointer] ⟨4⟩
        [(Descriptor.ofKind .int).setBaseCv { isConst := true }] ∧
      (pointerSpecializations [⟨4⟩, ⟨6⟩]).Suits ⟨1⟩ [constIntPointer] ⟨6⟩ [.ofKind .int] ∧
      (pointerSpecializations [⟨4⟩, ⟨6⟩]).Prevails ⟨1⟩ [constIntPointer] ⟨6⟩ ∧
      (pointerSpecializations [⟨6⟩, ⟨4⟩]).selectSpecialization ⟨1⟩ [constIntPointer] =
        .ok (some (⟨6⟩, [.ofKind .int])) := by
  have hfirst : ((pointerSpecializations [⟨4⟩, ⟨6⟩]).symbol ⟨1⟩).specializations = [⟨4⟩, ⟨6⟩] := by cbv
  have hsecond : ((pointerSpecializations [⟨6⟩, ⟨4⟩]).symbol ⟨1⟩).specializations = [⟨6⟩, ⟨4⟩] := by cbv
  have hdistinct : ((pointerSpecializations [⟨4⟩, ⟨6⟩]).symbol ⟨1⟩).specializations.Nodup := by
    rw [hfirst]
    decide
  have hagain : (pointerSpecializations [⟨4⟩, ⟨6⟩]).Reregisters (pointerSpecializations [⟨6⟩, ⟨4⟩]) ⟨1⟩ := by
    refine ⟨by cbv, by cbv, fun id => ?_, ?_⟩
    · have hsymbols : (pointerSpecializations [⟨6⟩, ⟨4⟩]).symbols.map Symbol.unregistered =
          (pointerSpecializations [⟨4⟩, ⟨6⟩]).symbols.map Symbol.unregistered := by cbv
      rw [Table.unregistered_symbol, Table.unregistered_symbol, hsymbols]
    · rw [hfirst, hsecond]
      exact List.Perm.swap _ _ _
  have hboth : (pointerSpecializations [⟨4⟩, ⟨6⟩]).Suits ⟨1⟩ [constIntPointer] ⟨4⟩
      [(Descriptor.ofKind .int).setBaseCv { isConst := true }] := by
    rw [Table.Suits, hfirst]
    exact ⟨List.mem_cons_self, _, _, rfl, rfl, by cbv⟩
  have hselected : (pointerSpecializations [⟨4⟩, ⟨6⟩]).selectSpecialization ⟨1⟩ [constIntPointer] =
      .ok (some (⟨6⟩, [.ofKind .int])) := by cbv
  obtain ⟨-, hsome, -, -, horder⟩ := Table.selectSpecialization_most_specialized
    (pointerSpecializations [⟨4⟩, ⟨6⟩]) ⟨1⟩ [constIntPointer] hdistinct
  obtain ⟨hsuits, hprevails⟩ := (hsome _ _).mp hselected
  exact ⟨hdistinct, hagain, hboth, hsuits, hprevails, (horder _ hagain).trans hselected⟩

end NameBinding
