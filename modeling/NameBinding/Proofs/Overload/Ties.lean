import NameBinding.Overload.Candidate
import NameBinding.Proofs.Template.Origins
import NameBinding.Proofs.Template.TemplateOrder

/-!
# Ties between candidates

When two candidates of a call cost the same, the templates that the functions are instances of decide.  They are
read off the origins in the table in which the call ends, where instances are that the call has made.

* `Table.TiesSettled`: in the table in which the call starts, no partial specialization makes it matter which
  candidate came first.
* `Table.Took`: what a candidate took part with.
* `Table.functionTemplateOf?_renamed`: the template is the same in two runs that started from one table.

The main statement is `winsTie_renamed`: so are the ties.
-/

namespace NameBinding

namespace Table

variable {before after first second : Table} {a x f g candidate template : SymbolId} {candidates : List SymbolId}

/-! ## Grown tables -/

namespace Grows

variable (grows : before.Grows after)

include grows

theorem knows (known : before.Knows a x) : after.Knows a x := by
  have hsymbol := grows.symbols a known.lt_size
  obtain ⟨entry, member, same⟩ := known
  refine ⟨entry, ?_, same⟩
  simp only [Symbol.remembered, List.mem_append, hsymbol.explicits] at member ⊢
  exact member.imp (Or.imp_right fun cached => hsymbol.instances.subset cached)
    fun placeholder => hsymbol.placeholders.subset placeholder

theorem isSome_functionData? (isFunction : (before.symbol x).functionData?.isSome = true) :
    (after.symbol x).functionData?.isSome = true := by
  have hlt := lt_size_of_symbol (·.functionData?.isSome) rfl isFunction
  rw [(grows.symbols x hlt).read (·.functionData?.isSome), isFunction]
  rintro ⟨name, scope, type, inTemplate, access, target, named, origin, link, payload⟩
  cases payload <;> rfl

theorem isFunctionTemplate_eq (represented : before.Represented) (lt : x.index < before.size) :
    after.isFunctionTemplate x = before.isFunctionTemplate x := by
  rw [isFunctionTemplate, isFunctionTemplate, grows.templated?_eq lt]
  cases htemplated : before.templated? x with
  | none => rfl
  | some templated =>
      rw [Option.any_some, Option.any_some, Symbol.isFunction, Symbol.isFunction,
        (grows.symbols templated (represented.templated?_lt htemplated)).type]

end Grows

/-! ## The templates that decide -/

/-- Is a function with the first origin preferred to one with the second origin? -/
def preferred (table : Table) : Option SymbolId → Option SymbolId → Bool
  | none, some _ => true
  | some a, some b =>
      a != b && table.moreSpecializedFunction a b && !table.moreSpecializedFunction b a
  | _, none => false

theorem winsTie_eq_preferred (table : Table) (f g : SymbolId) :
    table.winsTie f g = table.preferred (table.functionTemplateOf? f) (table.functionTemplateOf? g) := by
  unfold winsTie preferred
  cases table.functionTemplateOf? f <;> cases table.functionTemplateOf? g <;> rfl

/-- The template may be the one that a candidate loses or wins a tie with: the candidate itself, its origin, or the
origin of an instance that it remembers. -/
def DecidesTies (table : Table) (candidate template : SymbolId) : Prop :=
  template = candidate ∨
    ∃ x, (x = candidate ∨ table.Knows candidate x) ∧ table.functionTemplateOf? x = some template

/-- No adoption makes a difference for the ties of the candidates: templates keep to themselves, other candidates
are no instances of partial specializations, and no such instance is named where the templates that decide are
compared. -/
structure TiesSettled (table : Table) (candidates : List SymbolId) : Prop where
  templates : ∀ candidate ∈ candidates, table.isFunctionTemplate candidate = true →
    table.KeepsToItself candidate
  functions : ∀ candidate ∈ candidates, table.isFunctionTemplate candidate = false →
    ¬ table.Adoptable candidate
  compared : ∀ candidate ∈ candidates, ∀ template, table.DecidesTies candidate template →
    ∀ function, table.templated? template = some function →
      ∀ parameter ∈ (table.symbol function).parameters,
        ∀ x, table.ReadsOrigin (table.symbol parameter).type x → ¬ table.Adoptable x

/-- Where nothing has been instantiated yet, it is enough that the templates share no partial specializations. -/
theorem TiesSettled.of_unremembered {table : Table}
    (unremembered : ∀ i : Fin table.size, (table.symbol ⟨i⟩).remembered.isEmpty = true)
    (sole : ∀ candidate ∈ candidates, ∀ i : Fin table.size, ∀ special ∈ (table.symbol ⟨i⟩).specializations,
      table.InFamily candidate (table.canonical special) → (⟨i⟩ : SymbolId) = candidate)
    (plain : ∀ candidate ∈ candidates, ∀ special ∈ (table.symbol candidate).specializations,
      (table.symbol (table.canonical special)).specializations = []) : table.TiesSettled candidates := by
  have hknows : ∀ a x, ¬ table.Knows a x := by
    intro a x known
    have hempty : (table.symbol a).remembered.isEmpty = true := unremembered ⟨a.index, known.lt_size⟩
    obtain ⟨entry, member, -⟩ := known
    rw [List.isEmpty_iff.mp hempty] at member
    cases member
  have hadoptable : ∀ x, ¬ table.Adoptable x := by
    rintro x ⟨_, special, -, known⟩
    exact hknows _ _ known
  refine ⟨fun candidate member _ => ⟨fun other special registered => ?_, plain candidate member,
    fun x adoptable => absurd adoptable (hadoptable x), fun x known => absurd known (hknows _ x)⟩,
    fun candidate _ _ => hadoptable candidate, fun _ _ _ _ _ _ _ _ x _ => hadoptable x⟩
  -- Only symbols of the table have partial specializations.
  have hlt : other.index < table.size :=
    lt_size_of_symbol (fun symbol => !symbol.specializations.isEmpty) rfl
      (by simpa using List.ne_nil_of_mem registered)
  exact sole candidate member ⟨other.index, hlt⟩ special registered

/-- The function that a candidate took part with in a call that started in `before`: itself, or an instance that it
remembers. -/
structure Took (before after : Table) (candidate function : SymbolId) : Prop where
  isFunction : (after.symbol function).functionData?.isSome = true
  itself : before.isFunctionTemplate candidate = false → function = candidate
  asInstance : before.isFunctionTemplate candidate = true → after.Knows candidate function

theorem Took.grows {last : Table} (took : before.Took after candidate f) (grows : after.Grows last) :
    before.Took last candidate f where
  isFunction := grows.isSome_functionData? took.isFunction
  itself := took.itself
  asInstance := fun isTemplate => grows.knows (took.asInstance isTemplate)

/-- An instance that no partial specialization remembers is one of the template that it was one of. -/
theorem Origins.functionTemplateOf?_eq (origins : before.Origins after) (represented : before.Represented)
    (lt : x.index < before.size) (unadoptable : ¬ before.Adoptable x) :
    after.functionTemplateOf? x = before.functionTemplateOf? x := by
  rw [functionTemplateOf?, functionTemplateOf?, (origins.settled x lt unadoptable).1]
  cases horigin : (before.symbol x).origin with
  | none => rfl
  | some use =>
      have hwithin := Symbol.origin_within (represented.within x) horigin
      have hlt : use.template.index < before.size := hwithin _ (by simp [TemplateUse.mentions])
      simp only [Option.map_some, Option.filter_some, origins.grows.isFunctionTemplate_eq represented hlt]

theorem Represented.functionTemplateOf?_lt (represented : before.Represented)
    (found : before.functionTemplateOf? x = some template) : template.index < before.size := by
  obtain ⟨hmapped, -⟩ := Option.filter_eq_some_iff.mp found
  obtain ⟨use, horigin, rfl⟩ := Option.map_eq_some_iff.mp hmapped
  exact Symbol.origin_within (represented.within x) horigin _ (by simp [TemplateUse.mentions])

/-- The instance of a candidate that keeps to itself is one of this candidate. -/
theorem Origins.functionTemplateOf?_own (origins : before.Origins after) (represented : before.Represented)
    (keeps : before.KeepsToItself template) (isTemplate : before.isFunctionTemplate template = true)
    (lt : template.index < before.size) (knows : after.Knows template x)
    (young : before.size ≤ x.index ∨ before.Adoptable x)
    (isFunction : (after.symbol x).functionData?.isSome = true) :
    after.functionTemplateOf? x = some template := by
  rw [functionTemplateOf?, origins.own template keeps x knows young isFunction, Option.filter_some,
    origins.grows.isFunctionTemplate_eq represented lt, isTemplate, if_pos rfl]

section Runs

variable {rename : Equiv.Perm SymbolId} {c d : SymbolId} (calm : before.Calm) (originsFirst : before.Origins first)
  (originsSecond : before.Origins second) (settled : before.TiesSettled candidates)

include calm originsFirst originsSecond settled

/-- In both runs the same one of two deciding templates is the more specialized one. -/
theorem moreSpecializedFunction_renamed (typedefs : before.TypedefsEnd) {s t : SymbolId}
    (memberC : c ∈ candidates) (memberD : d ∈ candidates) (decidesS : before.DecidesTies c s)
    (decidesT : before.DecidesTies d t) (ltS : s.index < before.size) (ltT : t.index < before.size) :
    second.moreSpecializedFunction s t = first.moreSpecializedFunction s t := by
  have hkeeps : ∀ {last : Table}, before.Origins last → ∀ template, template = s ∨ template = t →
      ∀ function, before.templated? template = some function →
      ∀ parameter ∈ (before.symbol function).parameters,
      before.KeepsOrigins last (before.symbol parameter).type := by
    intro last origins template one function declares parameter member x reads
    have hlt : x.index < before.size := calm.represented.readsOrigin_lt (calm.represented.type_below parameter) reads
    have hunadoptable : ¬ before.Adoptable x := by
      rcases one with rfl | rfl
      · exact settled.compared c memberC _ decidesS function declares parameter member x reads
      · exact settled.compared d memberD _ decidesT function declares parameter member x reads
    exact (origins.settled x hlt hunadoptable).1
  rw [originsFirst.grows.moreSpecializedFunction_eq calm typedefs ltS ltT (hkeeps originsFirst),
    originsSecond.grows.moreSpecializedFunction_eq calm typedefs ltS ltT (hkeeps originsSecond)]

variable (fixes : ∀ x : SymbolId, x.index < before.size → rename x = x)

include fixes

omit calm originsFirst originsSecond settled in
/-- What is new in one run is new in the other one. -/
theorem size_le_renamed {x : SymbolId} (behind : before.size ≤ x.index) : before.size ≤ (rename x).index := by
  by_contra old
  have hsame := rename.injective (fixes _ (Nat.not_le.mp old))
  rw [hsame] at old
  exact old behind

/-- Two runs that start from one table end with functions of the same template for a candidate. -/
theorem functionTemplateOf?_renamed (member : candidate ∈ candidates) (lt : candidate.index < before.size)
    (took : before.Took first candidate f) (tookToo : before.Took second candidate (rename f)) :
    second.functionTemplateOf? (rename f) = first.functionTemplateOf? f ∧
      ∀ template, first.functionTemplateOf? f = some template →
        before.DecidesTies candidate template ∧ template.index < before.size := by
  have hrepresented := calm.represented
  cases htemplate : before.isFunctionTemplate candidate with
  | false =>
      obtain rfl := took.itself htemplate
      have hunadoptable := settled.functions _ member htemplate
      rw [fixes _ lt, originsFirst.functionTemplateOf?_eq hrepresented lt hunadoptable,
        originsSecond.functionTemplateOf?_eq hrepresented lt hunadoptable]
      exact ⟨rfl, fun template found =>
        ⟨.inr ⟨_, .inl rfl, found⟩, hrepresented.functionTemplateOf?_lt found⟩⟩
  | true =>
      have hknows := took.asInstance htemplate
      have hknowsToo := tookToo.asInstance htemplate
      by_cases hold : f.index < before.size ∧ ¬ before.Adoptable f
      · -- The instance was there, and its origin has not changed.
        obtain ⟨hlt, hunadoptable⟩ := hold
        rw [fixes f hlt, originsFirst.functionTemplateOf?_eq hrepresented hlt hunadoptable,
          originsSecond.functionTemplateOf?_eq hrepresented hlt hunadoptable]
        have hknown := (originsFirst.settled f hlt hunadoptable).2 candidate hknows
        exact ⟨rfl, fun template found =>
          ⟨.inr ⟨f, .inr hknown, found⟩, hrepresented.functionTemplateOf?_lt found⟩⟩
      · -- Otherwise the candidate is the origin of the instance in both runs.
        have hkeeps := settled.templates _ member htemplate
        have hyoung : before.size ≤ f.index ∨ before.Adoptable f := by
          rw [not_and_or, not_lt, not_not] at hold
          exact hold
        have hyoungToo : before.size ≤ (rename f).index ∨ before.Adoptable (rename f) := by
          by_cases hlt : f.index < before.size
          · rw [fixes f hlt]
            exact hyoung
          · exact .inl (size_le_renamed fixes (Nat.not_lt.mp hlt))
        rw [originsFirst.functionTemplateOf?_own hrepresented hkeeps htemplate lt hknows hyoung took.isFunction,
          originsSecond.functionTemplateOf?_own hrepresented hkeeps htemplate lt hknowsToo hyoungToo
            tookToo.isFunction]
        refine ⟨rfl, fun template found => ?_⟩
        cases found
        exact ⟨.inl rfl, lt⟩

/-- Ties between the functions of two candidates come out the same in both runs. -/
theorem winsTie_renamed (typedefs : before.TypedefsEnd) (memberC : c ∈ candidates) (memberD : d ∈ candidates)
    (ltC : c.index < before.size) (ltD : d.index < before.size) (tookF : before.Took first c f)
    (tookFToo : before.Took second c (rename f)) (tookG : before.Took first d g)
    (tookGToo : before.Took second d (rename g)) :
    second.winsTie (rename f) (rename g) = first.winsTie f g := by
  obtain ⟨hsameF, hdecidesF⟩ :=
    functionTemplateOf?_renamed calm originsFirst originsSecond settled fixes memberC ltC tookF tookFToo
  obtain ⟨hsameG, hdecidesG⟩ :=
    functionTemplateOf?_renamed calm originsFirst originsSecond settled fixes memberD ltD tookG tookGToo
  rw [winsTie_eq_preferred, winsTie_eq_preferred, hsameF, hsameG]
  cases hf : first.functionTemplateOf? f with
  | none => cases first.functionTemplateOf? g <;> rfl
  | some s =>
      cases hg : first.functionTemplateOf? g with
      | none => rfl
      | some t =>
          obtain ⟨hdecidesS, hltS⟩ := hdecidesF s hf
          obtain ⟨hdecidesT, hltT⟩ := hdecidesG t hg
          rw [preferred, preferred,
            moreSpecializedFunction_renamed calm originsFirst originsSecond settled typedefs memberC memberD hdecidesS
              hdecidesT hltS hltT,
            moreSpecializedFunction_renamed calm originsFirst originsSecond settled typedefs memberD memberC hdecidesT
              hdecidesS hltT hltS]

end Runs

end Table

end NameBinding
