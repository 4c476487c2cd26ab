import NameBinding.Proofs.Table.Changes
import NameBinding.Template.Instantiate

/-!
# Deduced arguments mention symbols of the table

What deduction binds a parameter to is a part of the argument it was matched against, or an entity of
the table.  So in a table whose symbols all exist, arguments that only mention symbols of the table
lead to bindings that do: `deduceType_below`, `deduceCall_below`, `selectSpecialization_below`.  The same
holds of default arguments with parameters replaced (`substituteParameters_below`).
-/

namespace NameBinding

/-! ## Partial computations over lists -/

/-- What one step keeps, a fold keeps that gives a result. -/
theorem foldlM_option_keeps {α β : Type} {step : β → α → Option β} {inv : β → Prop} {list : List α}
    (keeps : ∀ state, ∀ element ∈ list, ∀ next, inv state → step state element = some next → inv next)
    {start last : β} (holds : inv start) (ends : list.foldlM step start = some last) : inv last := by
  induction list generalizing start with
  | nil =>
      cases ends
      exact holds
  | cons first rest ih =>
      rw [List.foldlM_cons] at ends
      obtain ⟨next, hnext, hrest⟩ := Option.bind_eq_some_iff.mp ends
      refine ih (fun state element member => keeps state element (.tail first member)) ?_ hrest
      exact keeps start first (.head rest) next holds hnext

/-- Every value that a traversal collects comes from an element. -/
theorem exists_of_mem_mapM {α β : Type} {step : α → Option β} {list : List α} {values : List β}
    (ends : list.mapM step = some values) {value : β} (member : value ∈ values) :
    ∃ element ∈ list, step element = some value := by
  induction list generalizing values with
  | nil =>
      cases ends
      cases member
  | cons first rest ih =>
      rw [List.mapM_cons] at ends
      obtain ⟨head, hhead, hrest⟩ := Option.bind_eq_some_iff.mp ends
      obtain ⟨tail, htail, hvalues⟩ := Option.bind_eq_some_iff.mp hrest
      cases hvalues
      rcases List.mem_cons.mp member with rfl | later
      · exact ⟨first, .head rest, hhead⟩
      · obtain ⟨element, helement, hstep⟩ := ih htail later
        exact ⟨element, .tail first helement, hstep⟩

/-! ## Bindings -/

namespace Bindings

/-- What the parameters are bound to only mentions symbols below `size`. -/
def Below (size : Nat) (bindings : Bindings) : Prop := ∀ pair ∈ bindings, pair.2.Below size

variable {size : Nat} {bindings known : Bindings} {parameter : SymbolId} {type : Descriptor}

theorem Below.nil (size : Nat) : Below size [] := fun _ member => absurd member List.not_mem_nil

theorem Below.cons (below : bindings.Below size) (bound : type.Below size) :
    Below size ((parameter, type) :: bindings) := by
  intro pair member
  rcases List.mem_cons.mp member with rfl | old
  · exact bound
  · exact below pair old

theorem Below.lookup (below : bindings.Below size) (found : bindings.lookup parameter = some type) :
    type.Below size :=
  below (parameter, type) (mem_of_lookup found)

theorem Below.bindOrMatch (below : bindings.Below size) (bound : type.Below size)
    (ends : bindings.bindOrMatch parameter type = some known) : known.Below size := by
  unfold Bindings.bindOrMatch at ends
  split at ends
  · split at ends
    · cases ends
      exact below
    · cases ends
  · cases ends
    exact below.cons bound

end Bindings

/-! ## The choice between partial specializations -/

/-- A partial specialization matches if arguments can be deduced from its patterns. -/
theorem Table.matchSpecialization?_eq_some_iff {table : Table} {specialization : SymbolId} {args : List Descriptor}
    {entry : SymbolId × List Descriptor} :
    table.matchSpecialization? args specialization = some entry ↔
      entry.1 = specialization ∧ ∃ data patterns, (table.symbol specialization).templateData? = some data ∧
        data.patterns = some patterns ∧
          table.deduceFromPatterns data.parameters patterns args = some entry.2 := by
  simp only [matchSpecialization?]
  constructor
  · intro found
    obtain ⟨data, hdata, found⟩ := Option.bind_eq_some_iff.mp found
    obtain ⟨patterns, hpatterns, found⟩ := Option.bind_eq_some_iff.mp found
    obtain ⟨bound, hbound, found⟩ := Option.bind_eq_some_iff.mp found
    cases found
    exact ⟨rfl, data, patterns, hdata, hpatterns, hbound⟩
  · rintro ⟨rfl, data, patterns, hdata, hpatterns, hbound⟩
    rw [hdata, Option.bind_eq_bind, Option.bind_some, hpatterns, Option.bind_eq_bind, Option.bind_some, hbound]
    rfl

/-- A partial specialization that is chosen is registered, and its patterns matched the arguments. -/
theorem Table.matched_of_selectSpecialization {table : Table} {template specialization : SymbolId}
    {args deduced : List Descriptor}
    (selected : table.selectSpecialization template args = .ok (some (specialization, deduced))) :
    specialization ∈ (table.symbol template).specializations ∧
      ∃ data patterns, (table.symbol specialization).templateData? = some data ∧ data.patterns = some patterns ∧
        table.deduceFromPatterns data.parameters patterns args = some deduced := by
  have hmatched : ∀ entry ∈ (table.symbol template).specializations.filterMap (table.matchSpecialization? args),
      entry.1 ∈ (table.symbol template).specializations ∧
        ∃ data patterns, (table.symbol entry.1).templateData? = some data ∧ data.patterns = some patterns ∧
          table.deduceFromPatterns data.parameters patterns args = some entry.2 := by
    intro entry member
    obtain ⟨candidate, hcandidate, hmatch⟩ := List.mem_filterMap.mp member
    obtain ⟨rfl, hmatch⟩ := matchSpecialization?_eq_some_iff.mp hmatch
    exact ⟨hcandidate, hmatch⟩
  simp only [selectSpecialization] at selected
  split at selected
  · cases selected
  · rename_i only honly
    cases selected
    exact hmatched (specialization, deduced) (by simp [Symbol.specializations, honly])
  · split at selected
    · rename_i winner position hwinners
      cases selected
      -- The winner is one of those that match.
      have hwinner : ((specialization, deduced), position) ∈
          [((specialization, deduced), position)] := List.mem_singleton_self _
      rw [← hwinners] at hwinner
      exact hmatched _ (List.fst_mem_of_mem_zipIdx (List.mem_filter.mp hwinner).1)
    · cases selected

namespace Table.Represented

variable {table : Table} (represented : table.Represented)

/-! ## Deduction -/

theorem bindParameter_below {parameter : SymbolId} {mode : DeductionMode} {bindings known : Bindings}
    {pattern arg : Descriptor} {size : Nat} (below : bindings.Below size) (given : arg.Below size)
    (ends : table.bindParameter parameter mode bindings pattern arg = some known) :
    known.Below size := by
  simp only [bindParameter] at ends
  split at ends
  · cases ends
  · split at ends
    · cases ends
    · split at ends
      · refine below.bindOrMatch ?_ ends
        have hrest : { arg with ops := arg.ops.drop pattern.ops.length }.Below size :=
          given.withOps fun op member => given.ops op (List.mem_of_mem_drop member)
        exact hrest.stripSpecifiers.stripDefault.setTopCv _
      · cases ends

include represented

theorem templateIdParts?_below {type : Descriptor} {template : SymbolId} {args : List Descriptor}
    (below : type.Below table.size) (parts : table.templateIdParts? type = some (template, args)) :
    template.index < table.size ∧ ∀ arg ∈ args, arg.Below table.size := by
  simp only [templateIdParts?] at parts
  obtain ⟨link, hlink, hparts⟩ := Option.bind_eq_some_iff.mp parts
  split at hparts
  · cases hparts
    exact ⟨below.link hlink, below.args⟩
  · obtain ⟨use, huse, hsame⟩ := Option.map_eq_some_iff.mp hparts
    cases hsame
    have hwithin : Within table.size use.mentions := by
      rcases Option.or_eq_some_iff.mp huse with placeholder | ⟨-, origin⟩
      · exact Symbol.placeholder_within (represented.within _) placeholder
      · exact Symbol.origin_within (represented.within _) origin
    simp only [TemplateUse.mentions, Within.cons, Descriptor.within_mentionsAll] at hwithin
    exact hwithin

theorem deduceTemplateId_below {parameters : List SymbolId}
    {deduce : Bindings → Descriptor → Descriptor → Option Bindings} {mode : DeductionMode}
    {bindings known : Bindings} {pattern arg : Descriptor}
    (deduces : ∀ before inner given after, before.Below table.size → given.Below table.size →
      deduce before inner given = some after → after.Below table.size)
    (below : bindings.Below table.size) (given : arg.Below table.size)
    (ends : table.deduceTemplateId parameters deduce mode bindings pattern arg = some known) :
    known.Below table.size := by
  simp only [deduceTemplateId] at ends
  obtain ⟨⟨patternTemplate, patternArgs⟩, -, hends⟩ := Option.bind_eq_some_iff.mp ends
  obtain ⟨⟨argTemplate, argArgs⟩, hparts, hends⟩ := Option.bind_eq_some_iff.mp hends
  obtain ⟨-, -, hends⟩ := Option.bind_eq_some_iff.mp hends
  obtain ⟨htemplate, hargs⟩ := represented.templateIdParts?_below given hparts
  -- Whatever the template itself is bound to, the arguments are matched one by one.
  have hrest : ∀ bound : Bindings, bound.Below table.size →
      (do
        guard (patternArgs.length == argArgs.length)
        (patternArgs.zip argArgs).foldlM (fun known pair => deduce known pair.1 pair.2) bound) =
        some known → known.Below table.size := by
    intro bound hbound hends
    obtain ⟨-, -, hfold⟩ := Option.bind_eq_some_iff.mp hends
    refine foldlM_option_keeps (fun state pair member next hstate hnext => ?_) hbound hfold
    exact deduces state pair.1 pair.2 next hstate (hargs _ (List.of_mem_zip member).2) hnext
  dsimp only at hends
  split at hends
  · obtain ⟨bound, hbound, hends⟩ := Option.bind_eq_some_iff.mp hends
    have hentity := Descriptor.Below.ofSymbol (represented.canonical_lt htemplate)
    exact hrest bound (below.bindOrMatch hentity hbound) hends
  · split at hends
    · exact hrest bindings below hends
    · cases hends

theorem deduceType_below (parameters : List SymbolId) (depth : Nat) :
    ∀ (mode : DeductionMode) (bindings known : Bindings) (pattern arg : Descriptor),
      bindings.Below table.size → arg.Below table.size →
      table.deduceType parameters depth mode bindings pattern arg = some known →
      known.Below table.size := by
  induction depth with
  | zero =>
      intro mode bindings known pattern arg below given ends
      cases ends
  | succ depth ih =>
      intro mode bindings known pattern arg below given ends
      have hflat := represented.flattenType_below given
      have hmatched : ∀ matched : Bool,
          (if matched then some bindings else none) = some known → known.Below table.size := by
        intro matched hends
        split at hends
        · cases hends
          exact below
        · cases hends
      simp only [deduceType] at ends
      split at ends
      · exact hmatched _ ends
      · split at ends
        · exact bindParameter_below below hflat ends
        · split at ends
          · exact represented.deduceTemplateId_below
              (fun before inner given after hbefore hgiven =>
                ih .exact before after inner given hbefore hgiven) below hflat ends
          · exact hmatched _ ends

theorem deduceFromPatterns_below {parameters : List SymbolId} {patterns args deduced : List Descriptor}
    (given : ∀ arg ∈ args, arg.Below table.size)
    (ends : table.deduceFromPatterns parameters patterns args = some deduced) :
    ∀ arg ∈ deduced, arg.Below table.size := by
  simp only [deduceFromPatterns] at ends
  obtain ⟨-, -, hends⟩ := Option.bind_eq_some_iff.mp ends
  obtain ⟨bindings, hbindings, hlookup⟩ := Option.bind_eq_some_iff.mp hends
  have hbelow : Bindings.Below table.size bindings := by
    refine foldlM_option_keeps (fun known pair member next hknown hnext => ?_) (.nil _) hbindings
    exact represented.deduceType_below parameters _ _ known next pair.1 pair.2 hknown
      (given _ (List.of_mem_zip member).2) hnext
  intro arg member
  obtain ⟨parameter, -, hfound⟩ := exists_of_mem_mapM hlookup member
  exact hbelow.lookup hfound

theorem deduceCallParameter_below {parameters : List SymbolId} {bindings known : Bindings}
    {declared given : Descriptor} (below : bindings.Below table.size)
    (arg : given.Below table.size)
    (ends : table.deduceCallParameter parameters bindings declared given = some known) :
    known.Below table.size := by
  have hflat := (represented.flattenType_below arg).stripReference
  simp only [deduceCallParameter] at ends
  split at ends
  · cases ends
    exact below
  · split at ends
    · exact represented.deduceType_below _ _ _ _ _ _ _ below hflat ends
    · exact represented.deduceType_below _ _ _ _ _ _ _ below hflat.decay.stripTopCv ends

theorem deduceCall_below {template : SymbolId} {args deduced : List Descriptor}
    (given : ∀ arg ∈ args, arg.Below table.size)
    (ends : table.deduceCall template args = some deduced) :
    ∀ arg ∈ deduced, arg.Below table.size := by
  simp only [deduceCall] at ends
  obtain ⟨function, -, hends⟩ := Option.bind_eq_some_iff.mp ends
  obtain ⟨-, -, hends⟩ := Option.bind_eq_some_iff.mp hends
  obtain ⟨bindings, hbindings, hends⟩ := Option.bind_eq_some_iff.mp hends
  obtain ⟨-, -, hdeduced⟩ := Option.bind_eq_some_iff.mp hends
  have hbelow : Bindings.Below table.size bindings := by
    refine foldlM_option_keeps (fun known pair member next hknown hnext => ?_) (.nil _) hbindings
    exact represented.deduceCallParameter_below hknown (given _ (List.of_mem_zip member).2) hnext
  cases hdeduced
  intro arg member
  obtain ⟨parameter, -, hfound⟩ := List.mem_filterMap.mp member
  exact hbelow.lookup hfound

/-! ## Partial specializations and instances -/

theorem selectSpecialization_below {template specialization : SymbolId}
    {args deduced : List Descriptor} (given : ∀ arg ∈ args, arg.Below table.size)
    (ends : table.selectSpecialization template args = .ok (some (specialization, deduced))) :
    ∀ arg ∈ deduced, arg.Below table.size := by
  obtain ⟨-, data, patterns, -, -, hdeduced⟩ := matched_of_selectSpecialization ends
  exact represented.deduceFromPatterns_below given hdeduced

theorem substituteParameters_below {bindings : Bindings} (below : bindings.Below table.size)
    (depth : Nat) :
    ∀ type : Descriptor, type.Below table.size →
      (table.substituteParameters bindings depth type).Below table.size := by
  induction depth with
  | zero => exact fun type htype => htype
  | succ depth ih =>
      intro type htype
      simp only [substituteParameters]
      split
      · exact htype
      · rename_i link hlink
        split
        · rename_i replacement hbound hargs
          exact htype.substituteBase (below.lookup hbound)
        · -- A placeholder reads as the template-id that it stands for.
          have huse : Within table.size
              ((table.symbol link).placeholder?.getD ⟨link, type.templateArgs⟩).mentions := by
            cases hplaceholder : (table.symbol link).placeholder? with
            | none =>
                simp only [Option.getD_none, TemplateUse.mentions, Within.cons,
                  Descriptor.within_mentionsAll]
                exact ⟨htype.link hlink, htype.args⟩
            | some use => exact Symbol.placeholder_within (represented.within link) hplaceholder
          simp only [TemplateUse.mentions, Within.cons, Descriptor.within_mentionsAll] at huse
          refine Descriptor.Below.withArgs (Descriptor.Below.withLink htype ?_) fun arg member => ?_
          · cases hhead : (bindings.lookup _).bind (·.link) with
            | none => exact huse.1
            | some head =>
                obtain ⟨bound, hbound, hlinked⟩ := Option.bind_eq_some_iff.mp hhead
                exact (below.lookup hbound).link hlinked
          · obtain ⟨inner, hinner, rfl⟩ := List.mem_map.mp member
            exact ih inner (huse.2 inner hinner)

theorem existingInstance?_lt {template made : SymbolId} {args : List Descriptor}
    (known : table.existingInstance? template args = some made) : made.index < table.size := by
  simp only [existingInstance?] at known
  obtain ⟨data, hdata, hfound⟩ := Option.bind_eq_some_iff.mp known
  obtain ⟨entry, hentry, rfl⟩ := Option.map_eq_some_iff.mp hfound
  have hwithin := represented.templateData_within hdata
  simp only [TemplateData.mentions, Within.append, Within.flatMap] at hwithin
  have hentries : Within table.size entry.mentions := by
    rcases Option.or_eq_some_iff.mp hentry with explicit | ⟨-, cached⟩
    · exact hwithin.1.1.1.2 entry (List.mem_of_find?_eq_some explicit)
    · exact hwithin.1.1.2 entry (List.mem_of_find?_eq_some cached)
  exact hentries entry.symbol (by simp [Instance.mentions])

end Table.Represented

/-- Without partial specializations none is chosen, and the choice is never ambiguous. -/
theorem Table.Unspecialized.selectSpecialization_eq {table : Table}
    (unspecialized : table.Unspecialized) (template : SymbolId) (args : List Descriptor) :
    table.selectSpecialization template args = .ok none := by
  have hnone := unspecialized template
  simp only [Symbol.specializations] at hnone
  simp only [Table.selectSpecialization, hnone, List.filterMap_nil]

end NameBinding
