import NameBinding.Proofs.Analysis.Moves
import NameBinding.Proofs.Template.DeducedArguments

/-!
# Making an instance moves the table

Finding the instance of a template resolves template-ids, completes arguments, and remembers what was
made.  The lemmas here say that these steps only do what a regime allows that admits caches, and that
what they give exists in the table they lead to.  Whatever makes the deeper instances and the copies is
a parameter; `moves_instantiateStep` puts one level together.
-/

namespace NameBinding.Analysis

/-- Making an instance for arguments that exist moves the table, and the instance exists. -/
def MakesInstances (regime : Regime) (inst : Instantiator) : Prop :=
  ∀ template args table, regime.Sound table → (∀ arg ∈ args, arg.Below table.size) →
    MovesAt regime (inst template args) (fun after made => made.index < after.size) table

/-- The same, where the arguments have neither an explicit specialization nor an instance yet. -/
def MakesCopies (regime : Regime) (copy : Instantiator) : Prop :=
  ∀ template args table, regime.Sound table → (∀ arg ∈ args, arg.Below table.size) →
    table.existingInstance? template args = none →
    MovesAt regime (copy template args) (fun after made => made.index < after.size) table

/-- Resolving a type that exists moves the table, and the resolved type exists. -/
def ResolvesTypes (regime : Regime) (resolve : Descriptor → Analysis Descriptor) : Prop :=
  ∀ type table, regime.Sound table → type.Below table.size →
    MovesAt regime (resolve type) (fun after resolved => resolved.Below after.size) table

variable {regime : Regime} {table : Table}

theorem MakesInstances.mono {inner : Regime} {inst : Instantiator} (allows : regime.Allows inner)
    (sound : ∀ table, regime.Sound table → inner.Sound table) (makes : MakesInstances inner inst) :
    MakesInstances regime inst :=
  fun template args table hsound below => (makes template args table (sound table hsound) below).mono
    allows

/-- Types that exist go on existing. -/
theorem below_mono (size bound : Nat) (type : Descriptor) (le : size ≤ bound)
    (below : type.Below size) : type.Below bound :=
  below.mono le

theorem moves_resolveTemplateIds {inst : Instantiator} (makes : MakesInstances regime inst)
    (depth : Nat) : ResolvesTypes regime (resolveTemplateIds inst depth) := by
  induction depth with
  | zero => exact fun type table sound below => .violated _
  | succ depth ih =>
      intro type table sound below
      have hflat := sound.represented.flattenType_below below
      unfold resolveTemplateIds
      refine .read ?_
      dsimp only
      split
      · exact .pure hflat
      · have hargs := MovesAt.mapM below_mono sound fun arg member after hsound le =>
          ih arg after hsound ((hflat.args arg member).mono le)
        refine hargs.bind sound fun args after hmoved hsound hbelow => ?_
        have hkept := hflat.mono hmoved.size_le
        refine .read ?_
        split
        · exact .pure (hkept.withArgs hbelow)
        · rename_i link hlink
          split
          · refine (makes link args after hsound hbelow).bind hsound fun made last hlater _ hmade => ?_
            have hlinked := (hkept.mono hlater.size_le).withLink hmade
            exact .pure (hlinked.withArgs (by simp))
          · exact .pure (hkept.withArgs hbelow)

/-! ## Arguments -/

section Arguments

variable {resolve : Descriptor → Analysis Descriptor}

theorem moves_completeFrom (resolves : ResolvesTypes regime resolve) (name : Name)
    (parameters : List SymbolId) :
    ∀ position args bindings table, regime.Sound table → (∀ arg ∈ args, arg.Below table.size) →
      bindings.Below table.size →
      MovesAt regime (completeFrom resolve name position parameters args bindings)
        (fun after completed => ∀ arg ∈ completed, arg.Below after.size) table := by
  induction parameters with
  | nil =>
      intro position args bindings table sound given below
      exact .pure fun arg member => absurd member List.not_mem_nil
  | cons parameter parameters ih =>
      intro position args bindings table sound given below
      -- However the argument is found, the rest of the list is completed in the same way.
      have hrest : ∀ (arg : Descriptor) (after : Table), table.size ≤ after.size →
          regime.Sound after → arg.Below after.size →
          MovesAt regime
            (do
              let completed ← completeFrom resolve name (position + 1) parameters args.tail
                ((parameter, arg.stripDefault) :: bindings)
              pure (arg.stripDefault :: completed))
            (fun after completed => ∀ arg ∈ completed, arg.Below after.size) after := by
        intro arg after le hsound harg
        have htail := ih (position + 1) args.tail ((parameter, arg.stripDefault) :: bindings) after
          hsound (fun other member => (given other (List.mem_of_mem_tail member)).mono le)
          (Bindings.Below.cons (fun pair member => (below pair member).mono le) harg.stripDefault)
        refine htail.bind hsound fun completed last hlater _ hcompleted => .pure ?_
        intro other member
        rcases List.mem_cons.mp member with rfl | later
        · exact harg.stripDefault.mono hlater.size_le
        · exact hcompleted other later
      unfold completeFrom
      refine .read ?_
      dsimp only
      split
      · rename_i value arg hgiven
        exact hrest arg table (Nat.le_refl _) sound (given arg (List.mem_of_mem_head? hgiven))
      · rename_i value hgiven hdefault
        have hvalue := (sound.represented.type_below parameter).default hdefault
        have hsubstituted := sound.represented.substituteParameters_below below
          table.config.nestingLimit value hvalue
        refine (resolves _ table sound hsubstituted).bind sound ?_
        exact fun arg after hmoved hsound harg => hrest arg after hmoved.size_le hsound harg
      · have hfails : MovesAt regime (Analysis.fail (.badTemplateArgument name position))
            (fun _ (_ : Descriptor) => False) table := .fail (by simp)
        exact hfails.bind sound fun arg after _ _ impossible => impossible.elim

theorem moves_completeArguments (resolves : ResolvesTypes regime resolve) (template : SymbolId)
    {args : List Descriptor} (sound : regime.Sound table)
    (given : ∀ arg ∈ args, arg.Below table.size) :
    MovesAt regime (completeArguments resolve template args)
      (fun after completed => ∀ arg ∈ completed, arg.Below after.size) table := by
  refine .read ?_
  dsimp only
  split
  · exact .fail (by simp)
  · exact moves_completeFrom resolves _ _ _ _ _ table sound given (.nil _)

end Arguments

/-! ## Instances -/

/-- The regime admits everything that is remembered about instances. -/
def AllowsCaches (regime : Regime) : Prop :=
  ∀ table id edit, edit.IsCache → regime.allows table id edit

theorem allowsCaches_copying (base floor : Nat) : AllowsCaches (.copying base floor) :=
  fun _ _ _ cache => .inl cache

theorem moves_deferredInstance (caches : AllowsCaches regime) {template : SymbolId}
    {args : List Descriptor} (sound : regime.Sound table) (exists_template : template.index < table.size)
    (given : ∀ arg ∈ args, arg.Below table.size) :
    MovesAt regime (deferredInstance template args) (fun after made => made.index < after.size)
      table := by
  have hargs : Within table.size (Descriptor.mentionsAll args) :=
    Descriptor.within_mentionsAll.mpr given
  refine .read ?_
  dsimp only
  split
  · rename_i entry hentry
    -- A placeholder that the template remembers.
    refine .pure ?_
    have hmember := List.mem_of_find?_eq_some hentry
    cases hdata : (table.symbol template).templateData? with
    | none => simp [hdata] at hmember
    | some data =>
        simp only [hdata, Option.map_some, Option.getD_some] at hmember
        have hwithin := sound.represented.templateData_within hdata
        simp only [TemplateData.mentions, Within.append, Within.flatMap] at hwithin
        exact hwithin.1.2 entry hmember entry.symbol (by simp [Instance.mentions])
  · rename_i hnew
    have hscope : Within table.size (table.symbol template).scope.toList :=
      Within.toList.mpr fun id declared =>
        Symbol.scope_lt (sound.represented.within template) declared
    have htype : Within table.size (Descriptor.templateId template args).mentions :=
      Descriptor.Below.templateId exists_template given
    have hcreate : MovesAt regime _ _ table :=
      moves_create
        { name := (table.symbol template).name
          scope := (table.symbol template).scope
          type := .templateId template args
          inTemplate := true
          payload := .placeholder { template, args } }
        (by simp [Symbol.mentions, Payload.mentions, TemplateUse.mentions, hscope, htype, hargs,
              exists_template])
        (Symbol.Indexed.of_blank (by trivial) _)
        (fun _ => ⟨rfl, rfl, Symbol.specializations_of_blank (by trivial)⟩)
        (.inl (Symbol.unlisted_of_blank (by trivial)))
    refine hcreate.bind sound fun made after hmoved hsound hmade => ?_
    obtain ⟨rfl, rfl⟩ := hmade
    have hentry : Within (table.size + 1)
        (Edit.append (.placeholder { args, symbol := ⟨table.size⟩ })).mentions := by
      simp only [Edit.mentions, Entry.mentions, Instance.mentions, Within.cons]
      exact ⟨Nat.lt_succ_self _, hargs.mono (Nat.le_succ _)⟩
    rw [← Table.size_allocate] at hentry
    -- The placeholder is the newest symbol, so the template remembers what it did before.
    have hnews : ∀ symbol, Lacks ((table.allocate symbol).2.symbol template).placeholders args := by
      intro symbol
      rw [Table.symbol_of_push rfl, if_neg (by omega)]
      simpa [Lacks, Symbol.placeholders] using hnew
    refine (moves_edit (caches _ template _ (by trivial)) hentry (by simp) (hnews _)).bind hsound ?_
    rintro - last - - rfl
    refine .pure ?_
    rw [Table.size_perform, Table.size_allocate]
    exact Nat.lt_succ_self _

theorem moves_recordInstance (caches : AllowsCaches regime) (template : SymbolId)
    {args : List Descriptor} {made : SymbolId} (given : ∀ arg ∈ args, arg.Below table.size)
    (lt : made.index < table.size)
    (news : (table.symbol template).specializations = [] →
      Lacks (table.symbol template).instances args) :
    MovesAt regime (recordInstance template args made)
      (fun after _ =>
        after = table.perform template (.append (.cached { args, symbol := made }))) table := by
  have hentry : Within table.size
      (Edit.append (.cached { args, symbol := made })).mentions := by
    simp only [Edit.mentions, Entry.mentions, Instance.mentions, Within.cons]
    exact ⟨lt, Descriptor.within_mentionsAll.mpr given⟩
  exact moves_edit (caches _ template _ (by trivial)) hentry (by simp) news

/-- What has no instance yet is not remembered. -/
theorem lacks_of_existingInstance? {template : SymbolId} {args : List Descriptor}
    (absent : table.existingInstance? template args = none) :
    Lacks (table.symbol template).instances args := by
  unfold Symbol.instances
  cases hdata : (table.symbol template).templateData? with
  | none => simp [Lacks]
  | some data =>
      simp only [Table.existingInstance?, hdata, Option.bind_some, Option.map_eq_none_iff,
        Option.or_eq_none_iff] at absent
      simpa [Lacks] using absent.2

/-- Only registered partial specializations are selected. -/
theorem specialized_of_selectSpecialization {template : SymbolId} {args : List Descriptor}
    {chosen : SymbolId × List Descriptor}
    (selects : table.selectSpecialization template args = .ok (some chosen)) :
    (table.symbol template).specializations ≠ [] :=
  List.ne_nil_of_mem (Table.matched_of_selectSpecialization selects).1

theorem moves_concreteInstance (caches : AllowsCaches regime) {inst copy : Instantiator}
    (makes : MakesInstances regime inst) (copies : MakesCopies regime copy) {template : SymbolId}
    {args : List Descriptor} (sound : regime.Sound table) (exists_template : template.index < table.size)
    (given : ∀ arg ∈ args, arg.Below table.size) :
    MovesAt regime (concreteInstance inst copy template args)
      (fun after made => made.index < after.size) table := by
  refine .read ?_
  split
  · rename_i known hknown
    exact .pure (sound.represented.existingInstance?_lt hknown)
  · rename_i habsent
    have hselected : MovesAt regime
        (ofExcept (table.selectSpecialization template args))
        (fun after selected => after = table ∧ ∀ chosen, selected = some chosen →
          (table.symbol template).specializations ≠ [] ∧
            ∀ arg ∈ chosen.2, arg.Below table.size) table := by
      refine .ofExcept ?_ ?_
      · refine fun selected hselect => ⟨rfl, ?_⟩
        rintro ⟨specialization, deduced⟩ rfl
        exact ⟨specialized_of_selectSpecialization hselect,
          sound.represented.selectSpecialization_below given hselect⟩
      · intro error hselect _ unspecialized
        rw [unspecialized.selectSpecialization_eq] at hselect
        cases hselect
    refine hselected.bind sound ?_
    rintro selected after - - ⟨rfl, hchosen⟩
    cases selected with
    | none => exact copies template args after sound given habsent
    | some chosen =>
        obtain ⟨hspecialized, hdeduced⟩ := hchosen chosen rfl
        refine (makes chosen.1 chosen.2 after sound hdeduced).bind sound ?_
        intro made middle hmade hmiddle lt
        have hargs : ∀ arg ∈ args, arg.Below middle.size :=
          fun arg member => (given arg member).mono hmade.size_le
        -- The arguments may have got an instance in between.
        refine (moves_recordInstance caches template hargs lt fun hplain =>
          absurd hplain (hmade.changes.specialized hspecialized)).bind hmiddle ?_
        rintro - recorded hrecorded hsoundRecorded rfl
        have hle := hmade.size_le
        have horigin : Within middle.size
            (Edit.assign (.origin (some { template, args }))).mentions := by
          simp only [Edit.mentions, Assignment.mentions, Option.map_some, Option.getD_some,
            TemplateUse.mentions, Within.cons]
          exact ⟨by omega, Descriptor.within_mentionsAll.mpr hargs⟩
        rw [← Table.size_perform middle template] at horigin
        refine (moves_edit (caches _ made _ (by trivial)) horigin (by simp) (by trivial)).bind
          hsoundRecorded ?_
        rintro - last hlast - -
        refine .pure ?_
        have hlater := hlast.size_le
        rw [Table.size_perform] at hlater
        omega

/-- One level of instantiation does what the deeper levels and the copies do, and caches. -/
theorem moves_instantiateStep (caches : AllowsCaches regime) {inst copy : Instantiator}
    (makes : MakesInstances regime inst) (copies : MakesCopies regime copy) (depth : Nat) :
    MakesInstances regime (instantiateStep inst copy depth) := by
  intro template args table sound given
  have hresolves := moves_resolveTemplateIds makes depth
  refine .read ?_
  dsimp only
  split
  · exact .fail (by simp)
  · rename_i hvalid
    have htemplate : (table.symbol (table.canonical template)).isTemplate = true := by
      simp only [Bool.or_eq_true, not_or, Bool.not_eq_true', Bool.not_eq_false] at hvalid
      exact hvalid.1
    have hentity := Table.lt_size_of_symbol (·.isTemplate) rfl htemplate
    have hresolved := MovesAt.mapM below_mono sound fun arg member after hsound le =>
      hresolves arg after hsound ((given arg member).mono le)
    refine hresolved.bind sound fun resolved middle hmoved hsound hbelow => ?_
    refine (moves_completeArguments hresolves _ hsound hbelow).bind hsound ?_
    intro completed after hlater hafter hcompleted
    have hexists : (table.canonical template).index < after.size := by
      have := hmoved.size_le
      have := hlater.size_le
      omega
    refine .read ?_
    split
    · exact moves_deferredInstance caches hafter hexists hcompleted
    · split
      · exact .fail (by simp)
      · exact moves_concreteInstance caches makes copies hafter hexists hcompleted

end NameBinding.Analysis
