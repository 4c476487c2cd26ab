import NameBinding.Proofs.Template.InstanceMoves

/-!
# Substituting a type moves the table

A type of a templated declaration is read in a copy: parameters are replaced by their arguments,
declarations by their copies, and template-ids by instances.  The lemmas say that this only does what a
regime allows, and that the type that comes out exists; so does putting it into its place, or queueing
it.
-/

namespace NameBinding

namespace CopyContext.Below

variable {size : Nat} {context : CopyContext} (below : context.Below size)

include below

theorem copyOf_lt {id : SymbolId} (lt : id.index < size) : (context.copyOf id).index < size := by
  rw [copyOf]
  cases hcopy : context.copies.lookup id with
  | none => exact lt
  | some copy => exact below.copies _ (mem_of_lookup hcopy)

/-- A type as it reads in the copy, with its base not yet replaced. -/
theorem read {type : Descriptor} {args : List Descriptor} {value : Option Descriptor}
    (exists_type : type.Below size) (given : ∀ arg ∈ args, arg.Below size)
    (default : ∀ type, value = some type → type.Below size) :
    Descriptor.Below size
      { type with
        templateArgs := args
        defaultValue := value
        ops := type.ops.map fun op => { op with memberOf := op.memberOf.map context.copyOf } } := by
  refine ((exists_type.withArgs given).withDefault default).withOps fun op member id same => ?_
  obtain ⟨inner, hinner, rfl⟩ := List.mem_map.mp member
  obtain ⟨owner, howner, rfl⟩ := Option.map_eq_some_iff.mp same
  exact below.copyOf_lt (exists_type.ops inner hinner owner howner)

end CopyContext.Below

namespace Table

/-- A finished type stands in its place; the base of a class may have stood there before. -/
def FinishedAt (table : Table) (target : SymbolId) (part : DeferredPart) (type : Descriptor)
    (after : Table) : Prop :=
  match part with
  | .type => after = table.perform target (.assign (.type type))
  | .returnType => after = table.perform target (.assign (.returnType (some type)))
  | .parent position =>
      after = table ∨ ∃ parent, after = table.perform target (.assign (.parent position parent))

/-- However a type is finished, it is an edit that copying may make of any copy. -/
theorem FinishedAt.cases {table after : Table} {target : SymbolId} {part : DeferredPart}
    {type : Descriptor} (finished : table.FinishedAt target part type after) :
    after = table ∨ ∃ edit : Edit, edit.IsSurface ∧ after = table.perform target edit := by
  cases part with
  | type => exact .inr ⟨.assign (.type type), by trivial, finished⟩
  | returnType => exact .inr ⟨.assign (.returnType (some type)), by trivial, finished⟩
  | parent position =>
      rcases finished with same | ⟨parent, finished⟩
      · exact .inl same
      · exact .inr ⟨.assign (.parent position parent), by trivial, finished⟩

/-- The table with one more piece of work waiting. -/
def enqueue (table : Table) (work : DeferredWork) : Table :=
  { table with templates := { table.templates with queue := table.templates.queue ++ [work] } }

/-- Finished work stands in its place, and other work waits. -/
def CarriesOut (table : Table) (work : DeferredWork) (substituted : Option Descriptor) (after : Table) :
    Prop :=
  match substituted with
  | none => after = table.enqueue work
  | some type => table.FinishedAt work.target work.part type after

end Table

namespace Analysis

variable {regime : Regime} {table : Table}

/-- If there is a type, it only mentions symbols below `size`. -/
def ReadyBelow (size : Nat) (ready : Option Descriptor) : Prop :=
  ∀ type, ready = some type → type.Below size

/-- Reading a type that exists in a copy moves the table, and the type that comes out exists. -/
def SubstitutesTypes (regime : Regime) (substitute : Substituter) : Prop :=
  ∀ position type table, regime.Sound table → type.Below table.size →
    MovesAt regime (substitute position type) (fun after ready => ReadyBelow after.size ready) table

theorem moves_mapReady {step : Descriptor → Analysis (Option Descriptor)} (list : List Descriptor) :
    ∀ table, regime.Sound table → (∀ type ∈ list, type.Below table.size) →
      (∀ type after, regime.Sound after → type.Below after.size →
        MovesAt regime (step type) (fun last ready => ReadyBelow last.size ready) after) →
      MovesAt regime (mapReady step list)
        (fun after ready => ∀ types, ready = some types → ∀ type ∈ types, type.Below after.size)
        table := by
  induction list with
  | nil =>
      intro table sound below moves
      refine .pure fun types same type member => ?_
      cases same
      cases member
  | cons first rest ih =>
      intro table sound below moves
      refine (moves first table sound (below first (.head rest))).bind sound ?_
      intro ready middle hmoved hsound hready
      cases ready with
      | none => exact .pure fun types same => by cases same
      | some type =>
          have hrest := ih middle hsound
            (fun other member => (below other (.tail first member)).mono hmoved.size_le) moves
          refine hrest.bind hsound fun others after hlater _ hothers => ?_
          cases others with
          | none => exact .pure fun types same => by cases same
          | some types =>
              refine .pure fun all same other member => ?_
              cases same
              rcases List.mem_cons.mp member with rfl | later
              · exact (hready _ rfl).mono hlater.size_le
              · exact hothers types rfl other later

/-! ## Instances in a copy -/

theorem moves_resolveInstance {inst : Instantiator} {resolve : Descriptor → Analysis Descriptor}
    (makes : MakesInstances regime inst) (resolves : ResolvesTypes regime resolve) (eager : Bool)
    (template : SymbolId) {args : List Descriptor} (sound : regime.Sound table)
    (given : ∀ arg ∈ args, arg.Below table.size) :
    MovesAt regime (resolveInstance inst resolve eager template args)
      (fun after made => ∀ id, made = some id → id.index < after.size) table := by
  refine .read ?_
  split
  · refine (makes template args table sound given).bind sound fun made after _ _ hmade => ?_
    refine .pure fun id same => ?_
    cases same
    exact hmade
  · have hflat : ∀ arg ∈ args.map table.flattenType, arg.Below table.size := by
      intro arg member
      obtain ⟨inner, hinner, rfl⟩ := List.mem_map.mp member
      exact sound.represented.flattenType_below (given inner hinner)
    have hcompleted := moves_completeArguments resolves (table.canonical template) sound hflat
    refine hcompleted.caught sound (fun completed after _ hsound _ => ?_) fun error after _ _ => ?_
    · refine .read (.pure fun id known => ?_)
      exact hsound.represented.existingInstance?_lt known
    · exact .inr (.pure fun id same => by cases same)

theorem moves_relink {instanceOf : SymbolId → List Descriptor → Analysis (Option SymbolId)}
    (resolves : ∀ template args table, regime.Sound table → (∀ arg ∈ args, arg.Below table.size) →
      MovesAt regime (instanceOf template args)
        (fun after made => ∀ id, made = some id → id.index < after.size) table)
    {type : Descriptor} (template : SymbolId) {args : List Descriptor} (sound : regime.Sound table)
    (below : type.Below table.size) (given : ∀ arg ∈ args, arg.Below table.size) :
    MovesAt regime (relink instanceOf type template args)
      (fun after ready => ReadyBelow after.size ready) table := by
  refine (resolves template args table sound given).bind sound fun made after hmoved _ hmade => ?_
  refine .pure fun linked same => ?_
  obtain ⟨id, hid, rfl⟩ := Option.map_eq_some_iff.mp same
  exact (below.mono hmoved.size_le).withLink (hmade id hid)

theorem moves_substitute {instanceOf : SymbolId → List Descriptor → Analysis (Option SymbolId)}
    (resolves : ∀ template args table, regime.Sound table → (∀ arg ∈ args, arg.Below table.size) →
      MovesAt regime (instanceOf template args)
        (fun after made => ∀ id, made = some id → id.index < after.size) table)
    (position depth : Nat) :
    ∀ type table, regime.Sound table → type.Below table.size →
      MovesAt regime (substitute instanceOf position depth type)
        (fun after ready => ReadyBelow after.size ready) table := by
  induction depth with
  | zero => exact fun type table sound below => .violated _
  | succ depth ih =>
      intro type table sound below
      unfold substitute
      have hargs := moves_mapReady type.templateArgs table sound below.args ih
      refine hargs.bind sound fun args middle hmoved hmiddle hargsBelow => ?_
      cases args with
      | none => exact .pure fun other same => by cases same
      | some args =>
          have hvalue : ∀ value ∈ type.defaultValue.toList, value.Below middle.size := by
            intro value member
            exact (below.default (Option.mem_toList.mp member)).mono hmoved.size_le
          refine (moves_mapReady type.defaultValue.toList middle hmiddle hvalue ih).bind hmiddle ?_
          intro defaults after hlater hafter hdefaults
          cases defaults with
          | none => exact .pure fun other same => by cases same
          | some defaults =>
              have hcontext := hafter.work.copyContext position
              have htype := (below.mono hmoved.size_le).mono hlater.size_le
              have hgiven : ∀ arg ∈ args, arg.Below after.size := fun arg member =>
                (hargsBelow args rfl arg member).mono hlater.size_le
              have hread := hcontext.read htype hgiven fun value head =>
                hdefaults defaults rfl value (List.mem_of_mem_head? head)
              refine .read ?_
              have hready : ∀ result : Descriptor, result.Below after.size →
                  MovesAt regime (pure (some result))
                    (fun last ready => ReadyBelow last.size ready) after := by
                intro result hresult
                refine .pure fun other same => ?_
                cases same
                exact hresult
              dsimp only
              split
              · exact hready _ hread
              · rename_i link hlink
                have hlt := htype.link hlink
                split
                · rename_i replacement hbound
                  have hreplacement := hcontext.bindings _ (mem_of_lookup hbound)
                  split
                  · exact hready _ (hread.substituteBase hreplacement)
                  · split
                    · exact .fail (by simp)
                    · exact moves_relink resolves _ hafter (hread.withArgs (by simp)) hgiven
                · split
                  · rename_i copy hcopy
                    exact hready _ (hread.withLink (hcontext.copies _ (mem_of_lookup hcopy)))
                  · split
                    · rename_i use huse
                      have hwithin := Symbol.placeholder_within
                        (hafter.represented.within link) huse
                      simp only [TemplateUse.mentions, Within.cons,
                        Descriptor.within_mentionsAll] at hwithin
                      refine (moves_mapReady use.args after hafter hwithin.2 ih).bind hafter ?_
                      intro useArgs last hmore hlast huseArgs
                      cases useArgs with
                      | none => exact .pure fun other same => by cases same
                      | some useArgs =>
                          exact moves_relink resolves _ hlast (hread.mono hmore.size_le)
                            (huseArgs useArgs rfl)
                    · split
                      · exact .pure fun other same => by cases same
                      · split
                        · exact moves_relink resolves _ hafter (hread.withArgs (by simp)) hgiven
                        · exact hready _ hread

theorem moves_substituter {inst : Instantiator} (makes : MakesInstances regime inst) (depth : Nat)
    (eager : Bool) : SubstitutesTypes regime (substituter inst depth eager) := by
  intro position type table sound below
  refine moves_substitute (fun template args after hsound given => ?_) position depth type table sound
    below
  exact moves_resolveInstance makes (moves_resolveTemplateIds makes depth) eager template hsound given

/-! ## Finishing a substitution -/

theorem moves_applySubstitution {target : SymbolId}
    (surface : ∀ edit : Edit, edit.IsSurface → regime.allows table target edit)
    (part : DeferredPart) {type : Descriptor} (sound : regime.Sound table)
    (below : type.Below table.size) :
    MovesAt regime (applySubstitution target part type)
      (fun after _ => table.FinishedAt target part type after) table := by
  refine .read ?_
  cases part with
  | type =>
      have hassigned : Within table.size (Edit.assign (.type type)).mentions := below
      exact moves_edit (surface _ (by trivial)) hassigned (by simp) (by trivial)
  | returnType =>
      have hassigned : Within table.size (Edit.assign (.returnType (some type))).mentions := below
      refine .read ?_
      split
      · exact .fail (by simp)
      · split
        · exact moves_edit (surface _ (by trivial)) hassigned (by simp) (by trivial)
        · exact .unsupported _
  | parent position =>
      dsimp only
      split
      · exact .fail (by simp)
      · rename_i link hlink
        have hparent := sound.represented.classOf_lt (below.link hlink)
        have hassigned : Within table.size
            (Edit.assign (.parent position (table.classOf link))).mentions := by
          simpa [Edit.mentions, Assignment.mentions] using hparent
        split
        · exact .pure (.inl rfl)
        · refine .read ?_
          split
          · exact (moves_edit (surface _ (by trivial)) hassigned (by simp) (by trivial)).weaken
              fun _ _ _ same => .inr ⟨_, same⟩
          · exact .violated _

theorem moves_enqueue {work : DeferredWork} (sound : regime.Sound table)
    (running : table.templates.depth ≠ 0) (below : work.Below table.size)
    (fresh : regime.base ≤ work.target.index) :
    MovesAt regime (enqueue work) (fun after _ => after = table.enqueue work) table := by
  refine .of_ok rfl (moves_templates ⟨sound.work.contexts, ?_⟩ (fun _ _ => rfl)
    (fun other queued _ => List.mem_append_left _ queued) ?_ rfl running) rfl
  · intro other member
    rcases List.mem_append.mp member with old | new
    · exact sound.work.queue other old
    · rw [List.mem_singleton.mp new]
      exact below
  · intro other member
    rcases List.mem_append.mp member with old | new
    · exact .inl old
    · rw [List.mem_singleton.mp new]
      exact .inr fresh

theorem moves_finishOrEnqueue {work : DeferredWork} {substituted : Option Descriptor}
    (surface : ∀ edit : Edit, edit.IsSurface → regime.allows table work.target edit)
    (sound : regime.Sound table) (running : table.templates.depth ≠ 0) (below : work.Below table.size)
    (fresh : regime.base ≤ work.target.index) (ready : ReadyBelow table.size substituted) :
    MovesAt regime (finishOrEnqueue work substituted)
      (fun after _ => table.CarriesOut work substituted after) table := by
  cases substituted with
  | none => exact moves_enqueue sound running below fresh
  | some type => exact moves_applySubstitution surface _ sound (ready type rfl)

end Analysis

end NameBinding
