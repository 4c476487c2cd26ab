import NameBinding.Proofs.Template.CopySteps

/-!
# Every step of an instantiation copies

`Copying size depth` is the invariant of everything that happens inside the outermost copy of an
instantiation: what the running copies refer to is new, where the symbols from `size` on count as
new.  It is what allows a copy to be written without a record.

The lemmas go through the steps of a copy from the inside out, with the instantiator as a parameter.
Each of them says that the step keeps the invariant and any evidence that copying steps keep, so that
taking `CopySteps size before` as the evidence shows that the step is made of copying steps.  They
end with `follow_instantiateUncached`, about a copy inside another one, and with
`follows_instantiateWithin`: making an instance inside a copy is a step of that copy, whatever the
template and the arguments are, and whether it succeeds or fails.
-/

namespace NameBinding

/-- The table is in the middle of `depth` copies, and all copies made so far and all targets of
queued work are symbols from `size` on. -/
structure Copying (size depth : Nat) (table : Table) : Prop where
  bound : size ≤ table.size
  nesting : table.templates.depth = depth
  copies : ∀ context ∈ table.templates.contexts, ∀ pair ∈ context.copies, size ≤ pair.2.index
  targets : ∀ work ∈ table.templates.queue, size ≤ work.target.index

/-- Evidence that survives copying, where the symbols from `size` on are new. -/
def Lasts (size : Nat) (holds : Table → Prop) : Prop :=
  ∀ before after, CopySteps size before after → holds before → holds after

/-- The edit concerns neither what is remembered about instances nor the registered specializations. -/
def Edit.IsPlain : Edit → Prop
  | .append (.cached _) => False
  | .append (.placeholder _) => False
  | .append (.explicit _) => False
  | .append (.specialization _) => False
  | .assign (.origin _) => False
  | _ => True

/-- Evidence that survives every single step of a copy but the adoption of an instance, where the symbols from
`size` on are new. -/
structure Survives (size : Nat) (holds : Table → Prop) : Prop where
  create : ∀ table symbol, symbol.payload.Blank → holds table → holds (table.allocate symbol).2
  addInstance : ∀ (table : Table) template args symbol, symbol.payload.Blank →
    symbol.origin = some { template, args } → holds table →
    holds ((table.allocate symbol).2.perform template
      (.append (.cached { args, symbol := ⟨table.size⟩ })))
  addPlaceholder : ∀ (table : Table) template args (symbol : Symbol),
    symbol.payload = .placeholder { template, args } → holds table →
    holds ((table.allocate symbol).2.perform template
      (.append (.placeholder { args, symbol := ⟨table.size⟩ })))
  perform : ∀ (table : Table) (id : SymbolId) edit, size ≤ id.index → edit.IsPlain → holds table →
    holds (table.perform id edit)
  write : ∀ (table : Table) (id : SymbolId) edit, size ≤ id.index → edit.IsPlain → holds table →
    holds (table.write id edit)
  instantiations : ∀ (table : Table) templates, holds table → holds { table with templates }

theorem Lasts.survives {size : Nat} {holds : Table → Prop} (lasts : Lasts size holds) :
    Survives size holds where
  create := fun _ symbol blank => lasts _ _ (.create .refl symbol blank)
  addInstance := fun _ template _ symbol blank _ =>
    lasts _ _ (.cache (.create .refl symbol blank) template _ (by trivial))
  addPlaceholder := fun _ template _ symbol stands =>
    lasts _ _ (.cache (.create .refl symbol (.of_placeholder stands)) template _ (by trivial))
  perform := fun _ id edit fresh _ => lasts _ _ (.perform .refl id edit fresh)
  write := fun _ id edit fresh _ => lasts _ _ (.write .refl id edit fresh)
  instantiations := fun _ templates => lasts _ _ (.instantiations .refl templates)

/-- That copying steps lead to the table is such evidence. -/
theorem CopySteps.lasts (size : Nat) (start : Table) : Lasts size (CopySteps size start) :=
  fun _ _ steps held => held.trans steps

namespace Table

/-- The table with one more copy being made. -/
def deeper (table : Table) : Table :=
  { table with templates := { table.templates with depth := table.templates.depth + 1 } }

/-- The table with one copy less being made. -/
def shallower (table : Table) : Table :=
  { table with templates := { table.templates with depth := table.templates.depth - 1 } }

end Table

namespace Analysis

/-- The end of a copy, with the copy no longer counted.  A fault ends the run before that. -/
def copyLeft {α : Type} :
    EStateM.Result Interrupt Table α → EStateM.Result Interrupt Table α
  | .ok value after => .ok value after.shallower
  | .error (.error error) after => .error (.error error) after.shallower
  | .error (.fault fault) after => .error (.fault fault) after

theorem nestedCopy_apply (step : Analysis SymbolId) (table : Table) :
    nestedCopy step table = copyLeft (step table.deeper) := by
  simp only [nestedCopy, enterCopy, leaveCopy, attempt, bind, EStateM.bind, modify, modifyGet,
    MonadStateOf.modifyGet, EStateM.modifyGet]
  show _ = copyLeft (step { table with
    templates := { table.templates with depth := table.templates.depth + 1 } })
  cases step { table with
      templates := { table.templates with depth := table.templates.depth + 1 } } with
  | ok made after => rfl
  | error interrupt after =>
      cases interrupt with
      | error error => rfl
      | fault fault => rfl

/-- Inside a copy, a template is copied without a mark and without finishing queued work. -/
theorem instantiateUncached_nested {table : Table} (nested : table.templates.depth ≠ 0)
    (inst : Instantiator) (bound : Nat) (template : SymbolId) (args : List Descriptor) :
    instantiateUncached inst bound template args table =
      nestedCopy (copyTemplate (substituter inst bound false) bound template args) table := by
  show (if table.templates.depth = 0 then _ else _ : Analysis SymbolId) table = _
  rw [if_neg nested]

/-- Filling the symbol that was made for an instance, once the instance is remembered. -/
def fillCopy (substitute : Substituter) (bound : Nat) (context : CopyContext) (made : SymbolId) :
    Analysis SymbolId := do
  let position ← openContext context
  copyContents substitute position bound context.templated made
  linkCopies position
  pure made

theorem EndsWith.copyLeft {α : Type} {onOk onError : Table → Prop} {result : α → Prop}
    {outcome : EStateM.Result Interrupt Table α}
    (ends : EndsWith (fun after => onOk after.shallower) (fun after => onError after.shallower)
      result outcome) :
    EndsWith onOk onError result (Analysis.copyLeft outcome) := by
  cases outcome with
  | ok value after => exact ends
  | error interrupt after =>
      cases interrupt with
      | error error => exact ends
      | fault fault => trivial

end Analysis

namespace Copying

variable {size depth : Nat} {table : Table}

/-- The copies of a running copy are new. -/
theorem copyContext_fresh (copying : Copying size depth table) (position : Nat) :
    ∀ pair ∈ (table.copyContext position).copies, size ≤ pair.2.index := by
  intro pair member
  rw [Table.copyContext, Array.getD_eq_getD_getElem?] at member
  cases hcontext : table.templates.contexts[position]? with
  | none =>
      have hempty : (default : CopyContext).copies = [] := rfl
      simp [hcontext, hempty] at member
  | some context =>
      rw [hcontext] at member
      exact copying.copies context (Array.mem_of_getElem? hcontext) pair member

/-- What a declaration was copied to is new. -/
theorem lookup_fresh (copying : Copying size depth table) {position : Nat}
    {source copy : SymbolId}
    (found : (table.copyContext position).copies.lookup source = some copy) :
    size ≤ copy.index := by
  obtain ⟨earlier, later, hcopies, -⟩ := List.lookup_eq_some_iff.mp found
  exact copying.copyContext_fresh position (source, copy) (by simp [hcopies])

/-- In the middle of a copy another one is nested. -/
theorem nested (copying : Copying size (depth + 1) table) : table.templates.depth ≠ 0 := by
  rw [copying.nesting]
  omega

theorem deeper (copying : Copying size depth table) : Copying size (depth + 1) table.deeper :=
  ⟨copying.bound, congrArg (· + 1) copying.nesting, copying.copies, copying.targets⟩

/-! ## Changes of the table -/

open Analysis

variable {holds : Table → Prop}

/-- A step of a copy that may be watched: it keeps the invariant and lasting evidence. -/
abbrev Follow {α : Type} (size depth : Nat) (holds : Table → Prop) (watched step : Analysis α) :
    Prop :=
  Tracks (Copying size depth) (.lasting holds) watched step

/-- A step of a copy that is not watched. -/
abbrev Step {α : Type} (size depth : Nat) (holds : Table → Prop) (step : Analysis α) : Prop :=
  Follow size depth holds step step

theorem yields_create (survives : Survives size holds) {symbol : Symbol} (blank : symbol.payload.Blank) :
    Yields (Copying size depth) (.lasting holds) (create symbol) (create symbol)
      fun id => size ≤ id.index := by
  refine Yields.updateGet (fun table copying => ?_) fun table _ held => ?_
  · refine ⟨⟨?_, copying.nesting, copying.copies, copying.targets⟩, copying.bound⟩
    rw [Table.size_allocate]
    exact Nat.le_succ_of_le copying.bound
  · exact survives.create _ symbol blank held

theorem perform (copying : Copying size depth table) (id : SymbolId) (edit : Edit) :
    Copying size depth (table.perform id edit) := by
  refine ⟨?_, copying.nesting, copying.copies, copying.targets⟩
  rw [Table.size_perform]
  exact copying.bound

/-- Any edit that the evidence survives is a step. -/
theorem step_perform {id : SymbolId} {edit : Edit}
    (stays : ∀ table : Table, holds table → holds (table.perform id edit)) :
    Step size depth holds (Analysis.edit id edit) :=
  Yields.update (fun _ copying => copying.perform id edit) fun table _ held => stays table held

theorem step_edit (survives : Survives size holds) {id : SymbolId} (fresh : size ≤ id.index)
    {edit : Edit} (plain : edit.IsPlain) : Step size depth holds (Analysis.edit id edit) :=
  step_perform fun table => survives.perform table id edit fresh plain

theorem step_write (survives : Survives size holds) {id : SymbolId} (fresh : size ≤ id.index)
    {edit : Edit} (plain : edit.IsPlain) : Step size depth holds (Analysis.write id edit) := by
  refine Yields.update (fun table copying => ?_) fun table _ held => ?_
  · refine ⟨?_, copying.nesting, copying.copies, copying.targets⟩
    rw [Table.size_write]
    exact copying.bound
  · exact survives.write _ id edit fresh plain held

theorem step_enqueue (survives : Survives size holds) {work : DeferredWork}
    (fresh : size ≤ work.target.index) : Step size depth holds (enqueue work) := by
  refine Yields.update (fun table copying => ?_) fun table _ held => ?_
  · refine ⟨copying.bound, copying.nesting, copying.copies, fun other member => ?_⟩
    rcases List.mem_append.mp member with old | new
    · exact copying.targets other old
    · rw [List.mem_singleton.mp new]
      exact fresh
  · exact survives.instantiations _ _ held

theorem step_recordCopy (survives : Survives size holds) (position : Nat) (source : SymbolId)
    {copy : SymbolId} (fresh : size ≤ copy.index) :
    Step size depth holds (recordCopy position source copy) := by
  refine Yields.update (fun table copying => ?_) fun table _ held => ?_
  · refine ⟨copying.bound, copying.nesting, fun context member pair inCopies => ?_,
      copying.targets⟩
    obtain ⟨index, hindex⟩ := Array.mem_iff_getElem?.mp member
    rw [Array.getElem?_modify] at hindex
    split at hindex
    · obtain ⟨old, hold, rfl⟩ := Option.map_eq_some_iff.mp hindex
      rcases List.mem_cons.mp inCopies with rfl | inOld
      · exact fresh
      · exact copying.copies old (Array.mem_of_getElem? hold) pair inOld
    · exact copying.copies context (Array.mem_of_getElem? hindex) pair inCopies
  · exact survives.instantiations _ _ held

theorem step_openContext (survives : Survives size holds) {context : CopyContext}
    (fresh : ∀ pair ∈ context.copies, size ≤ pair.2.index) :
    Step size depth holds (openContext context) := by
  refine Yields.updateGet (fun table copying => ?_) fun table _ held => ?_
  · refine ⟨⟨copying.bound, copying.nesting, fun other member => ?_, copying.targets⟩, trivial⟩
    rcases Array.mem_push.mp member with old | rfl
    · exact copying.copies other old
    · exact fresh
  · exact survives.instantiations _ _ held

/-- A new symbol that is remembered from the start is new. -/
theorem yields_createRemembered {template : SymbolId} {entry : Instance → Entry} {args : List Descriptor}
    {symbol : Symbol}
    (stays : ∀ table : Table, holds table →
      holds ((table.allocate symbol).2.perform template
        (.append (entry { args, symbol := ⟨table.size⟩ })))) :
    Yields (Copying size depth) (.lasting holds) (createRemembered template entry args symbol)
      (createRemembered template entry args symbol) fun id => size ≤ id.index := by
  have hrun : ∀ table, createRemembered template entry args symbol table =
      .ok ⟨table.size⟩ ((table.allocate symbol).2.perform template
        (.append (entry { args, symbol := ⟨table.size⟩ }))) := fun _ => rfl
  refine Yields.unwatched (fun table copying => ?_) fun table _ held => ?_
  · have hallocated : Copying size depth (table.allocate symbol).2 := by
      refine ⟨?_, copying.nesting, copying.copies, copying.targets⟩
      rw [Table.size_allocate]
      exact Nat.le_succ_of_le copying.bound
    rw [hrun]
    exact ⟨hallocated.perform _ _, copying.bound⟩
  · rw [hrun]
    exact ⟨stays table held, trivial⟩

/-- Instances and placeholders can be added in the middle of a copy. -/
theorem admitsMemory (survives : Survives size holds) :
    AdmitsMemory (Copying size depth) (.lasting holds) where
  addInstance := fun template args symbol blank origin =>
    (yields_createRemembered fun table =>
      survives.addInstance table template args symbol blank origin).tracks
  addPlaceholder := fun template args symbol stands =>
    (yields_createRemembered fun table =>
      survives.addPlaceholder table template args symbol stands).tracks

/-- Instances can be adopted, too, if the evidence survives that. -/
theorem admitsInstances (lasts : Lasts size holds) :
    AdmitsInstances (Copying size depth) (.lasting holds) where
  create := fun _ blank => (yields_create lasts.survives blank).tracks
  cache := fun id edit cache => step_perform fun _ => lasts _ _ (.cache .refl id edit cache)

/-! ## Substitution -/

theorem follow_mapReady {α β : Type} {watched step : α → Analysis (Option β)} {list : List α}
    (each : ∀ element, Follow size depth holds (watched element) (step element)) :
    Follow size depth holds (mapReady watched list) (mapReady step list) := by
  induction list with
  | nil => exact Yields.pure trivial
  | cons first rest ih =>
      refine (each first).seq fun found => ?_
      cases found with
      | none => exact Yields.pure trivial
      | some value =>
          refine ih.seq fun others => ?_
          cases others with
          | none => exact Yields.pure trivial
          | some values => exact Yields.pure trivial

theorem follow_resolveInstance {watched inst : Instantiator}
    {watchedResolve resolve : Descriptor → Analysis Descriptor}
    (follows : Follows (Copying size depth) (.lasting holds) watched inst)
    (resolves : ∀ type, Follow size depth holds (watchedResolve type) (resolve type))
    (eager : Bool) (template : SymbolId) (args : List Descriptor) :
    Follow size depth holds (resolveInstance watched watchedResolve eager template args)
      (resolveInstance inst resolve eager template args) := by
  refine Yields.read fun table _ => ?_
  dsimp only
  split
  · exact (follows template args).seq fun made => Yields.pure trivial
  · -- An argument that cannot be completed yet is no error, but what was done stays done.
    refine (tracks_completeArguments resolves _ _).attempt.tracks.seq fun outcome => ?_
    cases outcome with
    | error error => exact Yields.pure trivial
    | ok completed => exact Yields.read fun table _ => Yields.pure trivial

section Substitution

variable {watched instanceOf : SymbolId → List Descriptor → Analysis (Option SymbolId)}

theorem follow_relink
    (finds : ∀ template args, Follow size depth holds (watched template args)
      (instanceOf template args))
    (type : Descriptor) (template : SymbolId) (args : List Descriptor) :
    Follow size depth holds (relink watched type template args)
      (relink instanceOf type template args) :=
  (finds template args).seq fun _ => Yields.pure trivial

theorem follow_substitute
    (finds : ∀ template args, Follow size depth holds (watched template args)
      (instanceOf template args))
    (position bound : Nat) :
    ∀ type, Follow size depth holds (substitute watched position bound type)
      (substitute instanceOf position bound type) := by
  induction bound with
  | zero =>
      intro type
      exact Yields.violated _ _
  | succ bound ih =>
      intro type
      unfold substitute
      refine (follow_mapReady ih).seq fun args => ?_
      cases args with
      | none => exact Yields.pure trivial
      | some args =>
          refine (follow_mapReady ih).seq fun defaults => ?_
          cases defaults with
          | none => exact Yields.pure trivial
          | some defaults =>
              refine Yields.read fun table _ => ?_
              dsimp only
              -- What the link stands for: a parameter, a copy, a placeholder or anything else.
              split
              · exact Yields.pure trivial
              · split
                · split
                  · exact Yields.pure trivial
                  · split
                    · exact Yields.fail _ _
                    · exact follow_relink finds _ _ _
                · split
                  · exact Yields.pure trivial
                  · split
                    · refine (follow_mapReady ih).seq fun useArgs => ?_
                      cases useArgs with
                      | none => exact Yields.pure trivial
                      | some useArgs => exact follow_relink finds _ _ _
                    · split
                      · exact Yields.pure trivial
                      · split
                        · exact follow_relink finds _ _ _
                        · exact Yields.pure trivial

end Substitution

theorem step_setParent (survives : Survives size holds) {derived : SymbolId}
    (fresh : size ≤ derived.index) (position : Nat) (parent : SymbolId) :
    Step size depth holds (setParent derived position parent) := by
  refine Yields.read fun table _ => ?_
  split
  · exact step_edit survives fresh (by trivial)
  · exact Yields.violated _ _

theorem step_setReturnType (survives : Survives size holds) {function : SymbolId}
    (fresh : size ≤ function.index) (type : Descriptor) :
    Step size depth holds (setReturnType function type) := by
  refine Yields.read fun table _ => ?_
  split
  · exact Yields.fail _ _
  · split
    · exact step_edit survives fresh (by trivial)
    · exact Yields.unsupported _ _

theorem step_applySubstitution (survives : Survives size holds) {target : SymbolId}
    (fresh : size ≤ target.index) (part : DeferredPart) (type : Descriptor) :
    Step size depth holds (applySubstitution target part type) := by
  refine Yields.read fun table _ => ?_
  cases part with
  | type => exact step_edit survives fresh (by trivial)
  | returnType => exact step_setReturnType survives fresh type
  | parent position =>
      dsimp only
      split
      · exact Yields.fail _ _
      · split
        · exact Yields.pure trivial
        · exact step_setParent survives fresh position _

theorem step_finishOrEnqueue (survives : Survives size holds) {work : DeferredWork}
    (fresh : size ≤ work.target.index) (substituted : Option Descriptor) :
    Step size depth holds (finishOrEnqueue work substituted) := by
  cases substituted with
  | none => exact step_enqueue survives fresh
  | some type => exact step_applySubstitution survives fresh work.part type

/-! ## Copies of declarations -/

section Copies

variable {watched substitute : Substituter}

theorem follow_substituteInto (survives : Survives size holds)
    (substitutes : ∀ position type, Follow size depth holds (watched position type)
      (substitute position type))
    (position : Nat) {target : SymbolId} (fresh : size ≤ target.index) (part : DeferredPart)
    (type : Descriptor) :
    Follow size depth holds (substituteInto watched position target part type)
      (substituteInto substitute position target part type) :=
  (substitutes position type).seq fun substituted => step_finishOrEnqueue survives fresh substituted

theorem yields_copyMember (survives : Survives size holds)
    {watchedFill fill : SymbolId → SymbolId → Analysis Unit}
    (fills : ∀ source copy, size ≤ copy.index →
      Follow size depth holds (watchedFill source copy) (fill source copy))
    (position : Nat) (member : SymbolId) :
    Yields (Copying size depth) (.lasting holds) (copyMember watchedFill position member)
      (copyMember fill position member) fun copy => size ≤ copy.index := by
  refine Yields.read fun table copying => ?_
  dsimp only
  split
  · rename_i copy hfound
    exact Yields.pure (copying.lookup_fresh hfound)
  · refine (yields_create survives (Payload.shell_blank _)).bind fun copy fresh => ?_
    refine (step_recordCopy survives position member fresh).seq fun _ => ?_
    exact (fills member copy fresh).seq fun _ => Yields.pure fresh

theorem step_setScope (survives : Survives size holds) {id : SymbolId} (fresh : size ≤ id.index)
    (scope : SymbolId) : Step size depth holds (setScope id scope) :=
  Yields.read fun _ _ => step_write survives fresh (by trivial)

theorem step_appendParameter (survives : Survives size holds) {copy : SymbolId}
    (fresh : size ≤ copy.index) (parameter : SymbolId) :
    Step size depth holds (appendParameter copy parameter) := by
  refine Yields.read fun table _ => ?_
  split
  · exact step_write survives fresh (by trivial)
  · exact step_write survives fresh (by trivial)
  · exact Yields.violated _ _

theorem step_insertMember (survives : Survives size holds) {scope id : SymbolId}
    (freshScope : size ≤ scope.index) (fresh : size ≤ id.index) :
    Step size depth holds (insertMember scope id) := by
  refine Yields.read fun table _ => ?_
  dsimp only
  have hinsert : Step size depth holds (do
      assign id (.scope (some scope)
        ((table.symbol scope).isTemplate || (table.symbol scope).inTemplate))
      edit scope (.insertMember (table.symbol id).name id)) :=
    (step_edit survives fresh (by trivial)).seq fun _ => step_edit survives freshScope (by trivial)
  split
  · exact hinsert
  · exact (Yields.unsupported _ _).seq fun _ => hinsert

section Parts

variable {watchedPart copyPart : SymbolId → Analysis SymbolId}

theorem follow_copyParameters (survives : Survives size holds)
    (copies : ∀ part, Yields (Copying size depth) (.lasting holds) (watchedPart part)
      (copyPart part) fun copy => size ≤ copy.index)
    {copy : SymbolId} (fresh : size ≤ copy.index) (parameters : List SymbolId) :
    Follow size depth holds (copyParameters watchedPart copy parameters)
      (copyParameters copyPart copy parameters) := by
  refine Yields.forM fun parameter _ => ?_
  refine (copies parameter).bind fun part freshPart => ?_
  exact (step_setScope survives freshPart copy).seq fun _ => step_appendParameter survives fresh part

theorem follow_copyMembers (survives : Survives size holds)
    (copies : ∀ part, Yields (Copying size depth) (.lasting holds) (watchedPart part)
      (copyPart part) fun copy => size ≤ copy.index)
    {copy : SymbolId} (fresh : size ≤ copy.index) (members : List SymbolId) :
    Follow size depth holds (copyMembers watchedPart copy members)
      (copyMembers copyPart copy members) := by
  refine Yields.forM fun member _ => ?_
  exact (copies member).bind fun part freshPart => step_insertMember survives fresh freshPart

theorem follow_copySpecialFunctions (survives : Survives size holds)
    (copies : ∀ part, Yields (Copying size depth) (.lasting holds) (watchedPart part)
      (copyPart part) fun copy => size ≤ copy.index)
    {entry : SymbolId → Entry} (plain : ∀ part, (Edit.append (entry part)).IsPlain) {copy : SymbolId}
    (fresh : size ≤ copy.index) (functions : List SymbolId) :
    Follow size depth holds (copySpecialFunctions watchedPart entry copy functions)
      (copySpecialFunctions copyPart entry copy functions) := by
  refine Yields.forM fun function _ => ?_
  refine (copies function).bind fun part freshPart => ?_
  exact (step_setScope survives freshPart copy).seq fun _ => step_write survives fresh (plain part)

end Parts

theorem follow_copyReturnType (survives : Survives size holds)
    (substitutes : ∀ position type, Follow size depth holds (watched position type)
      (substitute position type))
    (position : Nat) {copy : SymbolId} (fresh : size ≤ copy.index) (type : Option Descriptor) :
    Follow size depth holds (copyReturnType watched position copy type)
      (copyReturnType substitute position copy type) := by
  cases type with
  | none => exact Yields.pure trivial
  | some type =>
      exact (step_write survives fresh (by trivial)).seq fun _ =>
        follow_substituteInto survives substitutes position fresh _ _

theorem follow_copyBases (survives : Survives size holds)
    (substitutes : ∀ position type, Follow size depth holds (watched position type)
      (substitute position type))
    (position : Nat) {copy : SymbolId} (fresh : size ≤ copy.index) (links : List BaseLink) :
    Follow size depth holds (copyBases watched position copy links)
      (copyBases substitute position copy links) := by
  refine Yields.forM fun link _ => ?_
  exact (step_write survives fresh (by trivial)).seq fun _ =>
    follow_substituteInto survives substitutes position fresh _ _

theorem step_copyDirectives (survives : Survives size holds) {copy : SymbolId}
    (fresh : size ≤ copy.index) (directives : List UsingDirective) :
    Step size depth holds (copyDirectives copy directives) :=
  Yields.forM fun _ _ => step_write survives fresh (by trivial)

theorem follow_copyContents (survives : Survives size holds)
    (substitutes : ∀ position type, Follow size depth holds (watched position type)
      (substitute position type))
    (position bound : Nat) :
    ∀ source copy, size ≤ copy.index →
      Follow size depth holds (copyContents watched position bound source copy)
        (copyContents substitute position bound source copy) := by
  induction bound with
  | zero =>
      intro source copy fresh
      exact Yields.violated _ _
  | succ bound ih =>
      intro source copy fresh
      have hcopies : ∀ part, Yields (Copying size depth) (.lasting holds)
          (copyMember (copyContents watched position bound) position part)
          (copyMember (copyContents substitute position bound) position part)
          fun copy => size ≤ copy.index :=
        fun part => yields_copyMember survives ih position part
      refine Yields.read fun table _ => ?_
      refine (follow_substituteInto survives substitutes position fresh _ _).seq fun _ => ?_
      refine (follow_copyParameters survives hcopies fresh _).seq fun _ => ?_
      refine (follow_copyReturnType survives substitutes position fresh _).seq fun _ => ?_
      refine (follow_copyBases survives substitutes position fresh _).seq fun _ => ?_
      refine (follow_copyMembers survives hcopies fresh _).seq fun _ => ?_
      refine (step_copyDirectives survives fresh _).seq fun _ => ?_
      have hconstructor : ∀ part, (Edit.append (.constructor part)).IsPlain := fun _ => trivial
      have hconversion : ∀ part, (Edit.append (.conversion part)).IsPlain := fun _ => trivial
      refine (follow_copySpecialFunctions survives hcopies hconstructor fresh _).seq fun _ => ?_
      exact follow_copySpecialFunctions survives hcopies hconversion fresh _

theorem step_linkCopies (survives : Survives size holds) (position : Nat) :
    Step size depth holds (linkCopies position) := by
  refine Yields.read fun table copying => ?_
  refine Yields.forM fun pair member => ?_
  have fresh := copying.copyContext_fresh position pair member
  obtain ⟨source, copy⟩ := pair
  dsimp only
  split
  · exact Yields.pure trivial
  · exact (step_write survives fresh (by trivial)).seq fun _ => step_write survives fresh (by trivial)

theorem follow_fillCopy (survives : Survives size holds)
    (substitutes : ∀ position type, Follow size depth holds (watched position type)
      (substitute position type))
    (bound : Nat) (context : CopyContext)
    (contextFresh : ∀ pair ∈ context.copies, size ≤ pair.2.index) (made : SymbolId)
    (fresh : size ≤ made.index) :
    Follow size depth holds (fillCopy watched bound context made)
      (fillCopy substitute bound context made) := by
  refine (step_openContext survives contextFresh).seq fun position => ?_
  refine (follow_copyContents survives substitutes position bound _ made fresh).seq fun _ => ?_
  exact (step_linkCopies survives position).seq fun _ => Yields.pure trivial

theorem follow_copyTemplate (survives : Survives size holds)
    (substitutes : ∀ position type, Follow size depth holds (watched position type)
      (substitute position type))
    (bound : Nat) (template : SymbolId) (args : List Descriptor) :
    Follow size depth holds (copyTemplate watched bound template args)
      (copyTemplate substitute bound template args) := by
  refine Yields.read fun table _ => ?_
  dsimp only
  split
  · exact Yields.fail _ _
  · rename_i templated _
    -- The instance is made and remembered at once; what follows only fills it.
    have hstays : ∀ now : Table, holds now → _ := fun now =>
      survives.addInstance now template args
        { (table.symbol templated).shell with
          scope := (table.symbol template).scope
          origin := some { template, args } } (Payload.shell_blank _) rfl
    exact (yields_createRemembered hstays).bind fun made fresh =>
      follow_fillCopy survives substitutes bound ⟨_, _, [(_, made)]⟩ (by simpa using fresh) made fresh

theorem follow_drainQueue (survives : Survives size holds)
    (substitutes : ∀ position type, Follow size depth holds (watched position type)
      (substitute position type))
    (template : Name) (passes : Nat) :
    Follow size depth holds (drainQueue watched template passes)
      (drainQueue substitute template passes) := by
  induction passes with
  | zero =>
      refine Yields.read fun table _ => ?_
      split
      · exact Yields.pure trivial
      · exact Yields.fail _ _
  | succ passes ih =>
      -- A pass works on the queue it found, and the queue that it leaves starts out empty.
      intro table copying
      refine YieldsAt.read ?_
      split
      · exact Yields.pure trivial table copying
      · have hqueue : Copying size depth
            { table with templates := { table.templates with queue := [] } } :=
          ⟨copying.bound, copying.nesting, copying.copies, fun work member =>
            absurd member List.not_mem_nil⟩
        have hset : YieldsAt (Copying size depth) (.lasting holds) _ _ (fun _ => True) table :=
          YieldsAt.set hqueue (survives.instantiations table _)
        refine hset.bind fun _ _ => Yields.seq (Yields.forM fun work member => ?_) fun _ => ih
        refine (substitutes work.context work.type).seq fun substituted => ?_
        exact step_finishOrEnqueue survives (copying.targets work member) substituted

end Copies

/-! ## Instances -/

theorem follow_substituter {watched inst : Instantiator}
    (follows : Follows (Copying size depth) (.lasting holds) watched inst) (bound : Nat)
    (eager : Bool) (position : Nat) (type : Descriptor) :
    Follow size depth holds (substituter watched bound eager position type)
      (substituter inst bound eager position type) :=
  follow_substitute (follow_resolveInstance follows (tracks_resolveTemplateIds follows bound) eager)
    position bound type

/-- A copy inside another one counts as one level deeper, also when it fails. -/
theorem follow_nestedCopy (survives : Survives size holds) {watched step : Analysis SymbolId}
    (follow : Follow size (depth + 1) holds watched step) :
    Follow size depth holds (nestedCopy watched) (nestedCopy step) := by
  intro table copying
  obtain ⟨hends, hevidence⟩ := follow table.deeper copying.deeper
  have hleave : ∀ after, Copying size (depth + 1) after → Copying size depth after.shallower :=
    fun after inner => ⟨inner.bound, congrArg (· - 1) inner.nesting, inner.copies, inner.targets⟩
  have hshallower : ∀ after, holds after → holds after.shallower :=
    fun after => survives.instantiations _ _
  have hcause : holds table ∨ copyLeft (watched table.deeper) ≠ copyLeft (step table.deeper) →
      holds table.deeper ∨ watched table.deeper ≠ step table.deeper :=
    Or.imp (survives.instantiations _ _) fun differs hsame => differs (congrArg _ hsame)
  rw [YieldsAt, nestedCopy_apply, nestedCopy_apply]
  refine ⟨?_, fun cause => ?_⟩
  · exact EndsWith.copyLeft (hends.weaken
      (fun _ after inner _ => ⟨hleave after inner, trivial⟩) hleave)
  · exact EndsWith.copyLeft ((hevidence (hcause cause)).weaken
      (fun _ after held _ => ⟨hshallower after held, trivial⟩) hshallower)

theorem follow_instantiateUncached (survives : Survives size holds) {watched inst : Instantiator}
    (follows : Follows (Copying size (depth + 2)) (.lasting holds) watched inst) (bound : Nat) :
    Follows (Copying size (depth + 1)) (.lasting holds) (instantiateUncached watched bound)
      (instantiateUncached inst bound) := by
  intro template args table copying
  have hcopy := follow_nestedCopy survives
    (follow_copyTemplate survives (follow_substituter follows bound false) bound template args)
    table copying
  rwa [YieldsAt, instantiateUncached_nested copying.nested,
    instantiateUncached_nested copying.nested]

/-- Making an instance inside a copy is a step of the copy, if adopting one is. -/
theorem follows_of_adoption (survives : Survives size holds)
    (adopts : ∀ bound depth,
      Follows (Copying size (depth + 1)) (.lasting holds) (instantiateWithin bound) (instantiateWithin bound) →
      AdmitsAdoption (Copying size (depth + 1)) (.lasting holds) (instantiateWithin bound)
        (instantiateWithin bound)) (bound : Nat) :
    ∀ depth, Follows (Copying size (depth + 1)) (.lasting holds) (instantiateWithin bound)
      (instantiateWithin bound) := by
  induction bound with
  | zero =>
      intro depth template args
      exact Yields.violated _ _
  | succ bound ih =>
      intro depth
      exact tracks_adoptingStep (admitsMemory survives) (ih depth) (adopts bound depth (ih depth))
        (follow_instantiateUncached survives (ih (depth + 1)) bound) bound

/-- Making an instance inside a copy is a step of the copy. -/
theorem follows_instantiateWithin (lasts : Lasts size holds) (bound : Nat) :
    ∀ depth, Follows (Copying size (depth + 1)) (.lasting holds) (instantiateWithin bound)
      (instantiateWithin bound) :=
  follows_of_adoption lasts.survives (fun _ _ follows => (admitsInstances lasts).adoption follows) bound

end Copying

end NameBinding
