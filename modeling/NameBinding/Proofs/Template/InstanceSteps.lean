import NameBinding.Proofs.Analysis.Tracks
import NameBinding.Template.Instantiate

/-!
# What making an instance keeps

Finding the instance of a template resolves template-ids, fills in default arguments, and remembers
what was made.  The lemmas here go through these steps for any invariant, with whatever makes the
instances as a parameter: `tracks_instantiateStep` says that one level of instantiation keeps
whatever the deeper levels and the copies keep.

The origin of a symbol is only rewritten when the instance of a partial specialization is adopted by the
primary template.  `tracks_adoptingStep` leaves it to the caller what becomes of the invariant there.
-/

namespace NameBinding

/-- A payload whose lists are all empty. -/
def Payload.Blank : Payload → Prop
  | .basic | .placeholder _ => True
  | .container decls => decls = {}
  | .cls data => data = {}
  | .function data => data = { varargs := data.varargs }
  | .template data => data = {}

theorem Payload.Blank.of_placeholder {payload : Payload} {use : TemplateUse}
    (stands : payload = .placeholder use) : payload.Blank := by
  rw [stands]
  trivial

/-- An edit of what is remembered about instances: the instances and placeholders of a template, and
the origin of an instance. -/
def Edit.IsCache : Edit → Prop
  | .append (.cached _) => True
  | .append (.placeholder _) => True
  | .assign (.origin _) => True
  | _ => False

/-- An edit that remembers an instance or a placeholder of a template. -/
def Edit.IsMemory : Edit → Prop
  | .append (.cached _) => True
  | .append (.placeholder _) => True
  | _ => False

theorem Edit.IsMemory.isCache {edit : Edit} (memory : edit.IsMemory) : edit.IsCache := by
  rcases edit with assignment | entry | ⟨name, member⟩
  · exact memory.elim
  · cases entry with
    | cached | placeholder => trivial
    | _ => exact memory.elim
  · exact memory.elim

namespace Analysis

/-- The instantiator keeps the invariant and the evidence, and leaves evidence where the watched one
ends in another way. -/
def Follows (inv : Table → Prop) (evidence : Evidence) (watched inst : Instantiator) : Prop :=
  ∀ template args, Tracks inv evidence (watched template args) (inst template args)

/-- A new symbol that a template remembers from the start, as an instance or as a placeholder. -/
def createRemembered (template : SymbolId) (entry : Instance → Entry) (args : List Descriptor)
    (symbol : Symbol) : Analysis SymbolId := do
  let made ← create symbol
  append template (entry { args, symbol := made })
  pure made

/-- New instances can be added, which have their template as their origin, and new placeholders. -/
structure AdmitsMemory (inv : Table → Prop) (evidence : Evidence) : Prop where
  addInstance : ∀ template args (symbol : Symbol), symbol.payload.Blank →
    symbol.origin = some { template, args } →
    Tracks inv evidence (createRemembered template .cached args symbol)
      (createRemembered template .cached args symbol)
  addPlaceholder : ∀ template args (symbol : Symbol), symbol.payload = .placeholder { template, args } →
    Tracks inv evidence (createRemembered template .placeholder args symbol)
      (createRemembered template .placeholder args symbol)

/-- New instances can be added and remembered, and old ones adopted. -/
structure AdmitsInstances (inv : Table → Prop) (evidence : Evidence) : Prop where
  create : ∀ symbol : Symbol, symbol.payload.Blank →
    Tracks inv evidence (Analysis.create symbol) (Analysis.create symbol)
  cache : ∀ id edit, edit.IsCache →
    Tracks inv evidence (Analysis.edit id edit) (Analysis.edit id edit)

/-- The instance of a partial specialization becomes the one of the primary template. -/
def adoptInstance (inst : Instantiator) (template : SymbolId) (args : List Descriptor)
    (chosen : SymbolId × List Descriptor) : Analysis SymbolId := do
  let made ← inst chosen.1 chosen.2
  recordInstance template args made
  assign made (.origin (some { template, args }))
  pure made

/-- Wherever a partial specialization is selected, its instance can be adopted. -/
def AdmitsAdoption (inv : Table → Prop) (evidence : Evidence) (watched inst : Instantiator) : Prop :=
  ∀ template args chosen table, inv table →
    table.selectSpecialization template args = .ok (some chosen) →
    YieldsAt inv evidence (adoptInstance watched template args chosen)
      (adoptInstance inst template args chosen) (fun _ => True) table

variable {inv : Table → Prop} {evidence : Evidence} {watched inst watchedCopy copy : Instantiator}

theorem AdmitsInstances.memory (admits : AdmitsInstances inv evidence) : AdmitsMemory inv evidence where
  addInstance := fun template _ symbol blank _ =>
    (admits.create symbol blank).seq fun _ =>
      (admits.cache template _ (by trivial)).seq fun _ => Yields.pure trivial
  addPlaceholder := fun template _ symbol stands =>
    (admits.create symbol (.of_placeholder stands)).seq fun _ =>
      (admits.cache template _ (by trivial)).seq fun _ => Yields.pure trivial

theorem tracks_resolveTemplateIds (follows : Follows inv evidence watched inst) (bound : Nat) :
    ∀ type, Tracks inv evidence (resolveTemplateIds watched bound type)
      (resolveTemplateIds inst bound type) := by
  induction bound with
  | zero =>
      intro type
      exact Yields.violated _ _
  | succ bound ih =>
      intro type
      unfold resolveTemplateIds
      refine Yields.read fun table _ => ?_
      dsimp only
      split
      · exact Yields.pure trivial
      · refine (Yields.mapM fun arg _ => ih arg).seq fun args => ?_
        refine Yields.read fun table _ => ?_
        split
        · exact Yields.pure trivial
        · split
          · exact (follows _ _).seq fun made => Yields.pure trivial
          · exact Yields.pure trivial

section Arguments

variable {watchedResolve resolve : Descriptor → Analysis Descriptor}

theorem tracks_completeFrom
    (resolves : ∀ type, Tracks inv evidence (watchedResolve type) (resolve type)) (name : Name)
    (parameters : List SymbolId) :
    ∀ position args bindings, Tracks inv evidence
      (completeFrom watchedResolve name position parameters args bindings)
      (completeFrom resolve name position parameters args bindings) := by
  induction parameters with
  | nil =>
      intro position args bindings
      exact Yields.pure trivial
  | cons parameter parameters ih =>
      intro position args bindings
      unfold completeFrom
      refine Yields.read fun table _ => ?_
      -- Whichever way the argument is found, the rest of the list is completed in the same way.
      have hrest : ∀ arg : Descriptor, Tracks inv evidence
          (do
            let completed ← completeFrom watchedResolve name (position + 1) parameters args.tail
              ((parameter, arg) :: bindings)
            pure (arg :: completed))
          (do
            let completed ← completeFrom resolve name (position + 1) parameters args.tail
              ((parameter, arg) :: bindings)
            pure (arg :: completed)) :=
        fun arg => (ih _ _ _).seq fun completed => Yields.pure trivial
      dsimp only
      split
      · exact hrest _
      · exact (resolves _).seq fun arg => hrest _
      · exact (Yields.fail _ _).seq fun arg => hrest _

theorem tracks_completeArguments
    (resolves : ∀ type, Tracks inv evidence (watchedResolve type) (resolve type))
    (template : SymbolId) (args : List Descriptor) :
    Tracks inv evidence (completeArguments watchedResolve template args)
      (completeArguments resolve template args) := by
  refine Yields.read fun table _ => ?_
  dsimp only
  split
  · exact Yields.fail _ _
  · exact tracks_completeFrom resolves _ _ _ _ _

end Arguments

theorem tracks_deferredInstance (admits : AdmitsMemory inv evidence) (template : SymbolId)
    (args : List Descriptor) :
    Tracks inv evidence (deferredInstance template args) (deferredInstance template args) := by
  refine Yields.read fun table _ => ?_
  dsimp only
  split
  · exact Yields.pure trivial
  · exact admits.addPlaceholder template args _ rfl

theorem tracks_recordInstance (admits : AdmitsInstances inv evidence) (template : SymbolId)
    (args : List Descriptor) (made : SymbolId) :
    Tracks inv evidence (recordInstance template args made) (recordInstance template args made) :=
  admits.cache template _ trivial

/-- If every edit of what is remembered is admitted, so is adoption. -/
theorem AdmitsInstances.adoption (admits : AdmitsInstances inv evidence)
    (follows : Follows inv evidence watched inst) : AdmitsAdoption inv evidence watched inst := by
  intro template args chosen table hinv _
  refine YieldsAt.bind (follows chosen.1 chosen.2 table hinv) fun made _ => ?_
  refine (tracks_recordInstance admits template args made).seq fun _ => ?_
  exact (admits.cache made _ (by trivial)).seq fun _ => Yields.pure trivial

theorem tracks_concreteInstance (adopts : AdmitsAdoption inv evidence watched inst)
    (copies : Follows inv evidence watchedCopy copy) (template : SymbolId)
    (args : List Descriptor) :
    Tracks inv evidence (concreteInstance watched watchedCopy template args)
      (concreteInstance inst copy template args) := by
  intro table hinv
  refine YieldsAt.read ?_
  split
  · exact Yields.pure trivial table hinv
  · cases hselected : table.selectSpecialization template args with
    | error error => exact Yields.fail error _ table hinv
    | ok selected =>
        cases selected with
        | none => exact copies template args table hinv
        | some chosen => exact adopts template args chosen table hinv hselected

/-- One level of instantiation keeps what the deeper levels, the copies and adoption keep. -/
theorem tracks_adoptingStep (admits : AdmitsMemory inv evidence)
    (follows : Follows inv evidence watched inst) (adopts : AdmitsAdoption inv evidence watched inst)
    (copies : Follows inv evidence watchedCopy copy) (bound : Nat) :
    Follows inv evidence (instantiateStep watched watchedCopy bound)
      (instantiateStep inst copy bound) := by
  intro template args
  have hresolves := tracks_resolveTemplateIds follows bound
  refine Yields.read fun table _ => ?_
  dsimp only
  split
  · exact Yields.fail _ _
  · refine (Yields.mapM fun arg _ => hresolves arg).seq fun resolved => ?_
    refine (tracks_completeArguments hresolves _ _).seq fun completed => ?_
    refine Yields.read fun table _ => ?_
    split
    · exact tracks_deferredInstance admits _ _
    · split
      · exact Yields.fail _ _
      · exact tracks_concreteInstance adopts copies _ _

/-- One level of instantiation keeps what the deeper levels and the copies keep. -/
theorem tracks_instantiateStep (admits : AdmitsInstances inv evidence)
    (follows : Follows inv evidence watched inst)
    (copies : Follows inv evidence watchedCopy copy) (bound : Nat) :
    Follows inv evidence (instantiateStep watched watchedCopy bound)
      (instantiateStep inst copy bound) :=
  tracks_adoptingStep admits.memory follows (admits.adoption follows) copies bound

end Analysis

end NameBinding
