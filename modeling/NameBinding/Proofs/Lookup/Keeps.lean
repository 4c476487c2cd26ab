import NameBinding.Lookup.Position
import NameBinding.Lookup.UsingDeclaration
import NameBinding.Proofs.Template.InstanceSteps

/-!
# What a lookup keeps

Resolving a call, finding the cost of a conversion and looking up a name change the table only by
making instances.  So they keep every invariant that instantiation keeps.

The lemmas go through overload resolution, conversions and the steps of a lookup.  A lookup carries
its `Trail` along; `Search.Keeps` is the statement for one of its steps.
-/

namespace NameBinding

namespace Analysis

/-- Instantiation keeps the invariant, however deeply it may nest. -/
def InstantiationKeeps (inv : Table → Prop) : Prop :=
  ∀ bound, Follows inv .none (instantiateWithin bound) (instantiateWithin bound)

variable {inv : Table → Prop}

/-! ## Overload resolution -/

theorem keeps_instantiate (instantiates : InstantiationKeeps inv) (template : SymbolId)
    (args : List Descriptor) : Keeps inv (instantiate template args) :=
  Yields.read fun _ _ => instantiates _ template args

theorem keeps_resolveType (instantiates : InstantiationKeeps inv) (type : Descriptor) :
    Keeps inv (resolveType type) :=
  Yields.read fun _ _ => tracks_resolveTemplateIds (instantiates _) _ type

theorem keeps_nestedCost (instantiates : InstantiationKeeps inv) (source target : Descriptor) :
    Keeps inv (nestedCost source target) := by
  refine (keeps_resolveType instantiates source).seq fun resolvedSource => ?_
  refine (keeps_resolveType instantiates target).seq fun resolvedTarget => ?_
  exact Yields.read fun table _ => Yields.ofExcept _

section Overload

variable {cost : CostFunction}

theorem keeps_argumentCosts (costs : ∀ source target, Keeps inv (cost source target))
    (args : List Descriptor) :
    ∀ parameters, Keeps inv (argumentCosts cost args parameters) := by
  induction args with
  | nil =>
      intro parameters
      exact Yields.pure trivial
  | cons arg args ih =>
      intro parameters
      unfold argumentCosts
      refine Yields.read fun table _ => ?_
      have hrest : ∀ first : Cost, Keeps inv (do
          if !first.isMatch then pure none
          else do
            let rest ← argumentCosts cost args parameters.tail
            pure (rest.map (first :: ·))) := by
        intro first
        split
        · exact Yields.pure trivial
        · exact (ih _).seq fun rest => Yields.pure trivial
      split
      · exact (costs _ _).seq fun first => hrest first
      · exact (Yields.pure trivial).seq fun first => hrest first

theorem keeps_candidateCosts (costs : ∀ source target, Keeps inv (cost source target))
    (function : SymbolId) (args : List Descriptor) :
    Keeps inv (candidateCosts cost function args) := by
  refine Yields.read fun table _ => ?_
  dsimp only
  split
  · exact Yields.fail _ _
  · split
    · exact Yields.pure trivial
    · split
      · exact Yields.pure trivial
      · exact keeps_argumentCosts costs _ _

theorem keeps_deducedInstance? (instantiates : InstantiationKeeps inv) (template : SymbolId)
    (args : List Descriptor) : Keeps inv (deducedInstance? template args) := by
  refine Yields.read fun table _ => ?_
  split
  · exact Yields.pure trivial
  · refine (keeps_instantiate instantiates template _).attempt.tracks.seq fun outcome => ?_
    split
    · exact Yields.pure trivial
    · exact Yields.pure trivial
    · exact Yields.fail _ _

theorem keeps_calledFunction? (instantiates : InstantiationKeeps inv) (candidate : SymbolId)
    (args : List Descriptor) : Keeps inv (calledFunction? candidate args) := by
  refine Yields.read fun table _ => ?_
  split
  · exact keeps_deducedInstance? instantiates candidate args
  · exact Yields.pure trivial

theorem keeps_considerCandidate (instantiates : InstantiationKeeps inv)
    (costs : ∀ source target, Keeps inv (cost source target)) (args : List Descriptor)
    (viable : List Viable) (candidate : SymbolId) :
    Keeps inv (considerCandidate cost args viable candidate) := by
  refine (keeps_calledFunction? instantiates candidate args).seq fun called => ?_
  cases called with
  | none => exact Yields.pure trivial
  | some function =>
      refine Yields.read fun table _ => ?_
      split
      · exact Yields.pure trivial
      · refine (keeps_candidateCosts costs function args).seq fun found => ?_
        cases found with
        | none => exact Yields.pure trivial
        | some found => exact Yields.pure trivial

theorem keeps_resolveOverload (instantiates : InstantiationKeeps inv)
    (costs : ∀ source target, Keeps inv (cost source target)) (candidates : List SymbolId)
    (args : List Descriptor) : Keeps inv (resolveOverload cost candidates args) := by
  refine Yields.read fun table _ => ?_
  split
  · exact Yields.pure trivial
  · dsimp only
    split
    · exact Yields.fail _ _
    · refine Yields.seq (Yields.foldlM (fun viable candidate _ =>
        keeps_considerCandidate instantiates costs _ viable candidate) _) fun viable => ?_
      refine Yields.read fun table _ => ?_
      split
      · exact Yields.pure trivial
      · split
        · exact Yields.fail _ _
        · split
          · exact Yields.fail _ _
          · exact Yields.pure trivial

end Overload

/-! ## Conversions -/

theorem keeps_considerConversion (instantiates : InstantiationKeeps inv) (target : Descriptor)
    (entries : List (SymbolId × Cost)) (function : SymbolId) :
    Keeps inv (considerConversion target entries function) := by
  refine Yields.read fun table _ => ?_
  split
  · exact Yields.pure trivial
  · exact (keeps_nestedCost instantiates _ target).seq fun cost => Yields.pure trivial

theorem keeps_bestConversionFunction (instantiates : InstantiationKeeps inv) (id : SymbolId)
    (target : Descriptor) : Keeps inv (bestConversionFunction id target) := by
  refine Yields.read fun table _ => ?_
  exact Yields.seq (Yields.foldlM (fun entries function _ =>
    keeps_considerConversion instantiates target entries function) _) fun entries => Yields.pure trivial

theorem keeps_userDefinedConversion (instantiates : InstantiationKeeps inv)
    (source target : Descriptor) : Keeps inv (userDefinedConversion source target) := by
  refine Yields.read fun table _ => ?_
  refine Yields.seq (Yields.attempt (keeps_resolveOverload instantiates
    (keeps_nestedCost instantiates) _ _)).tracks fun outcome => ?_
  split
  · exact Yields.pure trivial
  · exact Yields.fail _ _
  · rename_i throughConstructor
    refine Yields.read fun table _ => ?_
    split
    · refine (keeps_bestConversionFunction instantiates _ target).seq fun throughConversion => ?_
      beta_reduce
      split <;> exact Yields.pure trivial
    · refine (Yields.pure trivial).seq fun throughConversion => ?_
      beta_reduce
      split <;> exact Yields.pure trivial

theorem keeps_conversionCost (instantiates : InstantiationKeeps inv) (source target : Descriptor)
    (nested : Bool) : Keeps inv (conversionCost source target nested) := by
  refine (keeps_nestedCost instantiates source target).seq fun cost => ?_
  split
  · exact Yields.pure trivial
  · refine (keeps_userDefinedConversion instantiates source target).seq fun found => ?_
    cases found with
    | none => exact Yields.pure trivial
    | ambiguous => exact Yields.pure trivial
    | function id => exact Yields.pure trivial

theorem keeps_resolveFunction (instantiates : InstantiationKeeps inv) (candidates : List SymbolId)
    (args : Option (List Descriptor)) : Keeps inv (resolveFunction candidates args) := by
  cases args with
  | some args =>
      exact keeps_resolveOverload instantiates
        (fun source target => keeps_conversionCost instantiates source target false) candidates args
  | none =>
      refine Yields.read fun table _ => ?_
      split
      · exact Yields.pure trivial
      · exact Yields.pure trivial
      · exact Yields.fail _ _

/-- Without argument types, or where templates are kept, nothing is folded. -/
theorem foldTemplates_eq_pure {options : LookupOptions}
    (quiet : options.arguments = none ∨ options.keepTemplates = true) (templates : List SymbolId) :
    foldTemplates options templates = pure templates := by
  unfold foldTemplates
  rcases quiet with none | keep
  · rw [none]
  · split
    · rfl
    · rw [if_pos keep]

theorem keeps_foldTemplates (instantiates : InstantiationKeeps inv) (options : LookupOptions)
    (templates : List SymbolId) : Keeps inv (foldTemplates options templates) := by
  unfold foldTemplates
  split
  · exact Yields.pure trivial
  · split
    · exact Yields.pure trivial
    · refine Yields.foldlM (fun folded template _ => ?_) _
      refine (keeps_deducedInstance? instantiates template _).seq fun found => ?_
      cases found with
      | none => exact Yields.pure trivial
      | some made => exact Yields.pure trivial

end Analysis

/-! ## Steps of a lookup -/

namespace Search

/-- The step keeps the invariant, whatever the lookup remembers. -/
def Keeps {α : Type} (inv : Table → Prop) (search : Search α) : Prop :=
  ∀ trail, Analysis.Keeps inv (search.run trail)

variable {α β : Type} {inv : Table → Prop}

namespace Keeps

theorem pure (value : α) : Keeps inv (Pure.pure value : Search α) :=
  fun _ => Analysis.Yields.pure trivial

theorem bind {search : Search α} {next : α → Search β} (first : Keeps inv search)
    (second : ∀ value, Keeps inv (next value)) : Keeps inv (search >>= next) :=
  fun trail => (first trail).seq fun result => second result.1 result.2

theorem lift {step : Analysis α} (keeps : Analysis.Keeps inv step) :
    Keeps inv (liftM step : Search α) :=
  fun _ => keeps.seq fun _ => Analysis.Yields.pure trivial

theorem table : Keeps inv Search.table :=
  fun _ => Analysis.Yields.read fun _ _ => Analysis.Yields.pure trivial

theorem get : Keeps inv (MonadState.get : Search Trail) :=
  fun _ => Analysis.Yields.pure trivial

theorem set (trail : Trail) : Keeps inv (MonadStateOf.set trail : Search PUnit) :=
  fun _ => Analysis.Yields.pure trivial

theorem modify (change : Trail → Trail) : Keeps inv (modify change : Search PUnit) :=
  fun _ => Analysis.Yields.pure trivial

theorem fail (error : SemanticError) :
    Keeps inv (liftM (Analysis.fail error : Analysis α) : Search α) :=
  lift (Analysis.Yields.fail error _)

theorem foldlM {list : List α} {step : β → α → Search β}
    (each : ∀ state element, Keeps inv (step state element)) (start : β) :
    Keeps inv (list.foldlM step start) := by
  induction list generalizing start with
  | nil => exact pure start
  | cons first rest ih =>
      rw [List.foldlM_cons]
      exact (each start first).bind fun next => ih next

end Keeps

theorem keeps_ambiguity (query : Query) (name : Name) : Keeps inv (ambiguity query name) := by
  unfold ambiguity
  split
  · exact Keeps.modify _
  · exact Keeps.fail _

theorem keeps_mergeEntry (query : Query) (merged : Found) (entry : Name × List SymbolId) :
    Keeps inv (mergeEntry query merged entry) := by
  refine Keeps.table.bind fun table => ?_
  split
  · exact Keeps.pure _
  · split
    · exact Keeps.pure _
    · exact (keeps_ambiguity query _).bind fun _ => Keeps.pure _

theorem keeps_checkInheritance (id : SymbolId) : Keeps inv (checkInheritance id) := by
  refine Keeps.table.bind fun table => Keeps.get.bind fun trail => ?_
  exact (Keeps.lift (Analysis.Yields.ofExcept _)).bind fun acyclic => Keeps.set _

theorem keeps_followsDirectives (query : Query) : Keeps inv (followsDirectives query) :=
  Keeps.table.bind fun _ => Keeps.pure _

theorem keeps_levelHits (query : Query) (scope : SymbolId) :
    Keeps inv (levelHits query scope) := by
  refine Keeps.table.bind fun table => ?_
  refine (keeps_followsDirectives query).bind fun follows => ?_
  split
  · exact Keeps.get.bind fun trail => (Keeps.set _).bind fun _ => Keeps.pure _
  · exact Keeps.pure _

/-! ### Steps that fold templates

What they keep is what folding the templates of a level keeps: nothing else in a lookup changes the table. -/

section Folds

variable {query : Query}
  (folds : ∀ templates, Analysis.Keeps inv (Analysis.foldTemplates query.options templates))

include folds

theorem keeps_collectSymbol (name : Name) (found : List SymbolId) :
    Keeps inv (collectSymbol query name found) := by
  refine Keeps.table.bind fun table => ?_
  dsimp only
  split
  · exact (keeps_ambiguity query name).bind fun _ => Keeps.pure _
  · split
    · exact Keeps.pure _
    · exact (Keeps.lift (folds _)).bind fun _ => Keeps.pure _

theorem keeps_collectLevel (hits : List Hit) : Keeps inv (collectLevel query hits) := by
  refine Keeps.foldlM (fun collected entry => ?_) _
  refine (keeps_collectSymbol folds entry.1 entry.2).bind fun ids => ?_
  exact Keeps.pure _

theorem keeps_searchBase {deeper : SymbolId → Search Found} (searches : ∀ id, Keeps inv (deeper id))
    (parent : SymbolId) : Keeps inv (searchBase query deeper parent) := by
  refine Keeps.table.bind fun table => ?_
  refine (keeps_collectLevel folds _).bind fun found => ?_
  refine Keeps.table.bind fun table => ?_
  split
  · exact Keeps.pure _
  · exact (searches parent).bind fun _ => Keeps.pure _

theorem keeps_searchParents (depth : Nat) : ∀ path id, Keeps inv (searchParents query depth path id) := by
  induction depth with
  | zero =>
      intro path id
      exact Keeps.table.bind fun table => Keeps.fail _
  | succ depth ih =>
      intro path id
      unfold searchParents
      refine Keeps.table.bind fun table => Keeps.foldlM (fun merged link => ?_) _
      refine Keeps.table.bind fun table => Keeps.get.bind fun trail => ?_
      have hbase : Keeps inv (do
          let found ← searchBase query
            (fun base => searchParents query depth (base :: path) base)
            (table.classOf link.parent)
          mergeSibling query merged found) :=
        (keeps_searchBase folds (fun base => ih (base :: path) base) _).bind
          fun found => Keeps.foldlM (keeps_mergeEntry query) merged
      dsimp only
      split
      · exact Keeps.pure _
      · split
        · exact Keeps.fail _
        · split
          · exact Keeps.pure _
          · split
            · exact (Keeps.set _).bind fun _ => hbase
            · exact hbase

theorem keeps_addInherited (scope : SymbolId) (collected : Found) :
    Keeps inv (addInherited query scope collected) := by
  refine Keeps.table.bind fun table => ?_
  split
  · exact Keeps.pure _
  · refine (keeps_checkInheritance scope).bind fun _ => ?_
    split
    · exact Keeps.pure _
    · have hparents : Keeps inv (lookupInParents query scope) :=
        Keeps.table.bind fun table => keeps_searchParents folds _ _ _
      exact hparents.bind fun _ => Keeps.pure _

theorem keeps_walk (scopes : List SymbolId) : ∀ found, Keeps inv (walk query scopes found) := by
  induction scopes with
  | nil =>
      intro found
      exact Keeps.pure _
  | cons scope outer ih =>
      intro found
      refine (keeps_levelHits query scope).bind fun hits => ?_
      refine (keeps_collectLevel folds hits).bind fun collected => ?_
      refine (keeps_addInherited folds scope collected).bind fun level => ?_
      dsimp only
      split
      · exact Keeps.pure _
      · exact ih _

theorem keeps_lookupIn (scope : SymbolId) : Keeps inv (lookupIn query scope) := by
  refine Keeps.table.bind fun table => ?_
  refine (keeps_followsDirectives query).bind fun directives => ?_
  have hrest : ∀ hits, Keeps inv (do
      let collected ← collectLevel query hits
      addInherited query scope collected) :=
    fun hits => (keeps_collectLevel folds hits).bind fun collected =>
      keeps_addInherited folds scope collected
  dsimp only
  split
  · exact Keeps.get.bind fun trail => (Keeps.pure _).bind hrest
  · exact (Keeps.pure _).bind hrest

theorem keeps_answer (scope : SymbolId) : Keeps inv (answer query scope) := by
  refine Keeps.table.bind fun table => ?_
  split
  · exact keeps_lookupIn folds scope
  · exact keeps_walk folds _ _

end Folds

end Search

/-! ## Lookups -/

namespace Analysis

variable {inv : Table → Prop}

theorem keeps_lookup_of_folds {options : LookupOptions}
    (folds : ∀ templates, Keeps inv (foldTemplates options templates)) (scope : SymbolId) (name : Name) :
    Keeps inv (lookup scope name options) := by
  refine Yields.read fun table _ => ?_
  split
  · exact Yields.violated _ _
  · refine (Search.keeps_answer folds _ _).seq fun result => ?_
    exact Yields.read fun table _ => Yields.pure trivial

theorem keeps_lookup (instantiates : InstantiationKeeps inv) (scope : SymbolId) (name : Name)
    (options : LookupOptions) : Keeps inv (lookup scope name options) :=
  keeps_lookup_of_folds (keeps_foldTemplates instantiates options) scope name

/-- A lookup that folds no templates keeps whatever holds. -/
theorem keeps_lookup_of_quiet {options : LookupOptions}
    (quiet : options.arguments = none ∨ options.keepTemplates = true) (scope : SymbolId) (name : Name) :
    Keeps inv (lookup scope name options) := by
  refine keeps_lookup_of_folds (fun templates => ?_) scope name
  rw [foldTemplates_eq_pure quiet]
  exact Yields.pure trivial

theorem keeps_resolveSingle (instantiates : InstantiationKeeps inv) (name : Name)
    (ids : List SymbolId) : Keeps inv (resolveSingle name ids) := by
  refine Yields.read fun table _ => ?_
  split
  · exact Yields.pure trivial
  · exact Yields.pure trivial
  · split
    · exact keeps_resolveFunction instantiates _ _
    · exact Yields.fail _ _

theorem keeps_lookupName (instantiates : InstantiationKeeps inv) (scope : SymbolId)
    (name : Name) : Keeps inv (lookupName scope name) :=
  (keeps_lookup instantiates scope name _).seq fun _ => keeps_resolveSingle instantiates name _

theorem keeps_qualifiedLookup (instantiates : InstantiationKeeps inv) (qualifier : SymbolId)
    (name : Name) : Keeps inv (qualifiedLookup qualifier name) :=
  (keeps_lookup instantiates qualifier name _).seq fun _ =>
    keeps_resolveSingle instantiates name _

theorem keeps_lookupNestedName (instantiates : InstantiationKeeps inv) (scope : SymbolId)
    (name : Name) (qualified : Bool) : Keeps inv (lookupNestedName scope name qualified) := by
  refine (keeps_lookup instantiates scope name _).seq fun found => ?_
  refine Yields.read fun table _ => ?_
  split
  · exact Yields.pure trivial
  · exact Yields.pure trivial
  · exact Yields.fail _ _

theorem keeps_argumentDependentCandidates (instantiates : InstantiationKeeps inv) (name : Name)
    (args : List Descriptor) : Keeps inv (argumentDependentCandidates name args) := by
  refine Yields.read fun table _ => ?_
  refine Yields.seq (Yields.mapM fun scope _ => ?_) fun found => ?_
  · exact (keeps_lookup instantiates scope name _).seq fun _ => Yields.pure trivial
  · exact Yields.read fun table _ => Yields.pure trivial

theorem keeps_lookupFunction (instantiates : InstantiationKeeps inv) (scope : SymbolId)
    (name : Name) (args : List Descriptor) : Keeps inv (lookupFunction scope name args) := by
  refine (keeps_lookup instantiates scope name _).seq fun found => ?_
  refine Yields.read fun table _ => ?_
  refine (Yields.ofExcept _).seq fun single => ?_
  cases single with
  | some single => exact Yields.pure trivial
  | none =>
      dsimp only
      split
      · refine (keeps_argumentDependentCandidates instantiates name args).seq fun more => ?_
        exact keeps_resolveFunction instantiates _ _
      · exact keeps_resolveFunction instantiates _ _

theorem keeps_qualifiedFunctionLookup (instantiates : InstantiationKeeps inv)
    (qualifier : SymbolId) (name : Name) (args : List Descriptor) :
    Keeps inv (qualifiedFunctionLookup qualifier name args) := by
  refine (keeps_lookup instantiates qualifier name _).seq fun found => ?_
  refine Yields.read fun table _ => ?_
  refine (Yields.ofExcept _).seq fun single => ?_
  cases single with
  | some single => exact Yields.pure trivial
  | none => exact keeps_resolveFunction instantiates _ _

theorem keeps_lookupConstructor (instantiates : InstantiationKeeps inv) (id : SymbolId)
    (args : List Descriptor) : Keeps inv (lookupConstructor id args) :=
  Yields.read fun _ _ => keeps_resolveFunction instantiates _ _

theorem keeps_lookupTemplateId (instantiates : InstantiationKeeps inv) (scope : SymbolId)
    (name : Name) (args : List Descriptor) : Keeps inv (lookupTemplateId scope name args) := by
  refine (keeps_lookup instantiates scope name _).seq fun found => ?_
  refine Yields.read fun table _ => ?_
  split
  · exact Yields.pure trivial
  · exact (keeps_instantiate instantiates _ args).seq fun made => Yields.pure trivial
  · exact Yields.fail _ _
  · exact Yields.fail _ _

end Analysis

end NameBinding
