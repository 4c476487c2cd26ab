import NameBinding.Proofs.Conversion.Ranks
import NameBinding.Proofs.Operation.Repetition

/-!
# Conversions of resolved types

The cost of a conversion is found from the resolved types, so that it does not matter how a template instance
is spelled.  Only the search for a user-defined function starts again from the types that were given, with no
more than their typedefs seen through.

* `Agrees`: two steps end alike in every table with some invariant.
* `SpelledAlike`: two types that differ in nothing but typedefs.
* `agrees_userDefinedConversion`: types that are spelled alike are converted by the same function.

The main statement is `resolved_types_cost_alike`.
-/

namespace NameBinding

/-- Deduction sees through the typedefs of an argument. -/
theorem Table.deduceCall_congr {table : Table} {type other : Descriptor}
    (same : table.flattenType type = table.flattenType other) (template : SymbolId) :
    table.deduceCall template [type] = table.deduceCall template [other] := by
  unfold Table.deduceCall
  refine bind_congr fun function => bind_congr fun _ => ?_
  cases (table.symbol function).parameters with
  | nil => rfl
  | cons parameter rest =>
      simp only [List.zip_cons_cons, List.zip_nil_right, List.foldlM_cons, List.foldlM_nil,
        deduceCallParameter, same]

namespace Analysis

variable {α β : Type} {inv : Table → Prop}

/-! ## Steps that end alike -/

/-- The two steps end alike, in whichever table with the invariant they start. -/
def Agrees (inv : Table → Prop) (step other : Analysis α) : Prop :=
  ∀ table, inv table → step table = other table

namespace Agrees

variable {step other : Analysis α}

theorem refl (step : Analysis α) : Agrees inv step step := fun _ _ => rfl

theorem bind {next otherNext : α → Analysis β} (first : Agrees inv step other) (keeps : Keeps inv step)
    (second : ∀ value, Agrees inv (next value) (otherNext value)) :
    Agrees inv (step >>= next) (other >>= otherNext) := by
  intro table hinv
  have hkept := (keeps table hinv).1
  have hfirst := first table hinv
  cases hstep : step table with
  | ok value after =>
      rw [hstep] at hkept hfirst
      rw [bind_ok hstep, bind_ok hfirst.symm]
      exact second value after hkept.1
  | error interrupt after =>
      rw [hstep] at hfirst
      rw [bind_error hstep, bind_error hfirst.symm]

/-- Going on with the table that is read. -/
theorem read {next otherNext : Table → Analysis β}
    (second : ∀ table, inv table → Agrees inv (next table) (otherNext table)) :
    Agrees inv (get >>= next) (get >>= otherNext) :=
  fun table hinv => second table hinv table hinv

theorem attempt (agrees : Agrees inv step other) :
    Agrees inv (Analysis.attempt step) (Analysis.attempt other) := by
  intro table hinv
  unfold Analysis.attempt
  rw [agrees table hinv]

theorem foldlM {list : List α} {step other : β → α → Analysis β}
    (each : ∀ state element, Agrees inv (step state element) (other state element))
    (keeps : ∀ state element, Keeps inv (step state element)) (start : β) :
    Agrees inv (list.foldlM step start) (list.foldlM other start) := by
  induction list generalizing start with
  | nil => exact .refl _
  | cons first rest ih =>
      rw [List.foldlM_cons, List.foldlM_cons]
      exact (each start first).bind (keeps start first) ih

end Agrees

/-! ## Types that are spelled alike -/

/-- The two types differ in nothing but the typedefs that name them. -/
def SpelledAlike (inv : Table → Prop) (type other : Descriptor) : Prop :=
  ∀ table, inv table → table.flattenType type = table.flattenType other

variable {source otherSource target otherTarget : Descriptor}

theorem agrees_resolveType (alike : SpelledAlike inv source otherSource) :
    Agrees inv (resolveType source) (resolveType otherSource) := by
  refine Agrees.read fun table hinv => ?_
  intro now hnow
  cases table.config.nestingLimit with
  | zero => rfl
  | succ depth => rw [resolveTemplateIds_apply, resolveTemplateIds_apply, alike now hnow]

section Alike

variable (instantiates : InstantiationKeeps inv)

include instantiates

theorem agrees_nestedCost (sources : SpelledAlike inv source otherSource)
    (targets : SpelledAlike inv target otherTarget) :
    Agrees inv (nestedCost source target) (nestedCost otherSource otherTarget) :=
  (agrees_resolveType sources).bind (keeps_resolveType instantiates source) fun _ =>
    (agrees_resolveType targets).bind (keeps_resolveType instantiates target) fun _ => .refl _

variable (alike : SpelledAlike inv source otherSource)

include alike

theorem agrees_argumentCosts (parameters : List Descriptor) :
    Agrees inv (argumentCosts nestedCost [source] parameters)
      (argumentCosts nestedCost [otherSource] parameters) := by
  refine Agrees.read fun table hinv => ?_
  cases hparameters : parameters.head? with
  | none =>
      have hellipsis : table.ellipsisCost source = table.ellipsisCost otherSource := by
        rw [Table.ellipsisCost, Table.ellipsisCost, alike table hinv]
      dsimp only
      rw [hellipsis]
      exact .refl _
  | some parameter =>
      exact (agrees_nestedCost instantiates alike fun _ _ => rfl).bind
        (keeps_nestedCost instantiates source parameter) fun _ => .refl _

theorem agrees_candidateCosts (function : SymbolId) :
    Agrees inv (candidateCosts nestedCost function [source])
      (candidateCosts nestedCost function [otherSource]) := by
  refine Agrees.read fun table hinv => ?_
  dsimp only [List.length_singleton]
  split
  · exact .refl _
  · split
    · exact .refl _
    · split
      · exact .refl _
      · exact agrees_argumentCosts instantiates alike _

omit instantiates in
theorem agrees_calledFunction? (candidate : SymbolId) :
    Agrees inv (calledFunction? candidate [source]) (calledFunction? candidate [otherSource]) := by
  refine Agrees.read fun table hinv => ?_
  split
  · refine Agrees.read fun now hnow => ?_
    rw [Table.deduceCall_congr (alike now hnow)]
    exact .refl _
  · exact .refl _

theorem agrees_considerCandidate (viable : List Viable) (candidate : SymbolId) :
    Agrees inv (considerCandidate nestedCost [source] viable candidate)
      (considerCandidate nestedCost [otherSource] viable candidate) := by
  refine (agrees_calledFunction? alike candidate).bind
    (keeps_calledFunction? instantiates candidate [source]) fun called => ?_
  cases called with
  | none => exact .refl _
  | some function =>
      refine Agrees.read fun table hinv => ?_
      split
      · exact .refl _
      · exact (agrees_candidateCosts instantiates alike function).bind
          (keeps_candidateCosts (keeps_nestedCost instantiates) function [source]) fun _ => .refl _

variable (valid : source.isValid = otherSource.isValid) (void : source.isPlainVoid = otherSource.isPlainVoid)

include valid void

theorem agrees_resolveOverload (candidates : List SymbolId) :
    Agrees inv (resolveOverload nestedCost candidates [source])
      (resolveOverload nestedCost candidates [otherSource]) := by
  refine Agrees.read fun table hinv => ?_
  split
  · exact .refl _
  · simp only [List.all_cons, List.all_nil, Bool.and_true, valid, void]
    split
    · exact .refl _
    · split
      · exact .refl _
      · exact (Agrees.foldlM (fun viable candidate =>
            agrees_considerCandidate instantiates alike viable candidate)
          (fun viable candidate => keeps_considerCandidate instantiates (keeps_nestedCost instantiates) _
            viable candidate) []).bind
          (Yields.foldlM (fun viable candidate _ =>
            keeps_considerCandidate instantiates (keeps_nestedCost instantiates) _ viable candidate) [])
          fun _ => .refl _

omit alike valid void in
theorem agrees_considerConversion (targets : SpelledAlike inv target otherTarget)
    (entries : List (SymbolId × Cost)) (function : SymbolId) :
    Agrees inv (considerConversion target entries function)
      (considerConversion otherTarget entries function) := by
  refine Agrees.read fun table hinv => ?_
  split
  · exact .refl _
  · exact (agrees_nestedCost instantiates (fun _ _ => rfl) targets).bind
      (keeps_nestedCost instantiates _ target) fun _ => .refl _

omit alike valid void in
theorem agrees_bestConversionFunction (targets : SpelledAlike inv target otherTarget) (id : SymbolId) :
    Agrees inv (bestConversionFunction id target) (bestConversionFunction id otherTarget) := by
  refine Agrees.read fun table hinv => ?_
  exact (Agrees.foldlM (agrees_considerConversion instantiates targets)
      (keeps_considerConversion instantiates target) []).bind
    (Yields.foldlM (fun entries function _ => keeps_considerConversion instantiates target entries function) [])
    fun _ => .refl _

/-- Types that are spelled alike are converted by the same user-defined function. -/
theorem agrees_userDefinedConversion (targets : SpelledAlike inv target otherTarget) :
    Agrees inv (userDefinedConversion source target) (userDefinedConversion otherSource otherTarget) := by
  refine Agrees.read fun table hinv => ?_
  rw [alike table hinv, targets table hinv]
  refine (agrees_resolveOverload instantiates alike valid void _).attempt.bind
    (Yields.attempt (keeps_resolveOverload instantiates (keeps_nestedCost instantiates) _ _)).tracks
    fun outcome => ?_
  split
  · exact .refl _
  · exact .refl _
  · refine Agrees.read fun now hnow => ?_
    split
    · exact (agrees_bestConversionFunction instantiates targets _).bind
        (keeps_bestConversionFunction instantiates _ target) fun _ => .refl _
    · exact .refl _

end Alike

/-! ## Resolving once more -/

section Resolved

variable {table middle resolved last : Table} {type resolvedType resolvedSource resolvedTarget : Descriptor}
  {nested : Bool}

theorem advances_resolveType (calm : table.Calm) (below : type.Below table.size)
    (ends : resolveType type table = .ok resolvedType resolved) :
    table.Advances resolved ∧ resolvedType.Below resolved.size := by
  have hresolve := (recalls_instantiateWithin resolved table.config.nestingLimit).resolveTemplateIds
    table.config.nestingLimit
  exact hresolve.advances calm below ends

/-- Where no template-id is left, types are resolved by seeing through their typedefs. -/
theorem resolveType_plain (limit : table.config.nestingLimit ≠ 0)
    (noArgs : (table.flattenType type).templateArgs = []) :
    resolveType type table = .ok (table.flattenType type) table := by
  obtain ⟨depth, hdepth⟩ := Nat.exists_eq_succ_of_ne_zero limit
  rw [resolveType, get_bind, hdepth]
  exact resolveTemplateIds_eq_ok.mpr (.plain noArgs)

/-- A resolved type is resolved to itself if no typedef has come in. -/
theorem resolveType_resolved (calm : table.Calm) (below : type.Below table.size)
    (ends : resolveType type table = .ok resolvedType resolved) (grows : resolved.Grows last)
    (flat : last.Flat resolvedType) : resolveType resolvedType last = .ok resolvedType last := by
  have hgrows := (advances_resolveType calm below ends).1.grows.trans grows
  have hsettled := settled_of_resolveTemplateIds
    (recalls_instantiateWithin last table.config.nestingLimit) calm below ends grows
  rw [resolveType, get_bind, hgrows.config]
  exact hsettled.resolveTemplateIds_eq flat

/-- Resolving the types has done no more than to see through their typedefs.  No type is valid, or the void
type, only because of them. -/
structure OnlyTypedefs (resolved : Table) (source target resolvedSource resolvedTarget : Descriptor) : Prop where
  flattensSource : resolved.flattenType source = resolvedSource
  flattensTarget : resolved.flattenType target = resolvedTarget
  valid : source.isValid = resolvedSource.isValid
  void : source.isPlainVoid = resolvedSource.isPlainVoid

/-- Types that are flat are spelled like what was given, as long as questions are asked. -/
theorem spelledAlike_of_flattenType (calm : resolved.Calm) (typedefs : resolved.TypedefsEnd)
    (below : type.Below resolved.size) (belowResolved : resolvedType.Below resolved.size)
    (flattens : resolved.flattenType type = resolvedType) (flat : resolved.Flat resolvedType) :
    SpelledAlike (Growth resolved) type resolvedType := by
  intro now growth
  obtain ⟨hflat, -⟩ := flat
  rw [growth.grows.flattenType_eq calm typedefs below,
    growth.grows.flattenType_eq calm typedefs belowResolved, flattens, hflat]

/-- The cost of a conversion is that of the resolved types, and whatever instances are made for the one are
made for the other, too.  This holds as long as no typedef has come in with the instances, and if a
user-defined function has to be looked for, as long as the types are no template-ids. -/
theorem resolved_types_cost_alike (calm : table.Calm) (sourceBelow : source.Below table.size)
    (targetBelow : target.Below table.size)
    (sourceResolved : resolveType source table = .ok resolvedSource middle)
    (targetResolved : resolveType target middle = .ok resolvedTarget resolved)
    (sourceFlat : resolved.Flat resolvedSource) (targetFlat : resolved.Flat resolvedTarget)
    (searched : ∀ standard, resolved.standardCost resolvedSource resolvedTarget = .ok standard →
      (standard.isMatch || nested || !standard.bindsTemporary) = false →
      resolved.TypedefsEnd ∧ OnlyTypedefs resolved source target resolvedSource resolvedTarget) :
    conversionCost source target nested table =
      conversionCost resolvedSource resolvedTarget nested resolved := by
  obtain ⟨hmiddle, hsourceBelow⟩ := advances_resolveType calm sourceBelow sourceResolved
  have htargetBelow := targetBelow.mono hmiddle.grows.size_le
  obtain ⟨hresolved, hbelow⟩ := advances_resolveType hmiddle.calm htargetBelow targetResolved
  have hsource := resolveType_resolved calm sourceBelow sourceResolved hresolved.grows sourceFlat
  have htarget := resolveType_resolved hmiddle.calm htargetBelow targetResolved (.refl resolved) targetFlat
  rw [conversionCost, conversionCost]
  have hnested : nestedCost source target table = nestedCost resolvedSource resolvedTarget resolved := by
    rw [nestedCost, nestedCost, bind_ok sourceResolved, bind_ok targetResolved, bind_ok hsource,
      bind_ok htarget]
  have hcost : nestedCost resolvedSource resolvedTarget resolved =
      (ofExcept (resolved.standardCost resolvedSource resolvedTarget) : Analysis Cost) resolved := by
    rw [nestedCost, bind_ok hsource, bind_ok htarget]
    rfl
  -- The standard conversions see the resolved types only, so the runs can differ at the functions alone.
  cases hstandard : resolved.standardCost resolvedSource resolvedTarget with
  | error error =>
      have hfails : nestedCost resolvedSource resolvedTarget resolved = .error (.error error) resolved := by
        rw [hcost, hstandard]
        rfl
      rw [bind_error (hnested.trans hfails), bind_error hfails]
  | ok standard =>
      have hends := hcost.trans (ofExcept_eq_ok.mpr ⟨hstandard, rfl⟩)
      rw [bind_ok (hnested.trans hends), bind_ok hends]
      split
      · rfl
      · rename_i unsettled
        obtain ⟨htypedefs, honly⟩ := searched standard hstandard (Bool.eq_false_iff.mpr unsettled)
        have hsize := (hmiddle.grows.trans hresolved.grows).size_le
        have hsources := spelledAlike_of_flattenType hresolved.calm htypedefs (sourceBelow.mono hsize)
          (hsourceBelow.mono hresolved.grows.size_le) honly.flattensSource sourceFlat
        have htargets := spelledAlike_of_flattenType hresolved.calm htypedefs (targetBelow.mono hsize) hbelow
          honly.flattensTarget targetFlat
        have hagrees := agrees_userDefinedConversion Growth.instantiationKeeps hsources honly.valid honly.void
          htargets
        exact (hagrees.bind (keeps_userDefinedConversion Growth.instantiationKeeps source target)
          fun _ => .refl _) resolved ⟨hresolved.calm.idle, .refl resolved⟩

end Resolved

/-! ## A run -/

/-- A class template 1, a class 4 with a constructor from int, and a typedef 7 of the class. -/
def declareSpelled : List Action :=
  declareTemplate 1 ⟨17⟩ (.createClass ⟨17⟩ .struct) ++
    [.perform (.createClass ⟨19⟩ .struct), .perform (.createFunction ⟨19⟩ .function),
      .perform (.addParameterType ⟨5⟩ (.ofKind .int)), .perform (.addConstructor ⟨4⟩ ⟨5⟩),
      .perform (.createBasic ⟨20⟩ (Descriptor.ofSymbol ⟨4⟩).asTypedef)]

/-- The table with these declarations. -/
@[irreducible]
def spelledTable : Table := (Table.new { nestingLimit := 8 }).ran declareSpelled

theorem calm_spelledTable : spelledTable.Calm := by
  have hreached : Reached Action.Joins ((Table.new { nestingLimit := 8 }).ran declareSpelled) :=
    Reached.ran (.new _) (by decide +kernel)
  rw [spelledTable]
  exact hreached.calm

/-- A pointer to an instance of the template, with the qualifiers of the instance. -/
def instancePointer (cv : Cv) : Descriptor :=
  ((Descriptor.templateId ⟨1⟩ [.ofKind .int]).setTopCv cv).pointer

/-- Are the resolved types no typedefs, and is the source converted by adding one qualifier? -/
def addsQualifier (source target : Descriptor) : Analysis Bool := do
  let resolvedSource ← resolveType source
  let resolvedTarget ← resolveType target
  let table ← get
  let standard ← ofExcept (table.standardCost resolvedSource resolvedTarget)
  let cost ← conversionCost resolvedSource resolvedTarget false
  pure (table.canBeGiven [resolvedSource, resolvedTarget] && standard.isMatch && cost.rank == .identity
    && cost.qualification == 1)

/-- A pointer is converted like one to the instance that is made, and an int is converted to the typedef by the
constructor of the class. -/
theorem pointer_and_typedef_cost_alike :
    spelledTable.Calm ∧
      (∃ source middle target resolved cost after,
        resolveType (instancePointer {}) spelledTable = .ok source middle ∧
          resolveType (instancePointer { isConst := true }) middle = .ok target resolved ∧
          conversionCost (instancePointer {}) (instancePointer { isConst := true }) false spelledTable =
            .ok cost after ∧
          conversionCost source target false resolved = .ok cost after ∧
          cost.rank = .identity ∧ cost.qualification = 1) ∧
      ∃ cost after, conversionCost (.ofKind .int) (.ofSymbol ⟨7⟩) false spelledTable = .ok cost after ∧
        conversionCost (.ofKind .int) (spelledTable.flattenType (.ofSymbol ⟨7⟩)) false spelledTable =
          .ok cost after ∧
        cost.userDefined = .function ⟨5⟩ := by
  refine ⟨calm_spelledTable, ?pointers, ?typedef⟩
  case pointers =>
    have hbelow : ∀ cv, (instancePointer cv).Below spelledTable.size := fun cv => by
      change Within spelledTable.size [⟨1⟩]
      decide +kernel
    have hpasses : endsPassing id
        (addsQualifier (instancePointer {}) (instancePointer { isConst := true }) spelledTable) = true := by
      decide +kernel
    obtain ⟨_, after, hruns, rfl⟩ := exists_of_endsPassing hpasses
    obtain ⟨source, middle, hsource, hruns⟩ := bind_eq_ok.mp hruns
    obtain ⟨target, resolved, htarget, hruns⟩ := bind_eq_ok.mp hruns
    rw [get_bind] at hruns
    obtain ⟨standard, reached, hpasses, hruns⟩ := bind_eq_ok.mp hruns
    obtain ⟨cost, last, hcost, hruns⟩ := bind_eq_ok.mp hruns
    obtain ⟨hpassed, rfl⟩ := EStateM.Result.ok.inj hruns
    simp only [Bool.and_eq_true, beq_iff_eq] at hpassed
    obtain ⟨⟨⟨hgiven, hmatch⟩, hrank⟩, hqualification⟩ := hpassed
    obtain ⟨hstandard, rfl⟩ := ofExcept_eq_ok.mp hpasses
    have hflat := (Table.flat_of_canBeGiven hgiven).2
    have halike : conversionCost (instancePointer {}) (instancePointer { isConst := true }) false spelledTable =
        conversionCost source target false resolved :=
      resolved_types_cost_alike calm_spelledTable (hbelow _) (hbelow _) hsource htarget
        (hflat source (by simp)) (hflat target (by simp)) fun found hfound unsettled => by
          cases hstandard.symm.trans hfound
          rw [hmatch] at unsettled
          cases unsettled
    exact ⟨source, middle, target, resolved, cost, last, hsource, htarget, halike.trans hcost, hcost, hrank,
      hqualification⟩
  case typedef =>
    have hlimit : spelledTable.config.nestingLimit ≠ 0 := by decide +kernel
    have hint : spelledTable.flattenType (.ofKind .int) = .ofKind .int := Table.flattenSteps_of_unlinked rfl _
    have hbelow : (Descriptor.ofKind .int).Below spelledTable.size := by
      change Within spelledTable.size []
      decide +kernel
    have hsource := resolveType_plain hlimit (congrArg Descriptor.templateArgs hint)
    have htypedef : (spelledTable.flattenType (.ofSymbol ⟨7⟩)).templateArgs = [] :=
      List.isEmpty_iff.mp (by decide +kernel)
    have htarget := resolveType_plain hlimit htypedef
    rw [hint] at hsource
    have hgiven : spelledTable.canBeGiven [.ofKind .int, spelledTable.flattenType (.ofSymbol ⟨7⟩)] = true := by
      decide +kernel
    have hflat := (Table.flat_of_canBeGiven hgiven).2
    have halike : conversionCost (.ofKind .int) (.ofSymbol ⟨7⟩) false spelledTable =
        conversionCost (.ofKind .int) (spelledTable.flattenType (.ofSymbol ⟨7⟩)) false spelledTable :=
      resolved_types_cost_alike calm_spelledTable hbelow (.ofSymbol (by decide +kernel)) hsource htarget
        (hflat _ (by simp)) (hflat _ (by simp)) fun _ _ _ =>
          ⟨by decide +kernel, hint, rfl, rfl, by decide +kernel⟩
    have hpasses : endsPassing (fun cost => cost.userDefined == .function ⟨5⟩)
        (conversionCost (.ofKind .int) (.ofSymbol ⟨7⟩) false spelledTable) = true := by
      decide +kernel
    obtain ⟨cost, after, hcost, hfunction⟩ := exists_of_endsPassing hpasses
    exact ⟨cost, after, hcost, halike.symm.trans hcost, by simpa using hfunction⟩

end Analysis

end NameBinding
