import NameBinding.Proofs.Conversion.Resolved
import NameBinding.Proofs.Overload.Assessments
import NameBinding.Proofs.Table.FunctionLinks

/-!
# Calls of a completed prototype

When a definition completes the prototype of a function, calls are resolved with the parameters of the
definition.  The types of these are the types of the prototype, but default values are read from the definition
alone, so that a call may lose those that only the prototype has.

* `Table.ConvertsPlainly`: a type converts without instances and user-defined functions.
* `Table.suppliesRest`: there are default values for the arguments that a call omits.
* `candidateCosts_plain`: if all arguments convert plainly, a function accepts a call of the right length.

The main statement is `completed_prototype_called`: a call that resolved to the prototype resolves to the
definition exactly if the definition has default values for the omitted arguments.
-/

namespace NameBinding

/-! ## Plain conversions -/

namespace Descriptor

/-- The default value of a type is no part of an operand. -/
theorem conversionOperand_default (type : Descriptor) (value : Option Descriptor) (keepTopCv : Bool) :
    { type with defaultValue := value }.conversionOperand keepTopCv = type.conversionOperand keepTopCv := by
  have hreference : { type with defaultValue := value }.stripReference =
      { type.stripReference with defaultValue := value } := by
    rw [stripReference, stripReference]
    split <;> split <;> first | rfl | contradiction
  have hdecay : ∀ other : Descriptor,
      { other with defaultValue := value }.decay = { other.decay with defaultValue := value } := by
    intro other
    obtain ⟨kind, flags, ops, link, args, sort, constant, defaults⟩ := other
    cases ops with
    | nil => by_cases hfunction : kind = .function <;> simp [decay, hfunction, pointer, withOp]
    | cons op rest => by_cases harray : op.kind = .array <;> simp [decay, harray]
  have hstrip : ∀ other : Descriptor, { other with defaultValue := value }.stripTopCv.stripDefault =
      other.stripTopCv.stripDefault := by
    rintro ⟨kind, flags, ops, link, args, sort, constant, defaults⟩
    cases ops <;> rfl
  rw [conversionOperand, conversionOperand, hreference, hdecay]
  cases keepTopCv with
  | true => rfl
  | false =>
      have hstripped := hstrip type.stripReference.decay
      simp only [Bool.false_eq_true, if_false, hstripped]

/-- Types that are the same are operands of the same conversions, unless they are template-ids. -/
theorem conversionOperand_of_bare {a b : Descriptor} (same : a.bare = b.bare)
    (noArgs : a.templateArgs = []) (keepTopCv : Bool) :
    a.conversionOperand keepTopCv = b.conversionOperand keepTopCv := by
  have hargs := length_of_bareAll (bareAll_args_of_bare same)
  rw [noArgs] at hargs
  have hnoArgs : b.templateArgs = [] := List.length_eq_zero_iff.mp hargs.symm
  obtain ⟨hkind, hflags, hops, hlink, -, hsort, hconstant⟩ := (bare_eq_iff a b).mp same
  have hdefault : { b with defaultValue := a.defaultValue } = a := by
    rw [← hkind, ← hflags, ← hops, ← hlink, ← hsort, ← hconstant, hnoArgs, ← noArgs]
    cases a
    rfl
  rw [← hdefault, conversionOperand_default]

end Descriptor

namespace Table

variable {table after : Table} {source target other : Descriptor} {p d : SymbolId}

/-- The types are no template-ids, and one converts to the other without a user-defined function. -/
structure ConvertsPlainly (table : Table) (source target : Descriptor) : Prop where
  sourceArgs : (table.flattenType source).templateArgs = []
  targetArgs : (table.flattenType target).templateArgs = []
  converts : ∃ cost,
    table.standardCost (table.flattenType source) (table.flattenType target) = .ok cost ∧ cost.isMatch = true

theorem ConvertsPlainly.of_bare (plain : table.ConvertsPlainly source target)
    (same : target.bare = other.bare) : table.ConvertsPlainly source other := by
  have hflat := table.bare_flattenType same
  have hoperand := Descriptor.conversionOperand_of_bare hflat plain.targetArgs
  refine ⟨plain.sourceArgs, ?_, ?_⟩
  · have hargs := Descriptor.length_of_bareAll (Descriptor.bareAll_args_of_bare hflat)
    rw [plain.targetArgs] at hargs
    exact List.length_eq_zero_iff.mp hargs.symm
  · obtain ⟨cost, hcost, hmatch⟩ := plain.converts
    have hreference : (table.flattenType target).isReference = (table.flattenType other).isReference := by
      obtain ⟨-, -, hops, -⟩ := (Descriptor.bare_eq_iff _ _).mp hflat
      rw [Descriptor.isReference, Descriptor.isReference, hops]
    have hunranked : Cost.unranked (table.flattenType source) (table.flattenType other) =
        .unranked (table.flattenType source) (table.flattenType target) := by
      simp only [Cost.unranked, hoperand, hreference]
    refine ⟨cost, ?_, hmatch⟩
    rw [standardCost_eq_rankedCost, hunranked]
    exact hcost

/-- So it does not matter which of two lists of parameters that are the same the arguments are converted to. -/
theorem convertsPlainly_zip {args parameters others : List Descriptor}
    (same : Descriptor.bareAll parameters = Descriptor.bareAll others)
    (plain : ∀ pair ∈ args.zip parameters, table.ConvertsPlainly pair.1 pair.2) :
    ∀ pair ∈ args.zip others, table.ConvertsPlainly pair.1 pair.2 := by
  induction args generalizing parameters others with
  | nil => simp
  | cons arg rest ih =>
      cases parameters with
      | nil =>
          obtain rfl : others = [] := by simpa using (Descriptor.length_of_bareAll same).symm
          simp
      | cons parameter parameters =>
          cases others with
          | nil => simp
          | cons other others =>
              simp only [Descriptor.bareAll, List.cons.injEq] at same
              simp only [List.zip_cons_cons, List.forall_mem_cons] at plain ⊢
              exact ⟨plain.1.of_bare same.1, ih same.2 plain.2⟩

theorem SameButFunctions.convertsPlainly (same : table.SameButFunctions after) (ends : table.LinksEnd)
    (functionless : table.TypesFunctionless) (given : table.Functionless source)
    (wanted : table.Functionless target) (plain : table.ConvertsPlainly source target) :
    after.ConvertsPlainly source target := by
  have hsource := same.flattenType_eq ends functionless given
  have htarget := same.flattenType_eq ends functionless wanted
  have hcost := same.standardCost_eq ends functionless (functionless.flattenType ends given)
    (functionless.flattenType ends wanted)
  exact ⟨by rw [hsource]; exact plain.sourceArgs, by rw [htarget]; exact plain.targetArgs, by
    rw [hsource, htarget, hcost]
    exact plain.converts⟩

/-- There are default values for the arguments that a call with `count` arguments omits. -/
def suppliesRest (table : Table) (function : SymbolId) (count : Nat) : Bool :=
  decide ((table.signature function).length ≤ count) ||
    ((table.symbol function).parameters.drop count).all fun parameter =>
      (table.symbol parameter).type.defaultValue.isSome

end Table

namespace Analysis

open Table

variable {table after : Table} {source target : Descriptor} {args parameters : List Descriptor}
  {function : SymbolId}

/-- A plain conversion is found without a trace. -/
theorem conversionCost_plain (limit : table.config.nestingLimit ≠ 0)
    (plain : table.ConvertsPlainly source target) :
    ∃ cost, conversionCost source target false table = .ok cost table ∧ cost.isMatch = true ∧
      cost.userDefined = .none := by
  obtain ⟨cost, hcost, hmatch⟩ := plain.converts
  have hnested : nestedCost source target table = .ok cost table := by
    rw [nestedCost, bind_ok (resolveType_plain limit plain.sourceArgs),
      bind_ok (resolveType_plain limit plain.targetArgs), get_bind]
    exact ofExcept_eq_ok.mpr ⟨hcost, rfl⟩
  refine ⟨cost, ?_, hmatch, ?_⟩
  · rw [conversionCost, bind_ok hnested, hmatch]
    rfl
  · rw [standardCost_eq_rankedCost] at hcost
    exact (Ranked.of_rankedCost hcost).operands.2.2.2

theorem argumentCosts_cons (cost : CostFunction) (arg : Descriptor) (rest parameters : List Descriptor) :
    argumentCosts cost (arg :: rest) parameters table =
      ((match parameters.head? with
        | some parameter => cost arg parameter
        | none => pure (table.ellipsisCost arg)) >>= fun first =>
          if !first.isMatch then pure none
          else argumentCosts cost rest parameters.tail >>= fun later =>
            pure (later.map (first :: ·))) table := by
  cases parameters <;> rfl

/-- Arguments that convert plainly are passed, those beyond the parameters through the ellipsis. -/
theorem argumentCosts_plain (limit : table.config.nestingLimit ≠ 0)
    (plain : ∀ pair ∈ args.zip parameters, table.ConvertsPlainly pair.1 pair.2) :
    ∃ costs, argumentCosts (conversionCost · · false) args parameters table = .ok (some costs) table ∧
      ∀ cost ∈ costs, cost.userDefined = .none := by
  induction args generalizing parameters with
  | nil => exact ⟨[], rfl, by simp⟩
  | cons arg rest ih =>
      have hfirst : ∃ cost, (match parameters.head? with
          | some parameter => conversionCost arg parameter false
          | none => pure (table.ellipsisCost arg) : Analysis Cost) table = .ok cost table ∧
          cost.isMatch = true ∧ cost.userDefined = .none := by
        cases parameters with
        | nil => exact ⟨table.ellipsisCost arg, rfl, rfl, rfl⟩
        | cons parameter parameters => exact conversionCost_plain limit (plain (arg, parameter) (by simp))
      have hrest : ∀ pair ∈ rest.zip parameters.tail, table.ConvertsPlainly pair.1 pair.2 := by
        cases parameters with
        | nil => simp
        | cons parameter parameters => exact fun pair member => plain pair (List.mem_cons_of_mem _ member)
      obtain ⟨cost, hcost, hmatch, hnone⟩ := hfirst
      obtain ⟨costs, hcosts, hall⟩ := ih hrest
      refine ⟨cost :: costs, ?_, ?_⟩
      · rw [argumentCosts_cons, bind_ok hcost, hmatch]
        exact bind_ok hcosts
      · intro other member
        rcases List.mem_cons.mp member with rfl | later
        · exact hnone
        · exact hall other later

/-- A function accepts a call whose arguments convert plainly if they are not too many, and if there are default
values for those that are omitted. -/
theorem candidateCosts_plain (limit : table.config.nestingLimit ≠ 0)
    (valid : (table.signature function).all (·.isValid) = true)
    (fits : args.length ≤ (table.signature function).length ∨ (table.symbol function).varargs = true)
    (plain : ∀ pair ∈ args.zip (table.signature function), table.ConvertsPlainly pair.1 pair.2) :
    ∃ costs, candidateCosts (conversionCost · · false) function args table = .ok costs table ∧
      costs.isSome = table.suppliesRest function args.length ∧
      ∀ found, costs = some found → ∀ cost ∈ found, cost.userDefined = .none := by
  obtain ⟨costs, hcosts, hnone⟩ := argumentCosts_plain limit plain
  rw [candidateCosts, get_bind]
  have hfits : (decide ((table.signature function).length < args.length) &&
      !(table.symbol function).varargs) = false := by
    rcases fits with few | ellipsis
    · simp [Nat.not_lt.mpr few]
    · simp [ellipsis]
  simp only [valid, Bool.not_true, Bool.false_eq_true, if_false, hfits]
  cases hsupplies : table.suppliesRest function args.length with
  | false =>
      simp only [suppliesRest, Bool.or_eq_false_iff, decide_eq_false_iff_not, Nat.not_le] at hsupplies
      simp only [hsupplies, decide_true, Bool.true_and, Bool.not_false, if_true]
      exact ⟨none, rfl, rfl, by simp⟩
  | true =>
      refine ⟨some costs, ?_, rfl, fun found same => by cases same; exact hnone⟩
      rw [if_neg, hcosts]
      simp only [suppliesRest, Bool.or_eq_true, decide_eq_true_eq] at hsupplies
      rcases hsupplies with enough | defaults
      · simp [Nat.not_lt.mpr enough]
      · simp [defaults]

/-- What accepts a call has valid parameters, and no more arguments are passed than it takes. -/
theorem fits_of_candidateCosts {cost : CostFunction} {costs : List Cost}
    (accepted : candidateCosts cost function args table = .ok (some costs) after) :
    (table.signature function).all (·.isValid) = true ∧
      (args.length ≤ (table.signature function).length ∨ (table.symbol function).varargs = true) := by
  rw [candidateCosts, get_bind] at accepted
  split at accepted
  · cases accepted
  · rename_i valid
    split at accepted
    · cases accepted
    · rename_i few
      refine ⟨by simpa using valid, ?_⟩
      rw [Bool.and_eq_true, not_and, decide_eq_true_eq] at few
      by_cases enough : args.length ≤ (table.signature function).length
      · exact .inl enough
      · exact .inr (by simpa using few (Nat.lt_of_not_le enough))

/-! ## A call with one candidate -/

theorem considerCandidate_of_error {cost : CostFunction} {viable : List Viable} {candidate : SymbolId}
    {interrupt : Interrupt} (called : calledFunction? candidate args table = .ok (some function) table)
    (isFunction : (table.symbol function).functionData?.isSome = true)
    (new : viable.any (·.function == function) = false)
    (computed : candidateCosts cost function args table = .error interrupt after) :
    considerCandidate cost args viable candidate table = .error interrupt after := by
  have hsome : (table.symbol function).functionData?.isNone = false := by
    rw [Option.isNone_eq_false_iff]
    exact isFunction
  rw [considerCandidate, bind_ok called]
  show (if (table.symbol function).functionData?.isNone
      || viable.any (·.function == function) then pure viable else _ : Analysis _) table = _
  rw [hsome, new]
  exact bind_error computed

theorem resolveOverload_of_error {cost : CostFunction} {candidates rest : List SymbolId} {first : SymbolId}
    {interrupt : Interrupt} (unique : table.uniqueCandidates candidates = first :: rest)
    (valid : args.all (·.isValid) = true)
    (considered : (first :: rest).foldlM (considerCandidate cost (passedArguments args)) [] table =
      .error interrupt after) :
    resolveOverload cost candidates args table = .error interrupt after := by
  show (get >>= _ : Analysis (Option SymbolId)) table = _
  rw [get_bind, unique]
  simp only [valid, Bool.not_true, Bool.false_eq_true, if_false]
  exact bind_error considered

section Single

variable {candidates : List SymbolId} (unique : table.uniqueCandidates candidates = [function])
  (isFunction : (table.symbol function).functionData?.isSome = true)

include unique isFunction

omit unique in
theorem calledFunction?_of_function (given : List Descriptor) :
    calledFunction? function given table = .ok (some function) table := by
  have htemplate : table.isFunctionTemplate function = false := by
    obtain ⟨data, hdata⟩ := Option.isSome_iff_exists.mp isFunction
    have hnone : (table.symbol function).templateData? = none := by
      revert hdata
      unfold Symbol.functionData? Symbol.templateData?
      split
      · rename_i data' hpayload
        simp [hpayload]
      · simp
    simp [isFunctionTemplate, templated?, hnone]
  rw [calledFunction?, get_bind, htemplate]
  rfl

omit unique in
theorem functionCosts_of_function (given : List Descriptor) :
    functionCosts (conversionCost · · false) function given table =
      candidateCosts (conversionCost · · false) function given table := by
  have hsome : (table.symbol function).functionData?.isNone = false := by
    rw [Option.isNone_eq_false_iff]
    exact isFunction
  rw [functionCosts, get_bind, hsome]
  rfl

/-- A call with one candidate resolves to it if the candidate accepts the call. -/
theorem resolveFunction_single (valid : args.all (·.isValid) = true) {costs : Option (List Cost)}
    (computed : candidateCosts (conversionCost · · false) function (passedArguments args) table =
      .ok costs after)
    (unambiguous : ∀ found, costs = some found → ∀ cost ∈ found, cost.userDefined = .none) :
    resolveFunction candidates (some args) table = .ok (costs.map fun _ => function) after := by
  have hconsidered : [function].foldlM
      (considerCandidate (conversionCost · · false) (passedArguments args)) [] table =
      .ok (costs.map (Viable.mk function)).toList after := by
    rw [List.foldlM_cons, bind_ok (considerCandidate_of_new (calledFunction?_of_function isFunction _) rfl
      ((functionCosts_of_function isFunction _).trans computed))]
    rfl
  refine (resolveOverload_of_viable unique valid hconsidered).trans ?_
  cases costs with
  | none => rfl
  | some found =>
      have hbest : after.bestViable [⟨function, found⟩] = some ⟨function, found⟩ := by
        simp [bestViable]
      have hnone : found.any (·.userDefined == .ambiguous) = false := by
        rw [List.any_eq_false]
        intro cost member
        simp [unambiguous found rfl cost member]
      simp only [Option.map_some, Option.toList_some, judged, List.isEmpty_cons, Bool.false_eq_true,
        if_false, hbest, hnone]
      rfl

/-- A call that resolves has valid arguments, and its only candidate was found to accept it. -/
theorem candidateCosts_of_resolveFunction {found : SymbolId}
    (resolved : resolveFunction candidates (some args) table = .ok (some found) after) :
    args.all (·.isValid) = true ∧ ∃ costs middle,
      candidateCosts (conversionCost · · false) function (passedArguments args) table =
        .ok (some costs) middle := by
  cases hvalid : args.all (·.isValid) with
  | false =>
      have hcall : resolveFunction candidates (some args) table = _ := resolveOverload_of_invalid unique hvalid
      rw [hcall] at resolved
      cases resolved
  | true =>
      refine ⟨rfl, ?_⟩
      cases hcomputed : candidateCosts (conversionCost · · false) function (passedArguments args) table with
      | error interrupt middle =>
          have hcall : resolveFunction candidates (some args) table = .error interrupt middle := by
            refine resolveOverload_of_error unique hvalid ?_
            rw [List.foldlM_cons]
            exact bind_error (considerCandidate_of_error (calledFunction?_of_function isFunction _) isFunction rfl
              hcomputed)
          rw [hcall] at resolved
          cases resolved
      | ok costs middle =>
          cases costs with
          | none =>
              rw [resolveFunction_single unique isFunction hvalid hcomputed (by simp)] at resolved
              cases resolved
          | some costs => exact ⟨costs, middle, rfl⟩

end Single

/-! ## The completed prototype -/

/-- A definition `d` completes the prototype `p` of a function.  Then every call that resolved to the prototype,
with arguments that convert plainly, resolves to the definition if it has default values for the arguments that
the call omits.  Otherwise it resolves to nothing, whatever default values the prototype has. -/
theorem completed_prototype_called (table after : Table) (ends : table.LinksEnd)
    (functionless : table.TypesFunctionless) (limit : table.config.nestingLimit ≠ 0) (scope p d : SymbolId)
    (prototype : (table.symbol p).functionData?.isSome = true) (uncompleted : table.canonical p = p)
    (isFunction : (table.symbol d).isFunction = true)
    (definition : (table.symbol d).functionData?.isSome = true) (differs : p ≠ d)
    (added : addSymbol scope d table = .ok () after) (endsAfter : after.LinksEnd)
    (completed : after.canonical p = d) (args : List Descriptor)
    (given : ∀ arg ∈ passedArguments args, table.Functionless arg)
    (plain : ∀ pair ∈ (passedArguments args).zip (table.signature p), table.ConvertsPlainly pair.1 pair.2)
    (reached : Table) (called : resolveFunction [p] (some args) table = .ok (some p) reached) :
    resolveFunction [p] (some args) after =
      .ok (if after.suppliesRest d (passedArguments args).length then some d else none) after := by
  obtain ⟨hsame, hcall⟩ := completes_of_addSymbol ends functionless isFunction uncompleted differs added
    endsAfter completed
  have hparameters := (Descriptor.sameAll_iff _ _).mp hcall.signature
  have hsignature := hsame.signature_eq ends functionless d
  -- What the call says about the prototype holds of the definition, too.
  obtain ⟨hvalid, accepted, middle, haccepted⟩ := candidateCosts_of_resolveFunction
    (by rw [uniqueCandidates, List.map_singleton, uncompleted]; rfl) prototype called
  obtain ⟨hvalidTypes, hfits⟩ := fits_of_candidateCosts haccepted
  rw [Descriptor.all_isValid_of_bareAll hparameters, ← hsignature] at hvalidTypes
  rw [Descriptor.length_of_bareAll hparameters, hcall.varargs, ← hsignature,
    ← (hsame.heads d).varargs] at hfits
  have hplain : ∀ pair ∈ (passedArguments args).zip (after.signature d),
      after.ConvertsPlainly pair.1 pair.2 := by
    rw [hsignature]
    intro pair member
    have hmembers := List.of_mem_zip (show (pair.1, pair.2) ∈ _ from member)
    exact hsame.convertsPlainly ends functionless (given _ hmembers.1)
      (functionless.signature ends _ hmembers.2) (convertsPlainly_zip hparameters plain pair member)
  obtain ⟨costs, hcosts, hsupplies, hnone⟩ :=
    candidateCosts_plain (hsame.config_eq ▸ limit) hvalidTypes hfits hplain
  have hdefinition := (hsame.functions d).trans definition
  rw [resolveFunction_single (by rw [uniqueCandidates, List.map_singleton, completed]; rfl) hdefinition hvalid
    hcosts hnone, ← hsupplies]
  cases costs <;> rfl

/-! ## A default value that is lost -/

/-- A prototype 1 with a default value for its second parameter, and two definitions of it: 4 has no default
value, and 7 has one. -/
def declarePrototype : List Action :=
  let declare := fun (function : SymbolId) (last : Descriptor) =>
    [Action.perform (.createFunction ⟨17⟩ .function), .perform (.addParameterType function (.ofKind .int)),
      .perform (.addParameterType function last)]
  let optional := (Descriptor.ofKind .int).withDefault (.ofKind .int)
  declare ⟨1⟩ optional ++
    [.addFlags ⟨1⟩ { specifiers := { isForward := true } }, .perform (.addSymbol ⟨0⟩ ⟨1⟩)] ++
    declare ⟨4⟩ (.ofKind .int) ++ declare ⟨7⟩ optional

/-- The table with the prototype, before it is defined. -/
@[irreducible]
def prototypeTable : Table := (Table.new { nestingLimit := 8 }).ran declarePrototype

/-- The table after the prototype got its definition. -/
@[irreducible]
def definedTable (definition : SymbolId) : Table := finalTable prototypeTable (addSymbol ⟨0⟩ definition)

theorem reached_prototypeTable : Reached Action.Joins prototypeTable := by
  rw [prototypeTable]
  exact Reached.ran (.new _) (by decide +kernel)

theorem typesFunctionless_prototypeTable : prototypeTable.TypesFunctionless := by
  have hplain : ∀ x, ((prototypeTable.symbol x).type.link.isNone &&
      (prototypeTable.symbol x).type.memberClasses.isEmpty && (prototypeTable.symbol x).parents.isEmpty) = true :=
    prototypeTable.forall_symbol
      (fun symbol => symbol.type.link.isNone && symbol.type.memberClasses.isEmpty && symbol.parents.isEmpty)
      rfl (by decide +kernel)
  simp only [Bool.and_eq_true, Option.isNone_iff_eq_none, List.isEmpty_iff] at hplain
  refine ⟨fun x => ⟨fun link linked => ?_, fun id member => ?_⟩, fun x link member => ?_⟩
  · simp [(hplain x).1.1] at linked
  · simp [(hplain x).1.2] at member
  · simp [(hplain x).2] at member

/-- The call `f(0)` resolves to the prototype by its default value.  It is lost with the definition 4, and kept
with the definition 7. -/
theorem prototype_default_lost :
    (∃ reached, resolveFunction [⟨1⟩] (some [.ofKind .int]) prototypeTable = .ok (some ⟨1⟩) reached) ∧
      (∀ d ∈ [⟨4⟩, (⟨7⟩ : SymbolId)], addSymbol ⟨0⟩ d prototypeTable = .ok () (definedTable d) ∧
        (definedTable d).canonical ⟨1⟩ = d) ∧
      resolveFunction [⟨1⟩] (some [.ofKind .int]) (definedTable ⟨4⟩) = .ok none (definedTable ⟨4⟩) ∧
      resolveFunction [⟨1⟩] (some [.ofKind .int]) (definedTable ⟨7⟩) =
        .ok (some ⟨7⟩) (definedTable ⟨7⟩) := by
  have hcalled : resolveFunction [⟨1⟩] (some [.ofKind .int]) prototypeTable =
      .ok (some ⟨1⟩) (finalTable prototypeTable (resolveFunction [⟨1⟩] (some [.ofKind .int]))) :=
    eq_ok_of_ending (by decide +kernel)
  have hadded : ∀ d ∈ [⟨4⟩, (⟨7⟩ : SymbolId)],
      addSymbol ⟨0⟩ d prototypeTable = .ok () (definedTable d) := by
    intro d member
    rw [definedTable]
    refine eq_ok_of_ending ?_
    revert d
    decide +kernel
  have hjoins : ∀ d ∈ [⟨4⟩, (⟨7⟩ : SymbolId)],
      Action.Joins prototypeTable (.perform (.addSymbol ⟨0⟩ d)) := by decide +kernel
  have hcompleted : ∀ d ∈ [⟨4⟩, (⟨7⟩ : SymbolId)], (definedTable d).canonical ⟨1⟩ = d := by decide +kernel
  have hresolved : ∀ d ∈ [⟨4⟩, (⟨7⟩ : SymbolId)], resolveFunction [⟨1⟩] (some [.ofKind .int]) (definedTable d) =
      .ok (if (definedTable d).suppliesRest d 1 then some d else none) (definedTable d) := by
    intro d member
    have hreached : Reached Action.Joins (definedTable d) := by
      refine reached_prototypeTable.act (.perform (.addSymbol ⟨0⟩ d)) (hjoins d member) ?_
      have hrun : (Action.perform (.addSymbol ⟨0⟩ d)).run prototypeTable = .ok () (definedTable d) :=
        hadded d member
      rw [Action.after, hrun]
    have hfunction : ∀ d ∈ [⟨4⟩, (⟨7⟩ : SymbolId)], (prototypeTable.symbol d).isFunction = true ∧
        (prototypeTable.symbol d).functionData?.isSome = true ∧ ⟨1⟩ ≠ d := by decide +kernel
    have hplain : ∀ pair ∈ [Descriptor.ofKind .int].zip (prototypeTable.signature ⟨1⟩),
        prototypeTable.ConvertsPlainly pair.1 pair.2 := by
      have hsignature : Descriptor.sameAll [.ofKind .int, .ofKind .int] (prototypeTable.signature ⟨1⟩) = true := by
        decide +kernel
      refine Table.convertsPlainly_zip ((Descriptor.sameAll_iff _ _).mp hsignature) ?_
      intro pair member
      obtain rfl := List.mem_singleton.mp member
      exact ⟨rfl, rfl, _, rfl, rfl⟩
    have hgiven : ∀ arg ∈ [Descriptor.ofKind .int], prototypeTable.Functionless arg := by
      intro arg member
      obtain rfl := List.mem_singleton.mp member
      exact ⟨fun link linked => (nomatch linked), fun id member => (nomatch member)⟩
    exact completed_prototype_called prototypeTable (definedTable d) reached_prototypeTable.calm.linksEnd
      typesFunctionless_prototypeTable (by decide +kernel) ⟨0⟩ ⟨1⟩ d (by decide +kernel) (by decide +kernel)
      (hfunction d member).1 (hfunction d member).2.1 (hfunction d member).2.2 (hadded d member)
      hreached.calm.linksEnd (hcompleted d member) [.ofKind .int] hgiven hplain _ hcalled
  refine ⟨⟨_, hcalled⟩, fun d member => ⟨hadded d member, hcompleted d member⟩, ?_, ?_⟩
  · rw [hresolved ⟨4⟩ (by simp), if_neg (by decide +kernel)]
  · rw [hresolved ⟨7⟩ (by simp), if_pos (by decide +kernel)]

end Analysis

end NameBinding
