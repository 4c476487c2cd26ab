import NameBinding.Proofs.Conversion.BestFunction
import NameBinding.Proofs.Inheritance.Acyclic
import NameBinding.Proofs.Lookup.Outcome
import NameBinding.Proofs.Overload.Prototypes
import NameBinding.Proofs.Traversal

/-!
# Genuine user-defined conversions

A conversion uses at most one user-defined function.  While one is looked for, no other one takes part, and one
that is found is a converting constructor of the target's class, or an instance of a constructor template, that
accepts the source, or a conversion function of the source's class or its bases whose return type converts.

* `Table.conversionFunctions_eq`: which classes conversion functions come from, whether or not bases run in
  circles.
* `TakesPart` and `Accepted`: how a function came to be viable in a call.
* `Genuine`: what a function that converts the source is.

The main statement is `user_defined_conversion_genuine`.
-/

namespace NameBinding

open Relation

namespace Table

variable {table : Table} {id base : SymbolId}

/-! ## The conversion functions of a class -/

/-- Only symbols of the table have bases, so whatever a class derives from is reached within the table. -/
theorem reachedWithin_bases_iff :
    ReachedWithin table.bases table.ids [id] base ↔
      base.index < table.size ∧ ReflTransGen table.Derives id base := by
  constructor
  · intro reached
    refine ⟨mem_ids.mp reached.isFresh, ?_⟩
    induction reached with
    | start given =>
        rw [List.mem_singleton.mp given]
    | step _ edge _ ih => exact ih.tail edge
  · rintro ⟨lt, derives⟩
    induction derives with
    | refl => exact .start (List.mem_singleton_self id) (mem_ids.mpr lt)
    | tail _ derives ih => exact .step (ih derives.lt_size) derives (mem_ids.mpr lt)

/-- The conversion functions of a class are those of the classes that it is or derives from, each of which counts
once, also if its bases run in circles. -/
theorem conversionFunctions_eq (table : Table) (id : SymbolId) :
    ∃ classes : List SymbolId, classes.Nodup ∧
      (∀ base, base ∈ classes ↔ base.index < table.size ∧ ReflTransGen table.Derives id base) ∧
      table.conversionFunctions id = classes.flatMap fun base => (table.symbol base).conversions :=
  ⟨depthFirst table.bases table.ids [id], nodup_depthFirst table.nodup_ids,
    fun _ => mem_depthFirst.trans reachedWithin_bases_iff, rfl⟩

end Table

namespace Analysis

variable {cost : CostFunction} {args : List Descriptor} {candidates : List SymbolId}
  {candidate function : SymbolId} {viable last : List Viable} {source target : Descriptor}
  {table middle after : Table}

/-! ## Candidates that accept a call -/

/-- A candidate takes part in a call as itself, or as the instance that the call deduces for a function
template. -/
inductive TakesPart (args : List Descriptor) (candidate : SymbolId) (table : Table) :
    SymbolId → Table → Prop where
  | itself (isFunction : table.isFunctionTemplate candidate = false) :
      TakesPart args candidate table candidate table
  | asInstance (isTemplate : table.isFunctionTemplate candidate = true) {deduced : List Descriptor}
      (deduces : table.deduceCall candidate args = some deduced) {made : SymbolId} {after : Table}
      (makes : instantiate candidate deduced table = .ok made after) :
      TakesPart args candidate table made after

theorem attempt_eq_ok {α : Type} {step : Analysis α} {value : α} :
    attempt step table = .ok (.ok value) after ↔ step table = .ok value after := by
  rw [attempt]
  cases step table with
  | ok found reached => simp
  | error interrupt reached => cases interrupt <;> simp

theorem takesPart_of_calledFunction? (called : calledFunction? candidate args table = .ok (some function) after) :
    TakesPart args candidate table function after := by
  rw [calledFunction?, get_bind] at called
  cases htemplate : table.isFunctionTemplate candidate with
  | false =>
      rw [htemplate] at called
      cases called
      exact .itself htemplate
  | true =>
      rw [htemplate, if_pos rfl, deducedInstance?, get_bind] at called
      cases hdeduced : table.deduceCall candidate args with
      | none =>
          simp only [hdeduced] at called
          cases called
      | some deduced =>
          simp only [hdeduced] at called
          obtain ⟨outcome, middle, houtcome, hmade⟩ := bind_eq_ok.mp called
          cases outcome with
          | ok made =>
              cases hmade
              exact .asInstance htemplate hdeduced (attempt_eq_ok.mp houtcome)
          | error error => cases error <;> cases hmade

/-- In a call with these candidates, a candidate takes part with a function that accepts the arguments at these
costs, once the candidates before it have been considered. -/
inductive Accepted (cost : CostFunction) (args : List Descriptor) (candidates : List SymbolId) (table : Table) :
    SymbolId → SymbolId → List Cost → Prop where
  | intro {candidate function : SymbolId} {costs : List Cost} {before rest : List SymbolId} {viable : List Viable}
      {middle called after : Table} (listed : candidates = before ++ candidate :: rest)
      (considered : before.foldlM (considerCandidate cost args) [] table = .ok viable middle)
      (takesPart : TakesPart args candidate middle function called)
      (accepts : candidateCosts cost function args called = .ok (some costs) after) :
      Accepted cost args candidates table candidate function costs

/-- Considering a candidate adds at most the function that it takes part with. -/
theorem considerCandidate_ok (considered : considerCandidate cost args viable candidate table = .ok last after) :
    last = viable ∨ ∃ function costs called, TakesPart args candidate table function called ∧
      candidateCosts cost function args called = .ok (some costs) after ∧
        last = viable ++ [⟨function, costs⟩] := by
  obtain ⟨found, called, hcalled, hrest⟩ := bind_eq_ok.mp considered
  cases found with
  | none =>
      cases hrest
      exact .inl rfl
  | some function =>
      change (if (called.symbol function).functionData?.isNone || viable.any (·.function == function)
        then pure viable else _ : Analysis (List Viable)) called = .ok last after at hrest
      split at hrest
      · cases hrest
        exact .inl rfl
      · obtain ⟨costs, reached, hcosts, hadded⟩ := bind_eq_ok.mp hrest
        cases costs with
        | none =>
            cases hadded
            exact .inl rfl
        | some costs =>
            cases hadded
            exact .inr ⟨function, costs, called, takesPart_of_calledFunction? hcalled, hcosts, rfl⟩

/-- What is viable after some candidates was so before them, or came with one of them. -/
theorem mem_of_foldlM_considerCandidate
    (considered : candidates.foldlM (considerCandidate cost args) viable table = .ok last after) {entry : Viable}
    (member : entry ∈ last) :
    entry ∈ viable ∨ ∃ before candidate rest earlier middle called reached,
      candidates = before ++ candidate :: rest ∧
      before.foldlM (considerCandidate cost args) viable table = .ok earlier middle ∧
      TakesPart args candidate middle entry.function called ∧
      candidateCosts cost entry.function args called = .ok (some entry.costs) reached := by
  induction candidates generalizing viable table with
  | nil =>
      cases considered
      exact .inl member
  | cons candidate rest ih =>
      rw [List.foldlM_cons] at considered
      obtain ⟨next, middle, hnext, hrest⟩ := bind_eq_ok.mp considered
      rcases ih hrest with hearlier | ⟨before, other, others, earlier, reached, called, final, hlisted, hbefore,
          htakes, haccepts⟩
      · rcases considerCandidate_ok hnext with rfl | ⟨function, costs, called, htakes, haccepts, rfl⟩
        · exact .inl hearlier
        · rcases List.mem_append.mp hearlier with hviable | hadded
          · exact .inl hviable
          · right
            rw [List.mem_singleton.mp hadded]
            exact ⟨[], candidate, rest, viable, table, called, middle, rfl, rfl, htakes, haccepts⟩
      · refine .inr ⟨candidate :: before, other, others, earlier, reached, called, final, by rw [hlisted]; rfl, ?_,
          htakes, haccepts⟩
        rw [List.foldlM_cons]
        exact bind_eq_ok.mpr ⟨next, middle, hnext, hbefore⟩

/-- The best of the viable candidates is one of them. -/
theorem mem_of_bestViable {winner : Viable} (best : table.bestViable viable = some winner) : winner ∈ viable := by
  cases viable with
  | nil => cases best
  | cons first rest =>
      rw [Table.bestViable_cons] at best
      split at best
      · cases best
        exact champion_mem _ _ _
      · cases best

/-- A call is judged to be one of a viable candidate. -/
theorem mem_of_judged (judges : judged table viable = some (some function)) :
    ∃ winner ∈ viable, winner.function = function := by
  rw [judged] at judges
  split at judges
  · cases judges
  · cases hbest : table.bestViable viable with
    | none =>
        simp only [hbest] at judges
        cases judges
    | some winner =>
        simp only [hbest] at judges
        split at judges
        · cases judges
        · cases judges
          exact ⟨winner, mem_of_bestViable hbest, rfl⟩

/-- The function that a call resolves to accepts it. -/
theorem accepted_of_resolveOverload
    (resolves : resolveOverload cost candidates args table = .ok (some function) after) :
    ∃ candidate costs, Accepted cost (passedArguments args) (table.uniqueCandidates candidates) table candidate
      function costs := by
  cases hunique : table.uniqueCandidates candidates with
  | nil =>
      rw [resolveOverload_of_none hunique] at resolves
      cases resolves
  | cons first rest =>
      cases hvalid : args.all (·.isValid) with
      | false =>
          rw [resolveOverload_of_invalid hunique hvalid] at resolves
          cases resolves
      | true =>
          cases hconsidered :
              (first :: rest).foldlM (considerCandidate cost (passedArguments args)) [] table with
          | error interrupt middle =>
              rw [resolveOverload_of_error hunique hvalid hconsidered] at resolves
              cases resolves
          | ok viable middle =>
              rw [resolveOverload_of_viable hunique hvalid hconsidered] at resolves
              have hjudged : judged middle viable = some (some function) := by
                cases hverdict : judged middle viable with
                | none =>
                    rw [hverdict] at resolves
                    cases resolves
                | some answer =>
                    rw [hverdict] at resolves
                    cases resolves
                    rfl
              obtain ⟨winner, hwinner, hfunction⟩ := mem_of_judged hjudged
              rcases mem_of_foldlM_considerCandidate hconsidered hwinner with himpossible | ⟨before, candidate,
                others, earlier, reached, called, final, hlisted, hbefore, htakes, haccepts⟩
              · exact absurd himpossible List.not_mem_nil
              · rw [← hfunction, hlisted]
                exact ⟨candidate, winner.costs, .intro rfl hbefore htakes haccepts⟩

/-- A single argument that is accepted has one cost, which is a match. -/
theorem single_of_candidateCosts {costs : List Cost}
    (accepts : candidateCosts cost function [source] table = .ok (some costs) after) :
    ∃ single, costs = [single] ∧ single.isMatch = true := by
  have hcosts : argumentCosts cost [source] (table.signature function) table = .ok (some costs) after := by
    rw [candidateCosts, get_bind] at accepts
    split at accepts
    · cases accepts
    · split at accepts
      · cases accepts
      · split at accepts
        · cases accepts
        · exact accepts
  rw [argumentCosts_cons] at hcosts
  obtain ⟨single, middle, -, hrest⟩ := bind_eq_ok.mp hcosts
  split at hrest
  · cases hrest
  · rename_i matched
    cases hrest
    exact ⟨single, rfl, by simpa using matched⟩

end Analysis

/-! ## The function that converts -/

/-- The constructors that may convert something to the type. -/
def Table.candidateConstructors (table : Table) (target : Descriptor) : List SymbolId :=
  ((table.classType? (table.flattenType target).stripReference).map table.convertingConstructors).getD []

/-- What comes of the constructors and the conversion functions together. -/
def UserDefined.together : Option SymbolId → UserDefined → UserDefined
  | some constructor, .none => .function constructor
  | some _, _ => .ambiguous
  | Option.none, conversion => conversion

namespace Analysis

variable {candidates : List SymbolId} {function : SymbolId} {source target : Descriptor} {outcome : UserDefined}
  {through : Option SymbolId} {cost : Cost} {table middle after : Table}

/-- Try the constructors of the target's class. -/
def throughConstructor (source target : Descriptor) : Analysis (Option SymbolId) := do
  let table ← get
  resolveOverload (conversionCost · · true) (table.candidateConstructors target) [source]

/-- Try the conversion functions of the class that a type names. -/
def throughConversion (start target : Descriptor) : Analysis UserDefined := do
  let table ← get
  match table.classType? start with
  | some id => bestConversionFunction id target
  | none => pure .none

/-- Constructors are tried first, and conversion functions next. -/
theorem userDefinedConversion_of_constructor
    (tried : throughConstructor source target table = .ok through middle) :
    userDefinedConversion source target table = (do
      let conversion ← throughConversion (table.flattenType source).stripReference target
      pure (UserDefined.together through conversion) : Analysis UserDefined) middle := by
  have htried : attempt (resolveOverload nestedCost (table.candidateConstructors target) [source]) table =
      .ok (.ok through) middle := by
    rw [throughConstructor, get_bind] at tried
    rw [attempt_eq_ok, ← tried]
    simp only [conversionCost_nested]
  rw [userDefinedConversion, get_bind]
  refine (bind_ok htried).trans ?_
  rw [throughConversion, bind_assoc, get_bind]
  refine (get_bind _ middle).trans ?_
  cases middle.classType? (table.flattenType source).stripReference with
  | none => cases through <;> rfl
  | some id =>
      refine congrArg (fun next => (bestConversionFunction id target >>= next) middle)
        (funext fun conversion => ?_)
      cases through <;> cases conversion <;> rfl

/-- Whatever a user-defined conversion ends with but an ambiguity was found so. -/
theorem userDefinedConversion_ok (ends : userDefinedConversion source target table = .ok outcome after)
    (unambiguous : outcome ≠ .ambiguous) :
    ∃ through middle conversion, throughConstructor source target table = .ok through middle ∧
      throughConversion (table.flattenType source).stripReference target middle = .ok conversion after ∧
      outcome = UserDefined.together through conversion := by
  cases htried : throughConstructor source target table with
  | ok through middle =>
      rw [userDefinedConversion_of_constructor htried] at ends
      obtain ⟨conversion, reached, hconversion, hends⟩ := bind_eq_ok.mp ends
      cases hends
      exact ⟨through, middle, conversion, rfl, hconversion, rfl⟩
  | error interrupt middle =>
      rw [throughConstructor, get_bind] at htried
      simp only [conversionCost_nested] at htried
      rw [userDefinedConversion, get_bind] at ends
      obtain ⟨result, reached, hresult, hends⟩ := bind_eq_ok.mp ends
      cases result with
      | ok through => cases htried.symm.trans (attempt_eq_ok.mp hresult)
      | error error =>
          cases error with
          | ambiguous =>
              cases hends
              exact absurd rfl unambiguous
          | _ => cases hends

/-- What a function is that converts the source to the target, from the table in which the two were resolved. -/
inductive Genuine (source target : Descriptor) (table : Table) (function : SymbolId) : Prop where
  /-- It is a constructor of the target's class that is not explicit, or an instance of one that is a template,
  and it accepts the source. -/
  | constructor {id constructor : SymbolId} {cost : Cost}
      (names : table.classType? (table.flattenType target).stripReference = some id)
      (registered : constructor ∈ (table.symbol id).constructors)
      (converting : (table.symbol constructor).type.flags.specifiers.isExplicit = false)
      (accepted : Accepted (conversionCost · · true) [source]
        (table.uniqueCandidates (table.convertingConstructors id)) table (table.canonical constructor) function
        [cost])
      (matched : cost.isMatch = true)
  /-- No constructor accepts the source, and it is a conversion function of the source's class or of a base of
  this one, and its return type converts to the target. -/
  | conversion {id base : SymbolId} {middle reached after : Table} {before rest : List SymbolId}
      {survey : List (SymbolId × Option Cost)} {type : Descriptor} {cost : Cost}
      (unconstructed : throughConstructor source target table = .ok none middle)
      (names : middle.classType? (table.flattenType source).stripReference = some id)
      (derives : ReflTransGen middle.Derives id base)
      (registered : function ∈ (middle.symbol base).conversions)
      (listed : middle.conversionFunctions id = before ++ function :: rest)
      (surveyed : surveyConversions target before middle = .ok survey reached)
      (returns : (reached.symbol function).returnType = some type)
      (converts : conversionCost type target true reached = .ok cost after)
      (matched : cost.isMatch = true)

/-- A constructor that is found is genuine. -/
theorem genuine_of_throughConstructor (notVoid : source.isPlainVoid = false)
    (found : throughConstructor source target table = .ok (some function) middle) :
    Genuine source target table function := by
  rw [throughConstructor, get_bind] at found
  obtain ⟨candidate, costs, haccepted⟩ := accepted_of_resolveOverload found
  have hpassed : passedArguments [source] = [source] := by
    simp [passedArguments, notVoid]
  rw [hpassed] at haccepted
  have hcandidate : candidate ∈ table.uniqueCandidates (table.candidateConstructors target) := by
    cases haccepted with
    | intro listed => simp [listed]
  obtain ⟨constructor, hlisted, rfl⟩ := Table.mem_uniqueCandidates.mp hcandidate
  obtain ⟨cost, rfl, hmatch⟩ : ∃ cost, costs = [cost] ∧ cost.isMatch = true := by
    cases haccepted with
    | intro _ _ _ accepts => exact single_of_candidateCosts accepts
  cases hclass : table.classType? (table.flattenType target).stripReference with
  | none => simp [Table.candidateConstructors, hclass] at hlisted
  | some id =>
      rw [Table.candidateConstructors, hclass, Option.map_some, Option.getD_some] at haccepted hlisted
      obtain ⟨hregistered, hconverting⟩ := List.mem_filter.mp hlisted
      exact .constructor hclass hregistered (by simpa using hconverting) haccepted hmatch

/-- A conversion function that is found is genuine. -/
theorem genuine_of_throughConversion (unconstructed : throughConstructor source target table = .ok none middle)
    (found : throughConversion (table.flattenType source).stripReference target middle =
      .ok (.function function) after) : Genuine source target table function := by
  rw [throughConversion, get_bind] at found
  cases hclass : middle.classType? (table.flattenType source).stripReference with
  | none =>
      simp only [hclass] at found
      cases found
  | some id =>
      simp only [hclass] at found
      rw [bestConversionFunction_apply] at found
      obtain ⟨survey, reached, hsurvey, hchosen⟩ := bind_eq_ok.mp found
      have hdecides := Contest.decides_foldl _ (regular_of_survey hsurvey)
      obtain ⟨houtcome, rfl⟩ := EStateM.Result.ok.inj hchosen
      obtain ⟨cost, others, hperm, -⟩ := (hdecides.function function).mp houtcome
      obtain ⟨hmember, hmatch⟩ := mem_matchingConversions.mp (hperm.mem_iff.mpr List.mem_cons_self)
      obtain ⟨before, rest, earlier, reached, last, hlisted, hearlier, hfound⟩ :=
        exists_of_mem_survey hsurvey hmember
      obtain ⟨classes, -, hclasses, hfunctions⟩ := middle.conversionFunctions_eq id
      have hfunction : function ∈ middle.conversionFunctions id := by
        simp [hlisted]
      rw [hfunctions, List.mem_flatMap] at hfunction
      obtain ⟨base, hbase, hregistered⟩ := hfunction
      rcases conversionOf_ok hfound with ⟨-, himpossible, -⟩ | ⟨type, found, hreturn, hcost, hsame⟩
      · cases himpossible
      · cases hsame
        exact .conversion unconstructed hclass ((hclasses base).mp hbase).2 hregistered hlisted hearlier hreturn
          hcost hmatch

/-- A function that is found to convert the source is genuine. -/
theorem genuine_of_userDefinedConversion (notVoid : source.isPlainVoid = false)
    (ends : userDefinedConversion source target table = .ok (.function function) after) :
    Genuine source target table function := by
  obtain ⟨through, middle, conversion, htried, hconversion, htogether⟩ := userDefinedConversion_ok ends nofun
  cases through with
  | none =>
      rw [UserDefined.together] at htogether
      subst htogether
      exact genuine_of_throughConversion htried hconversion
  | some constructor =>
      cases conversion with
      | none =>
          cases htogether
          exact genuine_of_throughConstructor notVoid htried
      | _ => cases htogether

/-- While a user-defined function is looked for, no other one takes part. -/
theorem rank_nested_ne_userDefined (converted : conversionCost source target true table = .ok cost after) :
    cost.rank ≠ .userDefined := by
  rw [conversionCost_nested] at converted
  obtain ⟨_, _, _, -, -, hstandard⟩ := nestedCost_ok converted
  rw [Table.standardCost_eq_rankedCost] at hstandard
  exact (Table.Ranked.of_rankedCost hstandard).rank_ne_userDefined rfl

/-- A conversion uses at most one user-defined function, and a genuine one.  While such a function is looked
for, no other one takes part.  One that is found is a converting constructor, or an instance of one that is a
template, which accepts the source, or else a conversion function whose return type converts to the target.  If a
constructor and a conversion function both apply, the conversion is ambiguous.  The search for conversion
functions comes to each class that the source's class is or derives from once, also if bases run in circles. -/
theorem user_defined_conversion_genuine (table : Table) (source target : Descriptor)
    (notVoid : source.isPlainVoid = false) :
    (∀ cost after, conversionCost source target true table = .ok cost after → cost.rank ≠ .userDefined) ∧
    (∀ cost after function, conversionCost source target false table = .ok cost after →
      cost.rank = .userDefined → cost.userDefined = .function function →
        ∃ standard resolved, conversionCost source target true table = .ok standard resolved ∧
          standard.isMatch = false ∧ Genuine source target resolved function) ∧
    (∀ standard resolved constructor middle conversion after,
      conversionCost source target true table = .ok standard resolved →
      standard.isMatch = false → standard.bindsTemporary = true →
      throughConstructor source target resolved = .ok (some constructor) middle →
      throughConversion (resolved.flattenType source).stripReference target middle = .ok conversion after →
      conversion ≠ .none →
        conversionCost source target false table =
          .ok { standard with rank := .userDefined, userDefined := .ambiguous } after) ∧
    ∀ id, ∃ classes : List SymbolId, classes.Nodup ∧
      (∀ base, base ∈ classes ↔ base.index < table.size ∧ ReflTransGen table.Derives id base) ∧
      table.conversionFunctions id = classes.flatMap fun base => (table.symbol base).conversions := by
  refine ⟨fun cost after converted => ?nested, fun cost after function converted user through => ?genuine,
    fun standard resolved constructor middle conversion after converted fails binds constructed found some =>
      ?both, table.conversionFunctions_eq⟩
  case nested => exact rank_nested_ne_userDefined converted
  case genuine =>
    obtain ⟨standard, resolved, hnested, hends⟩ := bind_eq_ok.mp converted
    rw [← conversionCost_nested] at hnested
    split at hends
    · cases hends
      exact absurd user (rank_nested_ne_userDefined hnested)
    · rename_i unsettled
      simp only [Bool.or_false, Bool.or_eq_true, not_or, Bool.not_eq_true] at unsettled
      obtain ⟨found, reached, hfound, hcost⟩ := bind_eq_ok.mp hends
      cases found with
      | none =>
          cases hcost
          exact absurd user (rank_nested_ne_userDefined hnested)
      | ambiguous =>
          cases hcost
          cases through
      | function other =>
          cases hcost
          cases through
          exact ⟨standard, resolved, hnested, unsettled.1, genuine_of_userDefinedConversion notVoid hfound⟩
  case both =>
    have hambiguous : userDefinedConversion source target resolved = .ok .ambiguous after := by
      rw [userDefinedConversion_of_constructor constructed, bind_ok found]
      cases conversion with
      | none => exact absurd rfl some
      | _ => rfl
    rw [conversionCost_nested] at converted
    rw [conversionCost, bind_ok converted, fails, binds]
    exact bind_ok hambiguous

/-! ## A run -/

/-- A class 1, classes 2 and 3 that derive from each other, and a class 8 made from int by the constructor 9.  The
class 1 is made from the class 3 by the constructor 4.  The class 2 is converted to the class 1 by the function 6,
and to int by the function 7. -/
def circularClasses : Table :=
  finalTable (Table.new { nestingLimit := 8 }) do
    let goal ← createClass ⟨18⟩ .struct
    let first ← createClass ⟨19⟩ .struct
    let second ← createClass ⟨20⟩ .struct
    addParent second first .pub false
    addParent first second .pub false
    declareConstructor goal (.ofSymbol second)
    declareConversion first (.ofSymbol goal)
    declareConversion first (.ofKind .int)
    let number ← createClass ⟨21⟩ .struct
    declareConstructor number (.ofKind .int)

/-- The cost of an object of the class 3 for a parameter of its type. -/
def exactClassCost : Cost := { Cost.unranked (.ofSymbol ⟨3⟩) (.ofSymbol ⟨3⟩) with rank := .identity }

theorem throughConstructor_circularClasses :
    throughConstructor (.ofSymbol ⟨3⟩) (.ofSymbol ⟨1⟩) circularClasses = .ok (some ⟨4⟩) circularClasses := by
  have hunique :
      circularClasses.uniqueCandidates (circularClasses.candidateConstructors (.ofSymbol ⟨1⟩)) = [⟨4⟩] := by
    cbv
  have hconsidered : [⟨4⟩].foldlM
      (considerCandidate (conversionCost · · true) (passedArguments [.ofSymbol ⟨3⟩])) [] circularClasses =
        .ok [⟨⟨4⟩, [exactClassCost]⟩] circularClasses := by
    cbv
  have hjudged : judged circularClasses [⟨⟨4⟩, [exactClassCost]⟩] = some (some ⟨4⟩) := by cbv
  rw [throughConstructor, get_bind, resolveOverload_of_viable hunique rfl hconsidered, hjudged]
  rfl

theorem throughConstructor_to_int :
    throughConstructor (.ofSymbol ⟨3⟩) (.ofKind .int) circularClasses = .ok none circularClasses := by
  have hunique : circularClasses.uniqueCandidates (circularClasses.candidateConstructors (.ofKind .int)) = [] := by
    cbv
  rw [throughConstructor, get_bind, resolveOverload_of_none hunique]

/-- The conversion function that the class 3 is converted to the type by. -/
def FoundFor (target : Descriptor) (function : SymbolId) : Prop :=
  throughConversion (circularClasses.flattenType (.ofSymbol ⟨3⟩)).stripReference target circularClasses =
    .ok (.function function) circularClasses

/-- The class 3 is converted to int by a function of its base, although its bases run in circles.  It would be
converted to the class 1 by another one and by a constructor, which is ambiguous.  An int is converted to the
class 8 by a constructor. -/
theorem class_in_circle_converted :
    (∃ resolved, conversionCost (.ofSymbol ⟨3⟩) (.ofKind .int) false circularClasses =
        .ok { Cost.unranked (.ofSymbol ⟨3⟩) (.ofKind .int) with
          rank := .userDefined, userDefined := .function ⟨7⟩ } circularClasses ∧
      Genuine (.ofSymbol ⟨3⟩) (.ofKind .int) resolved ⟨7⟩) ∧
    conversionCost (.ofSymbol ⟨3⟩) (.ofSymbol ⟨1⟩) false circularClasses =
      .ok { Cost.unranked (.ofSymbol ⟨3⟩) (.ofSymbol ⟨1⟩) with
        rank := .userDefined, userDefined := .ambiguous } circularClasses ∧
    ∃ cost after resolved, conversionCost (.ofKind .int) (.ofSymbol ⟨8⟩) false circularClasses = .ok cost after ∧
      cost.userDefined = .function ⟨9⟩ ∧ Genuine (.ofKind .int) (.ofSymbol ⟨8⟩) resolved ⟨9⟩ := by
  have htoInt : FoundFor (.ofKind .int) ⟨7⟩ := by cbv
  have htoClass : FoundFor (.ofSymbol ⟨1⟩) ⟨6⟩ := by cbv
  have hnestedInt : conversionCost (.ofSymbol ⟨3⟩) (.ofKind .int) true circularClasses =
      .ok (.unranked (.ofSymbol ⟨3⟩) (.ofKind .int)) circularClasses := by cbv
  have hnestedClass : conversionCost (.ofSymbol ⟨3⟩) (.ofSymbol ⟨1⟩) true circularClasses =
      .ok (.unranked (.ofSymbol ⟨3⟩) (.ofSymbol ⟨1⟩)) circularClasses := by cbv
  refine ⟨?int, ?ambiguous, ?number⟩
  case int =>
    have hfound : userDefinedConversion (.ofSymbol ⟨3⟩) (.ofKind .int) circularClasses =
        .ok (.function ⟨7⟩) circularClasses := by
      rw [userDefinedConversion_of_constructor throughConstructor_to_int, bind_ok htoInt]
      rfl
    have hcost : conversionCost (.ofSymbol ⟨3⟩) (.ofKind .int) false circularClasses =
        .ok { Cost.unranked (.ofSymbol ⟨3⟩) (.ofKind .int) with
          rank := .userDefined, userDefined := .function ⟨7⟩ } circularClasses := by
      rw [conversionCost_nested] at hnestedInt
      rw [conversionCost, bind_ok hnestedInt]
      exact bind_ok hfound
    obtain ⟨-, hgenuine, -⟩ := user_defined_conversion_genuine circularClasses (.ofSymbol ⟨3⟩) (.ofKind .int) rfl
    obtain ⟨_, resolved, -, -, hfunction⟩ := hgenuine _ _ ⟨7⟩ hcost rfl rfl
    exact ⟨resolved, hcost, hfunction⟩
  case ambiguous =>
    obtain ⟨-, -, hboth, -⟩ :=
      user_defined_conversion_genuine circularClasses (.ofSymbol ⟨3⟩) (.ofSymbol ⟨1⟩) rfl
    exact hboth _ _ ⟨4⟩ _ _ _ hnestedClass rfl rfl throughConstructor_circularClasses htoClass (by decide)
  case number =>
    have huses : endsPassing (usesFunction ⟨9⟩)
        (conversionCost (.ofKind .int) (.ofSymbol ⟨8⟩) false circularClasses) = true := by decide +kernel
    obtain ⟨cost, after, hcost, hrank, hused⟩ := exists_of_usesFunction huses
    obtain ⟨-, hgenuine, -⟩ := user_defined_conversion_genuine circularClasses (.ofKind .int) (.ofSymbol ⟨8⟩) rfl
    obtain ⟨_, resolved, -, -, hfunction⟩ := hgenuine cost after ⟨9⟩ hcost hrank hused
    exact ⟨cost, after, resolved, hcost, hused, hfunction⟩

end Analysis

end NameBinding
