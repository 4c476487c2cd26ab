import NameBinding.Proofs.Conversion.GenuineFunction
import NameBinding.Proofs.Operation.Repetition
import NameBinding.Proofs.Overload.Renaming
import NameBinding.Proofs.Overload.Ties

/-!
# The order of candidates

A call goes through its candidates in the order in which they are given.  Which one wins does not depend on the order,
but the numbers of the instances that are made on the way do.

* `Underway`: what holds between two candidates, with `Underway.consider` for one candidate and `Underway.run` for all
  of them.
* `Reordered` and `SameOutcome`: a call that is made twice, and that it ends alike but for the numbers.
* `Reordered.tiesAgree`: ties come out the same where they are settled when the calls start.

The main statement is `resolution_order_irrelevant`.  The runs at the end show that both the numbers and the ties can
depend on the order.
-/

namespace NameBinding

namespace Analysis

variable {cost : CostFunction} {assessment : Assessment} {args : List Descriptor} {candidate function : SymbolId}
  {candidates rest : List SymbolId} {viable : List Viable} {before now : Table}

/-! ## What a call keeps -/

theorem keeps_functionCosts {inv : Table → Prop} (costs : ∀ source target, Keeps inv (cost source target)) :
    Keeps inv (functionCosts cost function args) := by
  refine Yields.read fun table _ => ?_
  split
  · exact Yields.pure trivial
  · exact keeps_candidateCosts costs function args

/-- Between two candidates of a call that started in `before`: no instantiation is running, origins are settled, and
what is viable is a function. -/
structure Underway (before now : Table) (viable : List Viable) : Prop where
  idle : now.Idle
  origins : before.Origins now
  functions : ∀ entry ∈ viable, (now.symbol entry.function).functionData?.isSome = true

/-- A step of a call that only makes instances. -/
theorem Underway.keeps {α : Type} {step : Analysis α} {after : Table} {value : α}
    (underway : Underway before now viable) (calm : before.Calm)
    (keeps : ∀ {inv}, InstantiationKeeps inv → Keeps inv step) (ends : step now = .ok value after) :
    Underway before after viable ∧ now.Grows after := by
  have horigins := (keeps (Table.Origins.outlasts calm).instantiationKeeps).ends_ok
    ⟨underway.idle, underway.origins⟩ ends
  have hgrowth := (keeps Growth.instantiationKeeps).ends_ok ⟨underway.idle, .refl now⟩ ends
  refine ⟨⟨horigins.1, horigins.2, fun entry member => ?_⟩, hgrowth.grows⟩
  exact hgrowth.grows.isSome_functionData? (underway.functions entry member)

/-- A candidate takes part as itself or as an instance that it remembers. -/
theorem Underway.takesPart {after : Table} (underway : Underway before now viable) (calm : before.Calm)
    (lt : candidate.index < before.size) (entity : before.canonical candidate = candidate)
    (takes : TakesPart args candidate now function after) :
    (before.isFunctionTemplate candidate = false → function = candidate) ∧
      (before.isFunctionTemplate candidate = true → after.Knows candidate function) := by
  have hgrows := underway.origins.grows
  rw [← hgrows.isFunctionTemplate_eq calm.represented lt]
  cases takes with
  | itself isFunction =>
      rw [isFunction]
      exact ⟨fun _ => rfl, Bool.noConfusion⟩
  | asInstance isTemplate _ makes =>
      have hknows := knows_instantiateWithin_idle underway.idle makes
      rw [hgrows.canonical_eq calm lt, entity] at hknows
      rw [isTemplate]
      exact ⟨Bool.noConfusion, fun _ => hknows⟩

/-- What is viable is a function. -/
theorem Underway.listed {after : Table} (underway : Underway before now viable) (grows : now.Grows after)
    (listed : viable.any (·.function == function) = true) :
    (after.symbol function).functionData?.isSome = true := by
  obtain ⟨entry, member, hsame⟩ := List.any_eq_true.mp listed
  rw [← eq_of_beq hsame]
  exact grows.isSome_functionData? (underway.functions entry member)

/-- What has costs is a function. -/
theorem isFunction_of_costs {after : Table} {costs : List Cost}
    (computed : functionCosts cost function args now = .ok (some costs) after) :
    (now.symbol function).functionData?.isSome = true := by
  rw [functionCosts, get_bind] at computed
  cases hdata : (now.symbol function).functionData? with
  | none =>
      rw [hdata] at computed
      cases computed
  | some data => rfl

section Runs

variable (calm : before.Calm)
  (converts : ∀ {inv}, InstantiationKeeps inv → ∀ source target, Keeps inv (cost source target))

include calm converts

/-- One candidate of a call. -/
theorem Underway.consider (underway : Underway before now viable) (lt : candidate.index < before.size)
    (entity : before.canonical candidate = candidate) {after : Table}
    (considered : Considered cost args assessment viable candidate now after) :
    Underway before after (assessment.collect viable candidate) ∧ now.Grows after ∧
      ∀ function costs, assessment.called candidate = some function →
        assessment.costs function = some costs → before.Took after candidate function := by
  have hcalled : ∀ {found last}, calledFunction? candidate args now = .ok found last →
      Underway before last viable ∧ now.Grows last :=
    underway.keeps calm fun instantiates => keeps_calledFunction? instantiates candidate args
  cases considered with
  | nothing found called =>
      obtain ⟨hafter, hgrows⟩ := hcalled called
      rw [Assessment.collect_of_none found]
      refine ⟨hafter, hgrows, fun function costs took => ?_⟩
      rw [found] at took
      cases took
  | listed found called known =>
      obtain ⟨hafter, hgrows⟩ := hcalled called
      obtain ⟨hitself, hinstance⟩ := underway.takesPart calm lt entity (takesPart_of_calledFunction? called)
      rw [Assessment.collect_of_listed found known]
      refine ⟨hafter, hgrows, fun function costs took _ => ?_⟩
      cases found.symm.trans took
      exact ⟨underway.listed hgrows known, hitself, hinstance⟩
  | @new function middle _ found called unknown computed =>
      obtain ⟨hmiddle, hgrows⟩ := hcalled called
      obtain ⟨hitself, hinstance⟩ := underway.takesPart calm lt entity (takesPart_of_calledFunction? called)
      obtain ⟨hafter, hlater⟩ := hmiddle.keeps calm
        (fun instantiates => keeps_functionCosts (converts instantiates)) computed
      have hfunction : ∀ costs, assessment.costs function = some costs →
          (after.symbol function).functionData?.isSome = true := by
        intro costs known
        rw [known] at computed
        exact hlater.isSome_functionData? (isFunction_of_costs computed)
      rw [Assessment.collect_of_new found unknown]
      refine ⟨⟨hafter.idle, hafter.origins, fun entry member => ?_⟩, hgrows.trans hlater,
        fun other costs took known => ?_⟩
      · rcases List.mem_append.mp member with old | new
        · exact hafter.functions entry old
        · obtain ⟨costs, hcosts, rfl⟩ := Option.map_eq_some_iff.mp (Option.mem_toList.mp new)
          exact hfunction costs hcosts
      · cases found.symm.trans took
        exact ⟨hfunction costs known, hitself, fun isTemplate => hlater.knows (hinstance isTemplate)⟩

/-- All candidates of a call, from the first one to the last one. -/
theorem Underway.run (underway : Underway before now viable)
    (entities : ∀ candidate ∈ candidates, candidate.index < before.size ∧ before.canonical candidate = candidate)
    (assesses : Assesses cost args assessment candidates viable now) :
    ∃ last, candidates.foldlM (considerCandidate cost args) viable now =
        .ok (candidates.foldl assessment.collect viable) last ∧
      before.Origins last ∧ now.Grows last ∧
      ∀ candidate ∈ candidates, ∀ function costs, assessment.called candidate = some function →
        assessment.costs function = some costs → before.Took last candidate function := by
  induction candidates generalizing viable now with
  | nil =>
      exact ⟨now, rfl, underway.origins, .refl now, fun _ member => absurd member List.not_mem_nil⟩
  | cons candidate rest ih =>
      obtain ⟨hlt, hentity⟩ := entities candidate List.mem_cons_self
      obtain ⟨after, hconsidered, hlater⟩ := assesses.head
      obtain ⟨hafter, hgrows, htook⟩ := underway.consider calm converts hlt hentity hconsidered
      obtain ⟨last, hlast, horigins, hrest, htookLater⟩ :=
        ih hafter (fun other member => entities other (List.mem_cons_of_mem candidate member)) hlater
      refine ⟨last, ?_, horigins, hgrows.trans hrest, fun other member function costs called known => ?_⟩
      · rw [List.foldlM_cons, bind_ok hconsidered.ends]
        exact hlast
      · rcases List.mem_cons.mp member with rfl | later
        · exact (htook function costs called known).grows hrest
        · exact htookLater other later function costs called known

end Runs

/-! ## Whole calls -/

section Calls

variable {table : Table}

/-- A call goes through entities of the table. -/
theorem entity_of_uniqueCandidates (calm : table.Calm)
    (within : ∀ candidate ∈ candidates, candidate.index < table.size) {entity : SymbolId}
    (member : entity ∈ table.uniqueCandidates candidates) :
    entity.index < table.size ∧ table.canonical entity = entity := by
  obtain ⟨candidate, hcandidate, rfl⟩ := Table.mem_uniqueCandidates.mp member
  exact ⟨calm.represented.canonical_lt (within candidate hcandidate), calm.linksEnd.canonical_canonical candidate⟩

/-- In the table in which a call ends, origins are settled, and every viable candidate took part as itself or as an
instance that it remembers. -/
theorem CallAssessed.took (assessed : CallAssessed assessment table candidates args) (calm : table.Calm)
    (within : ∀ candidate ∈ candidates, candidate.index < table.size) (valid : args.all (·.isValid) = true) :
    table.Origins (finalTable table (resolveFunction candidates (some args))) ∧
      ∀ candidate ∈ table.uniqueCandidates candidates, ∀ function costs,
        assessment.called candidate = some function → assessment.costs function = some costs →
        table.Took (finalTable table (resolveFunction candidates (some args))) candidate function := by
  have hstart : Underway table table [] :=
    ⟨calm.idle, .refl calm.represented, fun _ member => absurd member List.not_mem_nil⟩
  obtain ⟨last, hlast, horigins, -, htook⟩ := hstart.run calm
    (fun instantiates source target => keeps_conversionCost instantiates source target false)
    (fun _ => entity_of_uniqueCandidates calm within) assessed.assesses
  cases hunique : table.uniqueCandidates candidates with
  | nil =>
      have hcall : resolveFunction candidates (some args) table = .ok none table := resolveOverload_of_none hunique
      rw [finalTable, hcall]
      exact ⟨.refl calm.represented, fun _ member => absurd member List.not_mem_nil⟩
  | cons head rest =>
      rw [hunique] at hlast htook
      have hcall : resolveFunction candidates (some args) table = _ := resolveOverload_of_viable hunique valid hlast
      rw [finalTable_answerOf hcall]
      exact ⟨horigins, htook⟩

/-- The function that a call resolves to is that of a viable candidate. -/
theorem exists_viable_of_resolved (assessed : CallAssessed assessment table candidates args)
    (resolved : ending (resolveFunction candidates (some args) table) = .ok (some function)) :
    ∃ entry ∈ assessment.viableOf table candidates, entry.function = function := by
  cases hunique : table.uniqueCandidates candidates with
  | nil =>
      have hcall : resolveFunction candidates (some args) table = .ok none table := resolveOverload_of_none hunique
      rw [hcall] at resolved
      cases resolved
  | cons head rest =>
      cases hvalid : args.all (·.isValid) with
      | false =>
          have hcall : resolveFunction candidates (some args) table = _ :=
            resolveOverload_of_invalid hunique hvalid
          rw [hcall] at resolved
          cases resolved
      | true =>
          rw [resolveFunction_of_assessed assessed hunique hvalid, ending_answerOf] at resolved
          cases hverdict : judged (finalTable table (resolveFunction candidates (some args)))
              (assessment.viableOf table candidates) with
          | none =>
              rw [hverdict] at resolved
              cases resolved
          | some answer =>
              rw [hverdict] at resolved
              cases resolved
              exact mem_of_judged hverdict

end Calls

/-! ## Reordered calls -/

/-- One call is made with its candidates in two orders, or repeated, and what is computed for each candidate is the
same both times, but for numbers. -/
structure Reordered (table : Table) (args : List Descriptor) (rename : SymbolId → SymbolId)
    (candidates reordered : List SymbolId) (first second : Assessment) : Prop where
  same : ∀ candidate, candidate ∈ candidates ↔ candidate ∈ reordered
  assessed : CallAssessed first table candidates args
  assessedToo : CallAssessed second table reordered args
  renames : first.Renames rename second (table.uniqueCandidates candidates)

/-- Ties between viable functions come out the same in the tables in which the two calls end. -/
def TiesAgree (table : Table) (args : List Descriptor) (rename : SymbolId → SymbolId)
    (candidates reordered : List SymbolId) (first : Assessment) : Prop :=
  ∀ a ∈ first.viableOf table candidates, ∀ b ∈ first.viableOf table candidates,
    compareCosts a.costs b.costs = some .eq →
    (finalTable table (resolveFunction reordered (some args))).winsTie (rename a.function) (rename b.function) =
      (finalTable table (resolveFunction candidates (some args))).winsTie a.function b.function

/-- The two calls have the same outcome: the same candidate wins, though its function may have another number the
second time, or no candidate is viable, or both calls are ambiguous.  If all candidates have one name, an error is the
same as well. -/
structure SameOutcome (table : Table) (args : List Descriptor) (rename : SymbolId → SymbolId)
    (candidates reordered : List SymbolId) (first second : Assessment) : Prop where
  ok : ∀ answer, ending (resolveFunction candidates (some args) table) = .ok answer ↔
    ending (resolveFunction reordered (some args) table) = .ok (answer.map rename)
  winner : ∀ function, ending (resolveFunction candidates (some args) table) = .ok (some function) →
    ∃ candidate ∈ table.uniqueCandidates candidates,
      first.called candidate = some function ∧ second.called candidate = some (rename function)
  ambiguous : (∃ name, ending (resolveFunction candidates (some args) table) = .error (.error (.ambiguous name))) ↔
    ∃ name, ending (resolveFunction reordered (some args) table) = .error (.error (.ambiguous name))
  renamed : (∀ a ∈ candidates, ∀ b ∈ candidates,
      (table.symbol (table.canonical a)).name = (table.symbol (table.canonical b)).name) →
    ending (resolveFunction reordered (some args) table) =
      (ending (resolveFunction candidates (some args) table)).map (Option.map rename)

namespace Reordered

variable {table : Table} {reordered : List SymbolId} {first second : Assessment}

/-- Reordered calls end alike if their ties do. -/
theorem sameOutcome {rename : SymbolId → SymbolId}
    (call : Reordered table args rename candidates reordered first second) (injective : Function.Injective rename)
    (ties : args.all (·.isValid) = true → TiesAgree table args rename candidates reordered first) :
    SameOutcome table args rename candidates reordered first second := by
  obtain ⟨name, other, hnames, halike⟩ :=
    endAlike_of_renamed injective call.same call.assessed call.assessedToo call.renames ties
  refine ⟨halike.ok_iff injective, fun function resolved => ?_, halike.ambiguous_iff,
    fun names => halike.eq_map (hnames names)⟩
  obtain ⟨entry, hviable, rfl⟩ := exists_viable_of_resolved call.assessed resolved
  obtain ⟨candidate, hmember, hcalled, -⟩ := Assessment.mem_viable.mp hviable
  refine ⟨candidate, hmember, hcalled, ?_⟩
  rw [call.renames.called candidate hmember, hcalled, Option.map_some]

section Settled

variable {rename : Equiv.Perm SymbolId} (call : Reordered table args rename candidates reordered first second)
  (calm : table.Calm) (within : ∀ candidate ∈ candidates, candidate.index < table.size)
  (valid : args.all (·.isValid) = true)

include call calm within valid

/-- A viable function of the first call took part for a candidate for which its counterpart took part in the second
one. -/
theorem exists_took {entry : Viable} (viable : entry ∈ first.viableOf table candidates) :
    ∃ entity ∈ table.uniqueCandidates candidates, entity.index < table.size ∧
      table.Took (finalTable table (resolveFunction candidates (some args))) entity entry.function ∧
      table.Took (finalTable table (resolveFunction reordered (some args))) entity (rename entry.function) := by
  obtain ⟨entity, hmember, hcalled, hcosts⟩ := Assessment.mem_viable.mp viable
  have hlisted : entity ∈ table.uniqueCandidates reordered := by
    rw [Table.mem_uniqueCandidates] at hmember ⊢
    simpa only [call.same] using hmember
  obtain ⟨hcalledToo, costs, hknown, -⟩ := call.renames.exists_costs hmember hcalled hcosts
  have hwithin : ∀ candidate ∈ reordered, candidate.index < table.size :=
    fun candidate member => within candidate ((call.same candidate).mpr member)
  exact ⟨entity, hmember, (entity_of_uniqueCandidates calm within hmember).1,
    (call.assessed.took calm within valid).2 entity hmember _ _ hcalled hcosts,
    (call.assessedToo.took calm hwithin valid).2 entity hlisted _ _ hcalledToo hknown⟩

/-- Ties come out the same if they are settled in the table in which the calls start. -/
theorem tiesAgree (typedefs : table.TypedefsEnd) (fixes : ∀ x : SymbolId, x.index < table.size → rename x = x)
    (settled : table.TiesSettled (table.uniqueCandidates candidates)) :
    TiesAgree table args rename candidates reordered first := by
  have hwithin : ∀ candidate ∈ reordered, candidate.index < table.size :=
    fun candidate member => within candidate ((call.same candidate).mpr member)
  intro a memberA b memberB _
  obtain ⟨c, memberC, ltC, tookA, tookAToo⟩ := call.exists_took calm within valid memberA
  obtain ⟨d, memberD, ltD, tookB, tookBToo⟩ := call.exists_took calm within valid memberB
  exact Table.winsTie_renamed calm (call.assessed.took calm within valid).1
    (call.assessedToo.took calm hwithin valid).1 settled fixes typedefs memberC memberD ltC ltD tookA tookAToo tookB
    tookBToo

end Settled

end Reordered

end Analysis

open Analysis

/-- The order of the candidates is irrelevant.  Of viable candidates with different functions, the one that is picked
is the one that beats every other one; there is at most one, and it is the same in every order.

So if the candidates of a call are reordered or repeated, and what is computed for each of them stays the same, then
the same candidate wins.  Only the instances that the call makes are numbered in the order in which it comes to them.
What is left to decide is how ties come out in the two tables at the end.  They come out the same if chains of links
and typedefs end where the call starts, and no partial specialization is involved in more than one of the candidates
there. -/
theorem resolution_order_irrelevant :
    (∀ (table : Table) (viable : List Viable), (viable.map Viable.function).Nodup →
      (∀ winner, table.bestViable viable = some winner ↔
        winner ∈ viable ∧ ∀ entry ∈ viable, entry ≠ winner → table.Beats winner entry) ∧
      (∀ first ∈ viable, ∀ second ∈ viable,
        (∀ entry ∈ viable, entry ≠ first → table.Beats first entry) →
        (∀ entry ∈ viable, entry ≠ second → table.Beats second entry) → first = second) ∧
      ∀ permuted, viable.Perm permuted → table.bestViable permuted = table.bestViable viable) ∧
    (∀ (table : Table) (args : List Descriptor) (rename : SymbolId → SymbolId)
      (candidates reordered : List SymbolId) (first second : Assessment), Function.Injective rename →
      Reordered table args rename candidates reordered first second →
      TiesAgree table args rename candidates reordered first →
      SameOutcome table args rename candidates reordered first second) ∧
    ∀ (table : Table) (args : List Descriptor) (rename : Equiv.Perm SymbolId)
      (candidates reordered : List SymbolId) (first second : Assessment), table.Calm → table.TypedefsEnd →
      (∀ candidate ∈ candidates, candidate.index < table.size) →
      (∀ x : SymbolId, x.index < table.size → rename x = x) →
      table.TiesSettled (table.uniqueCandidates candidates) →
      Reordered table args rename candidates reordered first second →
      SameOutcome table args rename candidates reordered first second := by
  refine ⟨fun table viable distinct => ⟨fun winner => ?_, ?_, ?_⟩, ?_, ?_⟩
  · exact Table.bestViable_eq_some_iff distinct
  · intro first memberFirst second memberSecond dominatesFirst dominatesSecond
    exact Table.dominating_unique memberFirst memberSecond dominatesFirst dominatesSecond
  · intro permuted perm
    exact Table.bestViable_perm distinct perm
  · intro table args rename candidates reordered first second injective call ties
    exact call.sameOutcome injective fun _ => ties
  · intro table args rename candidates reordered first second calm typedefs within fixes settled call
    exact call.sameOutcome rename.injective fun valid => call.tiesAgree calm within valid typedefs fixes settled

/-! ## Runs -/

/-- Declare the function of a function template `f` and the parameter of the template. -/
def declareTemplated (template parameter function : Nat) (types : List Descriptor) : List Action :=
  [.perform (.addTemplateParameter ⟨template⟩ ⟨parameter⟩), .perform (.createFunction ⟨17⟩ .function)] ++
    types.map (fun type => .perform (.addParameterType ⟨function⟩ type)) ++
    [.perform (.addSymbol ⟨template⟩ ⟨function⟩)]

/-- Declare a function template `f` with one parameter, which is the symbol behind it. -/
def declareFunctionTemplate (template : Nat) (types : List Descriptor) : List Action :=
  [.perform (.createTemplate ⟨17⟩), .perform (.createTemplateParameter ⟨18⟩ .typeName)] ++
    declareTemplated template (template + 1) (template + 2) types

/-- Declare a partial specialization of function templates `f` for all arguments.  Its parameter is the symbol before
it. -/
def declareForAll (specialization : Nat) (primaries : List SymbolId) (types : List Descriptor) : List Action :=
  [.perform (.createTemplateParameter ⟨18⟩ .typeName),
    .perform (.createSpecialization ⟨17⟩ [.ofSymbol ⟨specialization - 1⟩])] ++
    declareTemplated specialization (specialization - 1) (specialization + 1) types ++
    primaries.map fun primary => .perform (.addTemplateSpecialization primary ⟨specialization⟩)

/-- What the candidates come to if they take part with these functions, whose parameters have the types of the
arguments. -/
def exactAssessment (functions : List (SymbolId × SymbolId)) (args : List Descriptor) : Assessment where
  called := fun candidate => functions.lookup candidate
  costs := fun _ => some (args.map fun type => { source := type, target := type, rank := .identity })

theorem renames_exactAssessment {functions others : List (SymbolId × SymbolId)} {args : List Descriptor}
    {rename : SymbolId → SymbolId} {candidates : List SymbolId}
    (called : ∀ candidate ∈ candidates, others.lookup candidate = (functions.lookup candidate).map rename) :
    (exactAssessment functions args).Renames rename (exactAssessment others args) candidates where
  called := called
  costs := fun _ _ _ _ => by
    refine .some (List.forall₂_same.mpr fun cost member => ?_)
    obtain ⟨type, -, rfl⟩ := List.mem_map.mp member
    exact ⟨rfl, rfl, rfl, rfl⟩

/-- The arguments of the call `f(pointer, 0)` with a pointer to int. -/
def pointerCall : List Descriptor := [(Descriptor.ofKind .int).pointer, .ofKind .int]

/-- The argument of the call `f(pointer)`. -/
def pointerArgument : List Descriptor := [(Descriptor.ofKind .int).pointer]

/-- Two function templates `f(T*)` and `f(T)`, the second one with a partial specialization of its own. -/
@[irreducible]
def competingTable : Table :=
  (Table.new { nestingLimit := 6 }).ran
    (declareFunctionTemplate 1 [(Descriptor.ofSymbol ⟨2⟩).pointer] ++ declareFunctionTemplate 5 [.ofSymbol ⟨6⟩] ++
      declareForAll 10 [⟨5⟩] [.ofSymbol ⟨9⟩])

/-- The templates take part with instances that are numbered in the order in which they are made. -/
def competingAssessment (first second : SymbolId) : Assessment :=
  exactAssessment [(⟨1⟩, first), (⟨5⟩, second)] pointerArgument

theorem calm_competingTable : competingTable.Calm := by
  have hreached : Reached Action.Joins competingTable := by
    rw [competingTable]
    exact Reached.ran (.new _) (by decide +kernel)
  exact hreached.calm

/-- In the second call the instances come the other way round. -/
theorem competing_reordered : Reordered competingTable pointerArgument (Equiv.swap ⟨13⟩ ⟨15⟩) [⟨1⟩, ⟨5⟩]
    [⟨5⟩, ⟨1⟩, ⟨5⟩] (competingAssessment ⟨13⟩ ⟨15⟩) (competingAssessment ⟨15⟩ ⟨13⟩) where
  same := by simp [or_comm, or_left_comm]
  assessed := callAssessed_of_runsAs (by decide +kernel)
  assessedToo := callAssessed_of_runsAs (by decide +kernel)
  renames := renames_exactAssessment (by decide +kernel)

/-- Nothing is instantiated yet, and only one of the templates has a partial specialization. -/
theorem settled_competingTable :
    competingTable.TiesSettled (competingTable.uniqueCandidates [⟨1⟩, ⟨5⟩]) := by
  have hunique : competingTable.uniqueCandidates [⟨1⟩, ⟨5⟩] = [⟨1⟩, ⟨5⟩] := by decide +kernel
  rw [hunique]
  exact .of_unremembered (by decide +kernel) (by decide +kernel) (by decide +kernel)

/-- Three function templates `f(T*, int)`, `f(int*, T)` and `f(T, int)`, and a partial specialization
`f(int*, int)` that is registered for the first two. -/
@[irreducible]
def sharedTable : Table :=
  (Table.new { nestingLimit := 6 }).ran
    (declareFunctionTemplate 1 [(Descriptor.ofSymbol ⟨2⟩).pointer, .ofKind .int] ++
      declareFunctionTemplate 6 [(Descriptor.ofKind .int).pointer, .ofSymbol ⟨7⟩] ++
      declareFunctionTemplate 11 [.ofSymbol ⟨12⟩, .ofKind .int] ++ declareForAll 17 [⟨1⟩, ⟨6⟩] pointerCall)

/-- What the three templates come to: the first two take part with one instance, and the third with another one. -/
def sharedAssessment (shared own : SymbolId) : Assessment :=
  exactAssessment [(⟨1⟩, shared), (⟨6⟩, shared), (⟨11⟩, own)] pointerCall

/-- The first two templates take part with one function. -/
theorem shared_reordered : Reordered sharedTable pointerCall id [⟨1⟩, ⟨6⟩] [⟨6⟩, ⟨1⟩]
    (sharedAssessment ⟨21⟩ ⟨24⟩) (sharedAssessment ⟨21⟩ ⟨24⟩) where
  same := by simp [or_comm]
  assessed := callAssessed_of_runsAs (by decide +kernel)
  assessedToo := callAssessed_of_runsAs (by decide +kernel)
  renames := renames_exactAssessment (by decide +kernel)

/-- The instance of `f(T*)` wins over that of `f(T)`, whichever template comes first and whatever the numbers of the
instances are.  Where two templates share their function, there is no tie. -/
theorem competing_instances_reordered :
    competingTable.Calm ∧ competingTable.TypedefsEnd ∧
      competingTable.TiesSettled (competingTable.uniqueCandidates [⟨1⟩, ⟨5⟩]) ∧
      SameOutcome competingTable pointerArgument (Equiv.swap ⟨13⟩ ⟨15⟩) [⟨1⟩, ⟨5⟩] [⟨5⟩, ⟨1⟩, ⟨5⟩]
        (competingAssessment ⟨13⟩ ⟨15⟩) (competingAssessment ⟨15⟩ ⟨13⟩) ∧
      ending (resolveFunction [⟨1⟩, ⟨5⟩] (some pointerArgument) competingTable) = .ok (some ⟨13⟩) ∧
      ending (resolveFunction [⟨5⟩, ⟨1⟩, ⟨5⟩] (some pointerArgument) competingTable) = .ok (some ⟨15⟩) ∧
      (∀ last : Table, last.bestViable
          ((competingAssessment ⟨13⟩ ⟨15⟩).viableOf competingTable [⟨1⟩, ⟨5⟩]).reverse =
        last.bestViable ((competingAssessment ⟨13⟩ ⟨15⟩).viableOf competingTable [⟨1⟩, ⟨5⟩])) ∧
      ending (resolveFunction [⟨6⟩, ⟨1⟩] (some pointerCall) sharedTable) = .ok (some ⟨21⟩) := by
  obtain ⟨hbest, hagree, hsettled⟩ := resolution_order_irrelevant
  have htypedefs : competingTable.TypedefsEnd := by decide +kernel
  have hfixes : ∀ x : SymbolId, x.index < competingTable.size → Equiv.swap ⟨13⟩ ⟨15⟩ x = x := by
    have hsize : competingTable.size = 13 := by decide +kernel
    intro x lt
    rw [hsize] at lt
    refine Equiv.swap_apply_of_ne_of_ne ?_ ?_ <;>
      · rintro rfl
        exact absurd lt (by decide)
  have houtcome := hsettled competingTable pointerArgument (Equiv.swap ⟨13⟩ ⟨15⟩) [⟨1⟩, ⟨5⟩] [⟨5⟩, ⟨1⟩, ⟨5⟩]
    (competingAssessment ⟨13⟩ ⟨15⟩) (competingAssessment ⟨15⟩ ⟨13⟩) calm_competingTable htypedefs
    (by decide +kernel) hfixes settled_competingTable competing_reordered
  have hfirst : ending (resolveFunction [⟨1⟩, ⟨5⟩] (some pointerArgument) competingTable) = .ok (some ⟨13⟩) := by
    decide +kernel
  have hties : TiesAgree sharedTable pointerCall id [⟨1⟩, ⟨6⟩] [⟨6⟩, ⟨1⟩] (sharedAssessment ⟨21⟩ ⟨24⟩) := by
    have hviable : ∀ entry ∈ (sharedAssessment ⟨21⟩ ⟨24⟩).viableOf sharedTable [⟨1⟩, ⟨6⟩],
        entry.function = ⟨21⟩ := by decide +kernel
    intro a memberA b memberB _
    rw [hviable a memberA, hviable b memberB]
    decide +kernel
  have hshared := hagree sharedTable pointerCall id [⟨1⟩, ⟨6⟩] [⟨6⟩, ⟨1⟩] (sharedAssessment ⟨21⟩ ⟨24⟩)
    (sharedAssessment ⟨21⟩ ⟨24⟩) Function.injective_id shared_reordered hties
  have hfirstShared : ending (resolveFunction [⟨1⟩, ⟨6⟩] (some pointerCall) sharedTable) = .ok (some ⟨21⟩) := by
    decide +kernel
  refine ⟨calm_competingTable, htypedefs, settled_competingTable, houtcome, hfirst,
    (houtcome.ok (some ⟨13⟩)).mp hfirst, fun last => ?_, (hshared.ok (some ⟨21⟩)).mp hfirstShared⟩
  exact (hbest last _ (Assessment.viable_priced _).distinct).2.2 _ (List.reverse_perm _).symm

/-- Two partial specializations, one for each of the first two templates, which share a partial specialization of
their own. -/
@[irreducible]
def chainedTable : Table :=
  (Table.new { nestingLimit := 8 }).ran
    (declareFunctionTemplate 1 [(Descriptor.ofSymbol ⟨2⟩).pointer, .ofKind .int] ++
      declareFunctionTemplate 6 [(Descriptor.ofKind .int).pointer, .ofSymbol ⟨7⟩] ++
      declareFunctionTemplate 11 [.ofSymbol ⟨12⟩, .ofKind .int] ++ declareForAll 17 [⟨1⟩] pointerCall ++
      declareForAll 22 [⟨6⟩] pointerCall ++ declareForAll 27 [⟨17⟩, ⟨22⟩] pointerCall)

/-- The three templates come to the same in both orders. -/
theorem shared_templates_reordered : Reordered sharedTable pointerCall id [⟨1⟩, ⟨6⟩, ⟨11⟩] [⟨6⟩, ⟨1⟩, ⟨11⟩]
    (sharedAssessment ⟨21⟩ ⟨24⟩) (sharedAssessment ⟨21⟩ ⟨24⟩) where
  same := by simp [or_left_comm]
  assessed := callAssessed_of_runsAs (by decide +kernel)
  assessedToo := callAssessed_of_runsAs (by decide +kernel)
  renames := renames_exactAssessment (by decide +kernel)

theorem chained_templates_reordered : Reordered chainedTable pointerCall id [⟨1⟩, ⟨6⟩, ⟨11⟩] [⟨6⟩, ⟨1⟩, ⟨11⟩]
    (sharedAssessment ⟨31⟩ ⟨34⟩) (sharedAssessment ⟨31⟩ ⟨34⟩) where
  same := by simp [or_left_comm]
  assessed := callAssessed_of_runsAs (by decide +kernel)
  assessedToo := callAssessed_of_runsAs (by decide +kernel)
  renames := renames_exactAssessment (by decide +kernel)

/-- Reordering templates of one name changes what a call answers, although the costs stay the same: the number of the
instance that wins, and, where templates or their partial specializations share a partial specialization, whether one
of them wins at all. -/
theorem shared_specialization_reorders_call :
    (Reordered competingTable pointerArgument (Equiv.swap ⟨13⟩ ⟨15⟩) [⟨1⟩, ⟨5⟩] [⟨5⟩, ⟨1⟩, ⟨5⟩]
        (competingAssessment ⟨13⟩ ⟨15⟩) (competingAssessment ⟨15⟩ ⟨13⟩) ∧
      (competingAssessment ⟨13⟩ ⟨15⟩).costs = (competingAssessment ⟨15⟩ ⟨13⟩).costs ∧
      (∀ candidate ∈ [⟨1⟩, (⟨5⟩ : SymbolId)],
        (competingTable.symbol (competingTable.canonical candidate)).name = ⟨17⟩) ∧
      ending (resolveFunction [⟨1⟩, ⟨5⟩] (some pointerArgument) competingTable) = .ok (some ⟨13⟩) ∧
      ending (resolveFunction [⟨5⟩, ⟨1⟩, ⟨5⟩] (some pointerArgument) competingTable) = .ok (some ⟨15⟩)) ∧
    (Reordered sharedTable pointerCall id [⟨1⟩, ⟨6⟩, ⟨11⟩] [⟨6⟩, ⟨1⟩, ⟨11⟩] (sharedAssessment ⟨21⟩ ⟨24⟩)
        (sharedAssessment ⟨21⟩ ⟨24⟩) ∧
      (∀ candidate ∈ [⟨1⟩, ⟨6⟩, (⟨11⟩ : SymbolId)],
        (sharedTable.symbol (sharedTable.canonical candidate)).name = ⟨17⟩) ∧
      ending (resolveFunction [⟨1⟩, ⟨6⟩, ⟨11⟩] (some pointerCall) sharedTable) =
        .error (.error (.ambiguous ⟨17⟩)) ∧
      ending (resolveFunction [⟨6⟩, ⟨1⟩, ⟨11⟩] (some pointerCall) sharedTable) = .ok (some ⟨21⟩)) ∧
    Reordered chainedTable pointerCall id [⟨1⟩, ⟨6⟩, ⟨11⟩] [⟨6⟩, ⟨1⟩, ⟨11⟩] (sharedAssessment ⟨31⟩ ⟨34⟩)
        (sharedAssessment ⟨31⟩ ⟨34⟩) ∧
      (∀ candidate ∈ [⟨1⟩, ⟨6⟩, (⟨11⟩ : SymbolId)],
        (chainedTable.symbol (chainedTable.canonical candidate)).name = ⟨17⟩) ∧
      ending (resolveFunction [⟨1⟩, ⟨6⟩, ⟨11⟩] (some pointerCall) chainedTable) =
        .error (.error (.ambiguous ⟨17⟩)) ∧
      ending (resolveFunction [⟨6⟩, ⟨1⟩, ⟨11⟩] (some pointerCall) chainedTable) = .ok (some ⟨31⟩) := by
  exact ⟨⟨competing_reordered, rfl, by decide +kernel, by decide +kernel, by decide +kernel⟩,
    ⟨shared_templates_reordered, by decide +kernel, by decide +kernel, by decide +kernel⟩,
    chained_templates_reordered, by decide +kernel, by decide +kernel, by decide +kernel⟩

end NameBinding
