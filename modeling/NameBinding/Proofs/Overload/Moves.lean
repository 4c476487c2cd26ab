import NameBinding.Conversion.UserDefined
import NameBinding.Lookup.Query
import NameBinding.Proofs.Template.InstantiationMoves

/-!
# Calls and conversions move the table

Resolving a call and finding the cost of a conversion change the table only by making instances.  The
argument types have to exist, and whatever is read from the table exists anyway, so the lemmas here
need nothing else.

* `moves_deducedInstance?`: an instance deduced for a call is made as a copy may be made; as long as
  there are no partial specializations, making it is never ambiguous.
* `moves_resolveFunction` and `moves_conversionCost`: calls and conversions as a whole.
-/

namespace NameBinding

namespace Regime

/-- Declaring puts nothing out of reach, and neither does copying from the start. -/
theorem Sound.copying {table : Table} (sound : Regime.declaring.Sound table) :
    (Regime.copying 0 0).Sound table :=
  ⟨sound.represented, sound.work, sound.running, Nat.zero_le _, Nat.zero_le _⟩

end Regime

namespace Analysis

variable {table : Table}

/-! ## Instances -/

section Instances

variable {base floor : Nat}

/-- An instance is made as a copy may be made. -/
theorem moves_instantiate (template : SymbolId) {args : List Descriptor}
    (sound : (Regime.copying base floor).Sound table)
    (given : ∀ arg ∈ args, arg.Below table.size) :
    MovesAt (.copying base floor) (instantiate template args)
      (fun after made => made.index < after.size) table :=
  .read (makesInstances_instantiateWithin _ base floor template args table sound given)

/-- The instance that a call deduces exists. -/
theorem moves_deducedInstance? (template : SymbolId) {args : List Descriptor}
    (sound : (Regime.copying base floor).Sound table)
    (given : ∀ arg ∈ args, arg.Below table.size) :
    MovesAt (.copying base floor) (deducedInstance? template args)
      (fun after found => ∀ made, found = some made → made.index < after.size) table := by
  refine .read ?_
  split
  · exact .pure fun made found => by cases found
  · rename_i deduced hdeduced
    have hbelow := sound.represented.deduceCall_below given hdeduced
    refine (moves_instantiate template sound hbelow).caught sound ?_ ?_
    · intro made after _ _ hmade
      refine .pure fun other found => ?_
      cases found
      exact hmade
    · intro error after _ _
      -- An argument that does not fit removes the candidate, and other errors are reported.
      split
      · rename_i value hvalue
        cases hvalue
      · exact .inr (.pure fun made found => by cases found)
      · rename_i reported _ hreported
        cases hreported
        exact .inl rfl

end Instances

theorem makes_declaring (bound : Nat) : MakesInstances .declaring (instantiateWithin bound) :=
  .mono (Regime.declaring_allows_copying 0 0) (fun _ sound => sound.copying)
    (makesInstances_instantiateWithin bound 0 0)

theorem moves_resolveType : ResolvesTypes .declaring resolveType :=
  fun type table sound below =>
    .read (moves_resolveTemplateIds (makes_declaring _) _ type table sound below)

/-! ## Overload resolution -/

/-- The cost of passing one type that exists to another one can be found. -/
def FindsCosts (cost : CostFunction) : Prop :=
  ∀ source target table, Regime.declaring.Sound table → source.Below table.size →
    target.Below table.size → MovesAt .declaring (cost source target) (fun _ _ => True) table

theorem moves_nestedCost : FindsCosts nestedCost := by
  intro source target table sound hsource htarget
  refine (moves_resolveType source table sound hsource).bind sound ?_
  intro resolvedSource middle hmoved hsound _
  refine (moves_resolveType target middle hsound (htarget.mono hmoved.size_le)).bind hsound ?_
  intro resolvedTarget after _ _ _
  exact .read (.ofExcept (fun _ _ => trivial) fun _ _ quiet => quiet.elim)

section Overload

variable {cost : CostFunction}

theorem moves_argumentCosts (costs : FindsCosts cost) (args : List Descriptor) :
    ∀ parameters table, Regime.declaring.Sound table → (∀ arg ∈ args, arg.Below table.size) →
      (∀ parameter ∈ parameters, parameter.Below table.size) →
      MovesAt .declaring (argumentCosts cost args parameters) (fun _ _ => True) table := by
  induction args with
  | nil => exact fun parameters table sound given declared => .pure trivial
  | cons arg args ih =>
      intro parameters table sound given declared
      unfold argumentCosts
      refine .read ?_
      -- However the first cost is found, the rest of the arguments come after it.
      have hrest : ∀ (first : Cost) (after : Table), Moved .declaring table after →
          Regime.declaring.Sound after →
          MovesAt .declaring (do
            if !first.isMatch then pure none
            else do
              let rest ← argumentCosts cost args parameters.tail
              pure (rest.map (first :: ·))) (fun _ _ => True) after := by
        intro first after hmoved hsound
        split
        · exact .pure trivial
        · have hargs : ∀ other ∈ args, other.Below after.size := fun other member =>
            (given other (List.mem_cons_of_mem arg member)).mono hmoved.size_le
          have hparameters : ∀ other ∈ parameters.tail, other.Below after.size :=
            fun other member => (declared other (List.mem_of_mem_tail member)).mono hmoved.size_le
          refine (ih parameters.tail after hsound hargs hparameters).bind hsound ?_
          exact fun _ _ _ _ _ => .pure trivial
      split
      · rename_i parameter hparameter
        have harg := given arg List.mem_cons_self
        have htype := declared parameter (List.mem_of_mem_head? hparameter)
        refine (costs arg parameter table sound harg htype).bind sound ?_
        exact fun first after hmoved hsound _ => hrest first after hmoved hsound
      · have hellipsis : MovesAt .declaring (pure (table.ellipsisCost arg)) (fun _ _ => True) table :=
          .pure trivial
        exact hellipsis.bind sound fun first after hmoved hsound _ => hrest first after hmoved hsound

theorem moves_candidateCosts (costs : FindsCosts cost) (function : SymbolId)
    {args : List Descriptor} (sound : Regime.declaring.Sound table)
    (given : ∀ arg ∈ args, arg.Below table.size) :
    MovesAt .declaring (candidateCosts cost function args) (fun _ _ => True) table := by
  refine .read ?_
  dsimp only
  split
  · exact .fail fun quiet => quiet.elim
  · split
    · exact .pure trivial
    · split
      · exact .pure trivial
      · exact moves_argumentCosts costs args _ table sound given
          (sound.represented.signature_below function)

theorem moves_calledFunction? (candidate : SymbolId) {args : List Descriptor}
    (sound : Regime.declaring.Sound table) (given : ∀ arg ∈ args, arg.Below table.size) :
    MovesAt .declaring (calledFunction? candidate args) (fun _ _ => True) table := by
  refine .read ?_
  split
  · have hdeduced := moves_deducedInstance? candidate sound.copying given
    exact (hdeduced.mono (Regime.declaring_allows_copying 0 0)).weaken fun _ _ _ _ => trivial
  · exact .pure trivial

theorem moves_considerCandidate (costs : FindsCosts cost) {args : List Descriptor}
    (viable : List Viable) (candidate : SymbolId) (sound : Regime.declaring.Sound table)
    (given : ∀ arg ∈ args, arg.Below table.size) :
    MovesAt .declaring (considerCandidate cost args viable candidate) (fun _ _ => True) table := by
  refine (moves_calledFunction? candidate sound given).bind sound ?_
  intro called after hmoved hsound _
  cases called with
  | none => exact .pure trivial
  | some function =>
      refine .read ?_
      split
      · exact .pure trivial
      · have hgiven : ∀ arg ∈ args, arg.Below after.size :=
          fun arg member => (given arg member).mono hmoved.size_le
        refine (moves_candidateCosts costs function hsound hgiven).bind hsound ?_
        intro found last _ _ _
        cases found with
        | none => exact .pure trivial
        | some found => exact .pure trivial

theorem moves_resolveOverload (costs : FindsCosts cost) (candidates : List SymbolId)
    {args : List Descriptor} (sound : Regime.declaring.Sound table)
    (given : ∀ arg ∈ args, arg.Below table.size) :
    MovesAt .declaring (resolveOverload cost candidates args) (fun _ _ => True) table := by
  refine .read ?_
  split
  · exact .pure trivial
  · rename_i first rest _
    dsimp only
    split
    · exact .fail fun quiet => quiet.elim
    · have hfold : ∀ passed : List Descriptor, (∀ arg ∈ passed, arg.Below table.size) →
          MovesAt .declaring ((first :: rest).foldlM (considerCandidate cost passed) [])
            (fun _ _ => True) table := by
        intro passed hpassed
        refine .foldlM sound trivial fun viable candidate _ after hmoved hsound _ => ?_
        refine moves_considerCandidate costs viable candidate hsound fun arg member => ?_
        exact (hpassed arg member).mono hmoved.size_le
      -- A lone void argument means none.
      refine MovesAt.bind sound (hfold _ ?_) fun viable after _ _ _ => .read ?_
      · split
        · split
          · simp
          · exact given
        · exact given
      · split
        · exact .pure trivial
        · split
          · exact .fail fun quiet => quiet.elim
          · split
            · exact .fail fun quiet => quiet.elim
            · exact .pure trivial

end Overload

/-! ## Conversions -/

theorem moves_bestConversionFunction (id : SymbolId) {target : Descriptor}
    (sound : Regime.declaring.Sound table) (below : target.Below table.size) :
    MovesAt .declaring (bestConversionFunction id target) (fun _ _ => True) table := by
  refine .read ?_
  have hconsider : MovesAt .declaring
      ((table.conversionFunctions id).foldlM (considerConversion target) []) (fun _ _ => True)
      table := by
    refine .foldlM sound trivial fun entries function _ after hmoved hsound _ => .read ?_
    split
    · exact .pure trivial
    · rename_i type htype
      have hreturned := Symbol.returnType_below (hsound.represented.within function) htype
      refine (moves_nestedCost type target after hsound hreturned
        (below.mono hmoved.size_le)).bind hsound ?_
      exact fun _ _ _ _ _ => .pure trivial
  exact hconsider.bind sound fun _ _ _ _ _ => .pure trivial

theorem moves_userDefinedConversion {source target : Descriptor}
    (sound : Regime.declaring.Sound table) (hsource : source.Below table.size)
    (htarget : target.Below table.size) :
    MovesAt .declaring (userDefinedConversion source target) (fun _ _ => True) table := by
  refine .read ?_
  have hgiven : ∀ arg ∈ [source], arg.Below table.size := by
    intro arg member
    rwa [List.mem_singleton.mp member]
  refine (moves_resolveOverload moves_nestedCost _ sound hgiven).caught sound ?_ ?_
  · intro throughConstructor after hmoved hsound _
    refine .read ?_
    split
    · refine (moves_bestConversionFunction _ hsound (htarget.mono hmoved.size_le)).bind hsound ?_
      intro throughConversion last _ _ _
      beta_reduce
      split <;> exact .pure trivial
    · have hnone : MovesAt .declaring (pure UserDefined.none) (fun _ _ => True) after :=
        .pure trivial
      refine hnone.bind hsound fun throughConversion last _ _ _ => ?_
      beta_reduce
      split <;> exact .pure trivial
  · intro error after _ _
    split
    · exact .inr (.pure trivial)
    · rename_i reported _ hreported
      cases hreported
      exact .inl rfl
    · rename_i value hvalue
      cases hvalue

theorem moves_conversionCost (nested : Bool) : FindsCosts (conversionCost · · nested) := by
  intro source target table sound hsource htarget
  refine (moves_nestedCost source target table sound hsource htarget).bind sound ?_
  intro cost after hmoved hsound _
  split
  · exact .pure trivial
  · refine (moves_userDefinedConversion hsound (hsource.mono hmoved.size_le)
      (htarget.mono hmoved.size_le)).bind hsound ?_
    intro found last _ _ _
    cases found with
    | none => exact .pure trivial
    | ambiguous => exact .pure trivial
    | function id => exact .pure trivial

theorem moves_resolveFunction (candidates : List SymbolId) {args : Option (List Descriptor)}
    (sound : Regime.declaring.Sound table)
    (given : ∀ types, args = some types → ∀ arg ∈ types, arg.Below table.size) :
    MovesAt .declaring (resolveFunction candidates args) (fun _ _ => True) table := by
  cases args with
  | some args =>
      exact moves_resolveOverload (moves_conversionCost false) candidates sound (given args rfl)
  | none =>
      refine .read ?_
      split
      · exact .pure trivial
      · exact .pure trivial
      · exact .fail fun quiet => quiet.elim

end Analysis

end NameBinding
