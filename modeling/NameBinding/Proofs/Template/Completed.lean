import NameBinding.Proofs.Template.Repetition

/-!
# Instantiating with completed arguments

An instance is looked up with completed arguments.  If these are given instead, they are resolved and completed
once more.  That changes nothing as long as no typedef has come in on the way: the instance of an alias template
is a typedef, which is seen through only if it is given.

* `Table.Flat`: seeing through typedefs leaves the type as it is, at every depth.
* `Settled`: there is nothing left to resolve; `settled_of_resolveTemplateIds` says so of what was resolved, and
  `Settled.resolveTemplateIds_eq` that it is resolved to itself.
* `completedArguments_completed`: flat completed arguments are completed to themselves.
-/

namespace NameBinding

/-- Seeing through typedefs leaves the type and all its arguments as they are. -/
inductive Table.Flat (table : Table) : Descriptor → Prop where
  | intro {type : Descriptor} (flat : table.flattenType type = type)
      (args : ∀ arg ∈ type.templateArgs, table.Flat arg) : table.Flat type

/-- A type is flat if neither it nor its arguments name a typedef, or a declaration that another one stands
for. -/
theorem Table.Flat.of_named {table : Table} {type : Descriptor}
    (named : ∀ link, type.link = some link →
      table.canonical link = link ∧ (table.symbol link).type.isTypedef = false)
    (args : ∀ arg ∈ type.templateArgs, table.Flat arg) : table.Flat type := by
  refine .intro ?_ args
  cases hlink : type.link with
  | none => exact Table.flattenSteps_of_unlinked hlink _
  | some link =>
      obtain ⟨hcanonical, htypedef⟩ := named link hlink
      exact Table.flattenSteps_of_named hlink hcanonical htypedef _

/-- A type that is flat stays so. -/
theorem Table.Grows.flat {table last : Table} (grows : table.Grows last) (calm : table.Calm)
    (typedefs : table.TypedefsEnd) {type : Descriptor} (flat : table.Flat type)
    (below : type.Below table.size) : last.Flat type := by
  induction flat with
  | @intro type flat args ih =>
      refine .intro ?_ fun arg member => ih arg member (below.args arg member)
      rw [grows.flattenType_eq calm typedefs below, flat]

namespace Analysis

variable {inst : Instantiator} {table after last : Table} {depth : Nat} {type resolved : Descriptor}

/-- There is nothing left to resolve in a type whose template-ids are not nested more deeply. -/
inductive Settled (table : Table) : Nat → Descriptor → Prop where
  | plain {depth : Nat} {type : Descriptor} (noArgs : type.templateArgs = []) : Settled table (depth + 1) type
  | kept {depth : Nat} {type : Descriptor} (args : ∀ arg ∈ type.templateArgs, Settled table depth arg)
      (keeps : ∀ link, type.link = some link → ¬ MakesInstance table link type.templateArgs) :
      Settled table (depth + 1) type

theorem Settled.stripDefault (settled : Settled table depth type) :
    Settled table depth type.stripDefault := by
  cases settled with
  | plain noArgs => exact .plain noArgs
  | kept args keeps => exact .kept args keeps

/-- A list whose elements a step leaves as they are is left as it is. -/
theorem mapM_fixed {α : Type} {step : α → Analysis α} {list : List α}
    (fixed : ∀ element ∈ list, step element table = .ok element table) :
    list.mapM step table = .ok list table := by
  induction list with
  | nil => rfl
  | cons first rest ih =>
      rw [List.mapM_cons, bind_ok (fixed first List.mem_cons_self),
        bind_ok (ih fun element member => fixed element (List.mem_cons_of_mem first member))]
      rfl

/-- A settled type in which there is no typedef is resolved to itself. -/
theorem Settled.resolveTemplateIds_eq (settled : Settled table depth type) (flat : table.Flat type) :
    resolveTemplateIds inst depth type table = .ok type table := by
  induction settled with
  | plain noArgs =>
      obtain ⟨hflat, -⟩ := flat
      rw [resolveTemplateIds_apply, hflat, if_pos (List.isEmpty_iff.mpr noArgs)]
      rfl
  | @kept depth type args keeps ih =>
      obtain ⟨hflat, hargs⟩ := flat
      rw [resolveTemplateIds_apply, hflat]
      split
      · rfl
      · rw [bind_ok (mapM_fixed fun arg member => ih arg member (hargs arg member)),
          finishTemplateId_kept keeps]
        cases type
        rfl

/-- What holds of every resolved type holds of a list of them. -/
theorem RecallsTypes.mapM_good {resolve : Descriptor → Analysis Descriptor} {good : Descriptor → Prop}
    {types values : List Descriptor} (recalls : RecallsTypes last resolve)
    (each : ∀ {type value table after}, table.Calm → type.Below table.size →
      resolve type table = .ok value after → after.Grows last → good value)
    (calm : table.Calm) (below : ∀ type ∈ types, type.Below table.size)
    (ends : types.mapM resolve table = .ok values after) (grows : after.Grows last) :
    ∀ value ∈ values, good value := by
  induction types generalizing table values with
  | nil =>
      cases ends
      simp
  | cons type types ih =>
      rw [List.mapM_cons] at ends
      obtain ⟨first, middle, hfirst, ends⟩ := bind_eq_ok.mp ends
      obtain ⟨rest, reached, hrest, ends⟩ := bind_eq_ok.mp ends
      cases ends
      obtain ⟨hmiddle, -⟩ := recalls.advances calm (below type List.mem_cons_self) hfirst
      have hbelow : ∀ type ∈ types, type.Below middle.size := fun other member =>
        (below other (List.mem_cons_of_mem type member)).mono hmiddle.grows.size_le
      obtain ⟨hafter, -⟩ := recalls.advances_mapM hmiddle.calm hbelow hrest
      intro value member
      rcases List.mem_cons.mp member with rfl | later
      · exact each calm (below type List.mem_cons_self) hfirst (hafter.grows.trans grows)
      · exact ih hmiddle.calm hbelow hrest value later

/-- What was resolved is settled. -/
theorem settled_of_resolveTemplateIds (recalls : Recalls last inst) (calm : table.Calm)
    (below : type.Below table.size)
    (ends : resolveTemplateIds inst depth type table = .ok resolved after) (grows : after.Grows last) :
    Settled last depth resolved := by
  induction depth generalizing type table resolved after with
  | zero => cases ends
  | succ depth ih =>
      have hflat := calm.represented.flattenType_below below
      have hresolve := recalls.resolveTemplateIds depth
      cases resolveTemplateIds_eq_ok.mp ends with
      | plain noArgs => exact .plain noArgs
      | made uses resolves linked makes ends => exact .plain rfl
      | @kept args middle uses resolves keeps =>
          obtain ⟨hmiddle, hbelow⟩ := hresolve.advances_mapM calm hflat.args resolves
          refine .kept (hresolve.mapM_good ih calm hflat.args resolves grows) fun link linked makes => ?_
          have hlt := Nat.lt_of_lt_of_le (hflat.link linked) hmiddle.grows.size_le
          exact keeps link linked ((makesInstance_again hmiddle.calm grows hlt hbelow rfl).mp makes)

/-! ## Argument lists -/

section Arguments

variable {parameters : List SymbolId} {args completed : List Descriptor} {bindings : Bindings} {name : Name}
  {position : Nat}

/-- Every parameter gets one argument, which has no default value and is settled. -/
theorem settled_of_completeFrom (recalls : Recalls last inst) (calm : table.Calm)
    (below : ∀ arg ∈ args, arg.Below table.size) (bound : bindings.Below table.size)
    (settled : ∀ arg ∈ args, Settled last depth arg)
    (ends : completeFrom (resolveTemplateIds inst depth) name position parameters args bindings table =
      .ok completed after) (grows : after.Grows last) :
    completed.length = parameters.length ∧
      ∀ arg ∈ completed, arg.defaultValue = none ∧ Settled last depth arg := by
  have hresolve := recalls.resolveTemplateIds depth
  induction parameters generalizing table position args bindings completed with
  | nil =>
      cases ends
      simp
  | cons parameter parameters ih =>
      have hrest : ∀ {middle : Table} {arg : Descriptor} {args completed : List Descriptor},
          middle.Calm → arg.Below middle.size → (∀ arg ∈ args, arg.Below middle.size) →
          bindings.Below middle.size → Settled last depth arg →
          (∀ arg ∈ args, Settled last depth arg) →
          completeAfter (resolveTemplateIds inst depth) name position parameter parameters args bindings arg
            middle = .ok completed after →
          completed.length = (parameter :: parameters).length ∧
            ∀ arg ∈ completed, arg.defaultValue = none ∧ Settled last depth arg := by
        intro middle arg args completed hmiddle harg hargs hbound hsettled hall ends
        obtain ⟨rest, reached, hcompleted, ends⟩ := bind_eq_ok.mp ends
        cases ends
        obtain ⟨hlength, hgood⟩ := ih hmiddle hargs (.cons hbound harg.stripDefault) hall hcompleted
        refine ⟨congrArg (· + 1) hlength, fun other member => ?_⟩
        rcases List.mem_cons.mp member with rfl | later
        · exact ⟨rfl, hsettled.stripDefault⟩
        · exact hgood other later
      cases args with
      | cons arg args =>
          exact hrest calm (below arg List.mem_cons_self)
            (fun other member => below other (List.mem_cons_of_mem arg member)) bound
            (settled arg List.mem_cons_self)
            (fun other member => settled other (List.mem_cons_of_mem arg member)) ends
      | nil =>
          cases hdefault : (table.symbol parameter).type.defaultValue with
          | none =>
              rw [completeFrom_missing hdefault] at ends
              cases ends
          | some value =>
              rw [completeFrom_omitted hdefault] at ends
              obtain ⟨arg, middle, hresolved, ends⟩ := bind_eq_ok.mp ends
              have hsubstituted := calm.represented.substituteParameters_below bound
                table.config.nestingLimit value ((calm.represented.type_below parameter).default hdefault)
              obtain ⟨hmiddle, harg⟩ := hresolve.advances calm hsubstituted hresolved
              have hbound : Bindings.Below middle.size bindings :=
                fun pair member => (bound pair member).mono hmiddle.grows.size_le
              have hafter := hresolve.advances_completeAfter hmiddle.calm (by simp) hbound harg ends
              have hsettled := settled_of_resolveTemplateIds recalls calm hsubstituted hresolved
                (hafter.grows.trans grows)
              exact hrest hmiddle.calm harg (by simp) hbound hsettled (by simp) ends

/-- A list with an argument for every parameter is complete. -/
theorem completeFrom_complete {resolve : Descriptor → Analysis Descriptor}
    (length : args.length = parameters.length) :
    completeFrom resolve name position parameters args bindings table =
      .ok (args.map Descriptor.stripDefault) table := by
  induction parameters generalizing position args bindings with
  | nil =>
      obtain rfl : args = [] := List.length_eq_zero_iff.mp length
      rfl
  | cons parameter parameters ih =>
      cases args with
      | nil => cases length
      | cons arg args =>
          rw [completeFrom_given, completeAfter, bind_ok (ih (Nat.succ.inj length))]
          rfl

/-- Arguments without default values are left as they are. -/
theorem map_stripDefault (stripped : ∀ arg ∈ args, arg.defaultValue = none) :
    args.map Descriptor.stripDefault = args := by
  conv_rhs => rw [← List.map_id args]
  refine List.map_congr_left fun arg member => ?_
  obtain ⟨kind, flags, ops, link, inner, sort, constant, value⟩ := arg
  obtain rfl : value = none := stripped _ member
  rfl

/-- Flat completed arguments are completed to themselves. -/
theorem completedArguments_completed (recalls : Recalls last inst) (calm : table.Calm) {template : SymbolId}
    (lt : template.index < table.size) (below : ∀ arg ∈ args, arg.Below table.size)
    (ends : completedArguments inst depth template args table = .ok completed after)
    (grows : after.Grows last) (flat : ∀ arg ∈ completed, last.Flat arg) :
    completedArguments inst depth template completed last = .ok completed last := by
  have hresolve := recalls.resolveTemplateIds depth
  obtain ⟨resolved, middle, hresolved, hcompleted⟩ := completedArguments_eq_ok.mp ends
  obtain ⟨hmiddle, hbelow⟩ := hresolve.advances_mapM calm below hresolved
  obtain ⟨-, hcompleted⟩ := completeArguments_eq_ok.mp hcompleted
  obtain ⟨hafter, -⟩ := hresolve.advances_completeFrom hmiddle.calm hbelow (.nil _) hcompleted
  have hsettled := hresolve.mapM_good (settled_of_resolveTemplateIds recalls) calm below hresolved
    (hafter.grows.trans grows)
  obtain ⟨hlength, hgood⟩ :=
    settled_of_completeFrom recalls hmiddle.calm hbelow (.nil _) hsettled hcompleted grows
  have hgrows := (hmiddle.grows.trans hafter.grows).trans grows
  have hentity : (table.canonical template).index < middle.size :=
    Nat.lt_of_lt_of_le (calm.represented.canonical_lt lt) hmiddle.grows.size_le
  have hparameters := ((hafter.grows.trans grows).symbols _ hentity).parameters
  refine completedArguments_eq_ok.mpr ⟨completed, last,
    mapM_fixed fun arg member => (hgood arg member).2.resolveTemplateIds_eq (flat arg member), ?_⟩
  have hstripped := map_stripDefault fun arg member => (hgood arg member).1
  rw [hgrows.canonical_eq calm lt, completeArguments_eq_ok, hparameters, completeFrom_complete hlength,
    hstripped]
  exact ⟨Nat.le_of_eq hlength, rfl⟩

/-- The completed arguments of an instantiation that succeeds give the same instance, if they are valid and no
typedef stands in them. -/
theorem instantiateStep_completed {copy : Instantiator} (recalls : Recalls last inst)
    (copies : RemembersCopies copy) (calm : table.Calm) {template made : SymbolId}
    (below : ∀ arg ∈ args, arg.Below table.size)
    (ends : instantiateStep inst copy depth template args table = .ok made after)
    (foretells : after.Foretells last) :
    ∃ completed middle, completedArguments inst depth template args table = .ok completed middle ∧
      (completed.all (·.isValid) = true → (∀ arg ∈ completed, after.Flat arg) →
        instantiateStep inst copy depth template completed last = .ok made last) := by
  obtain ⟨isTemplate, -, completed, middle, hcompleted, ends⟩ := instantiateStep_eq_ok.mp ends
  refine ⟨completed, middle, hcompleted, fun valid flat => ?_⟩
  have hlt := Table.lt_size_of_canonical isTemplate
  have hentity := calm.represented.canonical_lt hlt
  obtain ⟨hmiddle, hbelow⟩ := recalls.advances_completedArguments calm below hcompleted
  have hstill : (middle.symbol (table.canonical template)).isTemplate = true :=
    (hmiddle.grows.symbols _ hentity).isTemplate.trans isTemplate
  have hafter := advances_instanceFor recalls copies hmiddle.calm
    (Nat.lt_of_lt_of_le hentity hmiddle.grows.size_le) hbelow ends
  have hgrows := hafter.grows.trans foretells.grows
  have hflat : ∀ arg ∈ completed, last.Flat arg := fun arg member =>
    foretells.grows.flat hafter.calm foretells.typedefsEnd (flat arg member)
      ((hbelow arg member).mono hafter.grows.size_le)
  have hcanonical := (hmiddle.grows.trans hgrows).canonical_eq calm hlt
  have hlast := (hmiddle.grows.trans hgrows).symbols _ hentity
  refine instantiateStep_eq_ok.mpr ⟨?_, valid, completed, last,
    completedArguments_completed recalls calm hlt below hcompleted hgrows hflat, ?_⟩
  · rw [hcanonical, hlast.isTemplate]
    exact isTemplate
  · rw [hcanonical]
    exact again_instanceFor recalls copies hlast.isTemplateParameter hmiddle.calm hstill hbelow rfl ends
      foretells

end Arguments

end Analysis

end NameBinding
