import NameBinding.Proofs.Table.Asking
import NameBinding.Proofs.Template.HalfBuilt
import NameBinding.Proofs.Template.Runs

/-!
# Instantiating again

What an instantiation has found or made is remembered.  A table that has grown since then gives the same
instance for the same arguments and stays what it is: on the way to the instance nothing is made a second
time, since all that was asked for in between is remembered too.
-/

namespace NameBinding.Analysis

open Descriptor (bareAll)

variable {α β : Type} {table after last : Table}

/-- A step that succeeds has let the table grow. -/
theorem advances_of_ok {step : Analysis α} {result : Table → α → Prop} {value : α}
    (calm : table.Calm) (moves : MovesAt (.copying 0 0) step result table)
    (grows : ∀ before, Keeps (Growth before) step) (ends : step table = .ok value after) :
    table.Advances after ∧ result after value := by
  obtain ⟨hmoved, hresult⟩ := moves.ok ends
  have hgrowth := (grows table table ⟨calm.idle, .refl table⟩).1
  rw [ends] at hgrowth
  exact ⟨⟨hgrowth.1.grows, calm.moved (hmoved.mono (Regime.declaring_allows_copying 0 0))⟩, hresult⟩

/-! ## Types -/

/-- Arguments make an instance in a grown table if they did before. -/
theorem makesInstance_again {link : SymbolId} {args others : List Descriptor} (calm : table.Calm)
    (grows : table.Grows last) (lt : link.index < table.size) (below : ∀ arg ∈ args, arg.Below table.size)
    (same : bareAll others = bareAll args) :
    MakesInstance last link others ↔ MakesInstance table link args := by
  have hsymbol := grows.symbols _ (calm.represented.canonical_lt lt)
  simp only [MakesInstance, grows.canonical_eq calm lt, hsymbol.isTemplate,
    last.anyDependent_of_bareAll same, grows.anyDependent_eq args below]

theorem uses_again {type other : Descriptor} (same : other.bare = type.bare)
    (uses : type.templateArgs ≠ []) : other.templateArgs ≠ [] := by
  have hempty := Descriptor.args_isEmpty_of_bare same
  rwa [Ne, ← List.isEmpty_iff, hempty, List.isEmpty_iff]

/-- Once a type was resolved, `last` resolves what is the same type to the same type, without a change. -/
structure RecallsTypes (last : Table) (resolve : Descriptor → Analysis Descriptor) : Prop where
  resolves : ResolvesTypes (.copying 0 0) resolve
  grows : ∀ before type, Keeps (Growth before) (resolve type)
  again : ∀ {type other resolved table after}, table.Calm → type.Below table.size →
    other.bare = type.bare → resolve type table = .ok resolved after → after.Foretells last →
    ∃ found, resolve other last = .ok found last ∧ found.bare = resolved.bare

/-- Once an instance was made, `last` gives it for the same arguments, without a change. -/
structure Recalls (last : Table) (inst : Instantiator) : Prop where
  makes : MakesInstances (.copying 0 0) inst
  grows : ∀ before, Follows (Growth before) .none inst inst
  again : ∀ {template args others made table after}, table.Calm → (∀ arg ∈ args, arg.Below table.size) →
    bareAll others = bareAll args → inst template args table = .ok made after →
    after.Foretells last → inst template others last = .ok made last

namespace RecallsTypes

variable {resolve : Descriptor → Analysis Descriptor}

theorem advances (recalls : RecallsTypes last resolve) {type resolved : Descriptor} (calm : table.Calm)
    (below : type.Below table.size) (ends : resolve type table = .ok resolved after) :
    table.Advances after ∧ resolved.Below after.size :=
  advances_of_ok calm (recalls.resolves type table calm.sound below) (fun before => recalls.grows before type)
    ends

theorem advances_mapM (recalls : RecallsTypes last resolve) {types resolved : List Descriptor}
    (calm : table.Calm) (below : ∀ type ∈ types, type.Below table.size)
    (ends : types.mapM resolve table = .ok resolved after) :
    table.Advances after ∧ ∀ type ∈ resolved, type.Below after.size := by
  have hmoves := MovesAt.mapM below_mono calm.sound fun type member after hsound le =>
    recalls.resolves type after hsound ((below type member).mono le)
  exact advances_of_ok calm hmoves (fun before => Yields.mapM fun type _ => recalls.grows before type) ends

theorem again_mapM (recalls : RecallsTypes last resolve) {types others resolved : List Descriptor}
    (calm : table.Calm) (below : ∀ type ∈ types, type.Below table.size)
    (same : bareAll others = bareAll types) (ends : types.mapM resolve table = .ok resolved after)
    (foretells : after.Foretells last) :
    ∃ found, others.mapM resolve last = .ok found last ∧ bareAll found = bareAll resolved := by
  induction types generalizing others resolved table with
  | nil =>
      obtain rfl : others = [] := by simpa using Descriptor.length_of_bareAll same
      cases ends
      exact ⟨[], rfl, rfl⟩
  | cons type types ih =>
      cases others with
      | nil => simp [bareAll] at same
      | cons other others =>
          simp only [bareAll, List.cons.injEq] at same
          rw [List.mapM_cons] at ends
          obtain ⟨value, middle, hvalue, ends⟩ := bind_eq_ok.mp ends
          obtain ⟨values, reached, hvalues, ends⟩ := bind_eq_ok.mp ends
          cases ends
          have hrest : ∀ type ∈ types, type.Below table.size :=
            fun type member => below type (List.mem_cons_of_mem _ member)
          obtain ⟨hfirst, -⟩ := recalls.advances calm (below type List.mem_cons_self) hvalue
          have hbelow : ∀ type ∈ types, type.Below middle.size :=
            fun type member => (hrest type member).mono hfirst.grows.size_le
          obtain ⟨hlater, -⟩ := recalls.advances_mapM hfirst.calm hbelow hvalues
          obtain ⟨found, hfound, hsame⟩ := recalls.again calm (below type List.mem_cons_self) same.1
            hvalue (foretells.earlier hfirst.calm hlater.grows)
          obtain ⟨founds, hfounds, hsames⟩ := ih hfirst.calm hbelow same.2 hvalues
          refine ⟨found :: founds, ?_, by simp [bareAll, hsame, hsames]⟩
          rw [List.mapM_cons, bind_ok hfound, bind_ok hfounds]
          rfl

/-! ### Argument lists -/

variable {parameters : List SymbolId} {args others completed : List Descriptor}
  {bindings bindings' : Bindings} {name name' : Name} {position position' : Nat}

theorem advances_completeFrom (recalls : RecallsTypes last resolve) (calm : table.Calm)
    (below : ∀ arg ∈ args, arg.Below table.size) (bound : bindings.Below table.size)
    (ends : completeFrom resolve name position parameters args bindings table = .ok completed after) :
    table.Advances after ∧ ∀ arg ∈ completed, arg.Below after.size :=
  advances_of_ok calm
    (moves_completeFrom recalls.resolves name parameters position args bindings table calm.sound below bound)
    (fun before => tracks_completeFrom (recalls.grows before) name parameters position args bindings) ends

theorem advances_completeAfter (recalls : RecallsTypes last resolve) {parameter : SymbolId}
    {arg : Descriptor} (calm : table.Calm) (below : ∀ arg ∈ args, arg.Below table.size)
    (bound : bindings.Below table.size) (found : arg.Below table.size)
    (ends : completeAfter resolve name position parameter parameters args bindings arg table =
      .ok completed after) : table.Advances after := by
  obtain ⟨rest, reached, hcompleted, ends⟩ := bind_eq_ok.mp ends
  cases ends
  exact (recalls.advances_completeFrom calm below (.cons bound found.stripDefault) hcompleted).1

/-- What is completed is completed to the same list again. -/
theorem again_completeFrom (recalls : RecallsTypes last resolve) (calm : table.Calm)
    (within : ∀ parameter ∈ parameters, parameter.index < table.size)
    (below : ∀ arg ∈ args, arg.Below table.size) (bound : bindings.Below table.size)
    (same : bareAll others = bareAll args) (sameBound : bindings'.bare = bindings.bare)
    (ends : completeFrom resolve name position parameters args bindings table = .ok completed after)
    (foretells : after.Foretells last) :
    ∃ found, completeFrom resolve name' position' parameters others bindings' last = .ok found last ∧
      bareAll found = bareAll completed := by
  induction parameters generalizing table position position' args others bindings bindings' completed with
  | nil =>
      cases ends
      exact ⟨[], rfl, rfl⟩
  | cons parameter parameters ih =>
      -- However the argument was found, the rest of the list is completed in the same way.
      have hrest : ∀ {middle : Table} {arg other : Descriptor} {args others completed : List Descriptor},
          middle.Calm → table.Grows middle → arg.Below middle.size →
          (∀ arg ∈ args, arg.Below middle.size) → other.bare = arg.bare →
          bareAll others = bareAll args →
          completeAfter resolve name position parameter parameters args bindings arg middle =
            .ok completed after →
          ∃ found, completeAfter resolve name' position' parameter parameters others bindings' other
            last = .ok found last ∧ bareAll found = bareAll completed := by
        intro middle arg other args others completed hmiddle grows harg hbelow hsame hsames ends
        obtain ⟨rest, reached, hcompleted, ends⟩ := bind_eq_ok.mp ends
        cases ends
        have hbound : Bindings.Below middle.size ((parameter, arg.stripDefault) :: bindings) :=
          .cons (fun pair member => (bound pair member).mono grows.size_le) harg.stripDefault
        have hstripped : other.stripDefault.bare = arg.stripDefault.bare := by
          rw [Descriptor.bare_stripDefault, Descriptor.bare_stripDefault, hsame]
        have hsameBound : Bindings.bare ((parameter, other.stripDefault) :: bindings') =
            Bindings.bare ((parameter, arg.stripDefault) :: bindings) := by
          rw [Bindings.bare_cons, Bindings.bare_cons, hstripped, sameBound]
        obtain ⟨found, hfound, hfounds⟩ := ih hmiddle
          (fun other member => Nat.lt_of_lt_of_le
            (within other (List.mem_cons_of_mem parameter member)) grows.size_le)
          hbelow hbound hsames hsameBound hcompleted
        refine ⟨other.stripDefault :: found, ?_, by rw [bareAll, bareAll, hstripped, hfounds]⟩
        rw [completeAfter, bind_ok hfound]
        rfl
      cases args with
      | cons arg args =>
          cases others with
          | nil => simp [bareAll] at same
          | cons other others =>
              simp only [bareAll, List.cons.injEq] at same
              exact hrest calm (.refl table) (below arg List.mem_cons_self)
                (fun other member => below other (List.mem_cons_of_mem arg member)) same.1 same.2 ends
      | nil =>
          obtain rfl : others = [] := by simpa using Descriptor.length_of_bareAll same
          cases hdefault : (table.symbol parameter).type.defaultValue with
          | none =>
              rw [completeFrom_missing hdefault] at ends
              cases ends
          | some value =>
              rw [completeFrom_omitted hdefault] at ends
              obtain ⟨arg, middle, hresolved, ends⟩ := bind_eq_ok.mp ends
              have hvalue := (calm.represented.type_below parameter).default hdefault
              have hsubstituted := calm.represented.substituteParameters_below bound
                table.config.nestingLimit value hvalue
              obtain ⟨hmiddle, harg⟩ := recalls.advances calm hsubstituted hresolved
              have hbound : Bindings.Below middle.size bindings :=
                fun pair member => (bound pair member).mono hmiddle.grows.size_le
              have hafter := recalls.advances_completeAfter hmiddle.calm (by simp) hbound harg ends
              have hforetold := foretells.earlier hmiddle.calm hafter.grows
              have hgrows := hmiddle.grows.trans hforetold.grows
              have hdefault' : (last.symbol parameter).type.defaultValue = some value := by
                rw [(hgrows.symbols parameter (within parameter List.mem_cons_self)).type, hdefault]
              have hsame : (last.substituteParameters bindings' last.config.nestingLimit value).bare =
                  (table.substituteParameters bindings table.config.nestingLimit value).bare := by
                rw [last.bare_substituteParameters sameBound, hgrows.config,
                  hgrows.substituteParameters_eq calm.represented _ hvalue]
              obtain ⟨other, hother, hfound⟩ :=
                recalls.again calm hsubstituted hsame hresolved hforetold
              rw [completeFrom_omitted hdefault', bind_ok hother]
              exact hrest hmiddle.calm hmiddle.grows harg (by simp) hfound rfl ends

end RecallsTypes

namespace Recalls

variable {inst : Instantiator}

theorem advances (recalls : Recalls last inst) {template made : SymbolId} {args : List Descriptor}
    (calm : table.Calm) (below : ∀ arg ∈ args, arg.Below table.size)
    (ends : inst template args table = .ok made after) :
    table.Advances after ∧ made.index < after.size :=
  advances_of_ok calm (recalls.makes template args table calm.sound below)
    (fun before => recalls.grows before template args) ends

/-- Where instances are recalled, types are resolved to the same types again. -/
theorem resolveTemplateIds (recalls : Recalls last inst) (depth : Nat) :
    RecallsTypes last (resolveTemplateIds inst depth) := by
  induction depth with
  | zero =>
      refine ⟨moves_resolveTemplateIds recalls.makes 0, fun before type => Yields.violated _ _, ?_⟩
      intro type other resolved table after _ _ _ ends
      cases ends
  | succ depth ih =>
      refine ⟨moves_resolveTemplateIds recalls.makes (depth + 1),
        fun before => tracks_resolveTemplateIds (recalls.grows before) (depth + 1), ?_⟩
      intro type other resolved table after calm below same ends foretells
      have hflat := calm.represented.flattenType_below below
      -- Both types are the same without their typedefs, too.
      have hsame : table.Foretells last →
          (last.flattenType other).bare = (table.flattenType type).bare := by
        intro known
        rw [last.bare_flattenType same, known.grows.flattenType_eq calm known.typedefsEnd below]
      rw [resolveTemplateIds_eq_ok] at ends
      cases ends with
      | plain noArgs =>
          have hbare := hsame foretells
          refine ⟨last.flattenType other, resolveTemplateIds_eq_ok.mpr (.plain ?_), hbare⟩
          have hempty := Descriptor.args_isEmpty_of_bare hbare
          rwa [noArgs, List.isEmpty_nil, List.isEmpty_iff] at hempty
      | @made args middle after link made uses resolves linked makes ends =>
          obtain ⟨hmiddle, hargs⟩ := ih.advances_mapM calm hflat.args resolves
          obtain ⟨hafter, -⟩ := recalls.advances hmiddle.calm hargs ends
          have hforetold := foretells.earlier hmiddle.calm hafter.grows
          have hbare := hsame (hforetold.earlier calm hmiddle.grows)
          obtain ⟨founds, hfounds, hsames⟩ := ih.again_mapM calm hflat.args
            (Descriptor.bareAll_args_of_bare hbare) resolves hforetold
          have hlinked := Descriptor.link_of_bare hbare
          have hlt := Nat.lt_of_lt_of_le (hflat.link linked) hmiddle.grows.size_le
          have hmakes := (makesInstance_again hmiddle.calm hforetold.grows hlt hargs hsames).mpr makes
          have hends := recalls.again hmiddle.calm hargs hsames ends foretells
          refine ⟨_, resolveTemplateIds_eq_ok.mpr
            (.made (uses_again hbare uses) hfounds (hlinked.trans linked) hmakes hends), ?_⟩
          obtain ⟨hkind, hflags, hops, -, -, hsort, hconstant⟩ := (Descriptor.bare_eq_iff _ _).mp hbare
          exact (Descriptor.bare_eq_iff _ _).mpr ⟨hkind, hflags, hops, rfl, rfl, hsort, hconstant⟩
      | @kept args middle uses resolves keeps =>
          obtain ⟨hmiddle, hargs⟩ := ih.advances_mapM calm hflat.args resolves
          have hbare := hsame (foretells.earlier calm hmiddle.grows)
          obtain ⟨founds, hfounds, hsames⟩ := ih.again_mapM calm hflat.args
            (Descriptor.bareAll_args_of_bare hbare) resolves foretells
          have hkeeps : ∀ link, (last.flattenType other).link = some link →
              ¬ MakesInstance last link founds := by
            intro link linked
            rw [Descriptor.link_of_bare hbare] at linked
            have hlt := Nat.lt_of_lt_of_le (hflat.link linked) hmiddle.grows.size_le
            rw [makesInstance_again hmiddle.calm foretells.grows hlt hargs hsames]
            exact keeps link linked
          refine ⟨_, resolveTemplateIds_eq_ok.mpr (.kept (uses_again hbare uses) hfounds hkeeps), ?_⟩
          obtain ⟨hkind, hflags, hops, hlink, -, hsort, hconstant⟩ :=
            (Descriptor.bare_eq_iff _ _).mp hbare
          exact (Descriptor.bare_eq_iff _ _).mpr ⟨hkind, hflags, hops, hlink, hsames, hsort, hconstant⟩

/-! ### Completed arguments -/

variable {template : SymbolId} {args others completed : List Descriptor} {depth : Nat}

theorem advances_completedArguments (recalls : Recalls last inst) (calm : table.Calm)
    (below : ∀ arg ∈ args, arg.Below table.size)
    (ends : completedArguments inst depth template args table = .ok completed after) :
    table.Advances after ∧ ∀ arg ∈ completed, arg.Below after.size := by
  have hresolve := recalls.resolveTemplateIds depth
  obtain ⟨resolved, middle, hresolved, hcompleted⟩ := completedArguments_eq_ok.mp ends
  obtain ⟨hmiddle, hbelow⟩ := hresolve.advances_mapM calm below hresolved
  obtain ⟨-, hcompleted⟩ := completeArguments_eq_ok.mp hcompleted
  obtain ⟨hafter, hgiven⟩ := hresolve.advances_completeFrom hmiddle.calm hbelow (.nil _) hcompleted
  exact ⟨hmiddle.trans hafter, hgiven⟩

theorem again_completedArguments (recalls : Recalls last inst) (calm : table.Calm)
    (lt : template.index < table.size) (below : ∀ arg ∈ args, arg.Below table.size)
    (same : bareAll others = bareAll args)
    (ends : completedArguments inst depth template args table = .ok completed after)
    (foretells : after.Foretells last) :
    ∃ found, completedArguments inst depth template others last = .ok found last ∧
      bareAll found = bareAll completed := by
  have hresolve := recalls.resolveTemplateIds depth
  obtain ⟨resolved, middle, hresolved, hcompleted⟩ := completedArguments_eq_ok.mp ends
  obtain ⟨hmiddle, hbelow⟩ := hresolve.advances_mapM calm below hresolved
  obtain ⟨henough, hcompleted⟩ := completeArguments_eq_ok.mp hcompleted
  obtain ⟨hafter, -⟩ := hresolve.advances_completeFrom hmiddle.calm hbelow (.nil _) hcompleted
  have hforetold := foretells.earlier hmiddle.calm hafter.grows
  have hcanonical := (hmiddle.grows.trans hforetold.grows).canonical_eq calm lt
  -- The template has the parameters that it had.
  have hentity : (table.canonical template).index < middle.size :=
    Nat.lt_of_lt_of_le (calm.represented.canonical_lt lt) hmiddle.grows.size_le
  have hparameters := (hforetold.grows.symbols _ hentity).parameters
  have hwithin : ∀ parameter ∈ (middle.symbol (table.canonical template)).parameters,
      parameter.index < middle.size :=
    fun parameter member => hmiddle.calm.represented.parameters_within _ parameter member
  obtain ⟨founds, hfounds, hsames⟩ := hresolve.again_mapM calm below same hresolved hforetold
  obtain ⟨found, hfound, hsame⟩ := hresolve.again_completeFrom hmiddle.calm hwithin hbelow (.nil _) hsames
    rfl hcompleted foretells
  refine ⟨found, completedArguments_eq_ok.mpr ⟨founds, last, hfounds, ?_⟩, hsame⟩
  rw [hcanonical, completeArguments_eq_ok, hparameters]
  exact ⟨Descriptor.length_of_bareAll hsames ▸ henough, hfound⟩

end Recalls

/-! ## Placeholders -/

section Instances

variable {inst copy : Instantiator} {template made : SymbolId} {args others : List Descriptor}

theorem payload_of_isTemplate {symbol : Symbol} (isTemplate : symbol.isTemplate = true) :
    ∃ data, symbol.payload = .template data := by
  obtain ⟨data, hdata⟩ := Option.isSome_iff_exists.mp isTemplate
  unfold Symbol.templateData? at hdata
  split at hdata
  · rename_i hpayload
    exact ⟨_, hpayload⟩
  · cases hdata

/-- A template remembers the placeholder that is made for it. -/
theorem placeholders_perform (isTemplate : (table.symbol template).isTemplate = true) (entry : Instance) :
    ((table.perform template (.append (.placeholder entry))).symbol template).placeholders =
      (table.symbol template).placeholders ++ [entry] := by
  have hlt := Table.lt_size_of_symbol (·.isTemplate) rfl isTemplate
  obtain ⟨data, hpayload⟩ := payload_of_isTemplate isTemplate
  rw [Table.symbol_perform, if_pos ⟨rfl, hlt⟩]
  simp [Edit.apply, Entry.append, Symbol.mapTemplate, hpayload, Symbol.placeholders,
    Symbol.templateData?]

/-- A template remembers the instance that is made for it. -/
theorem instances_perform (isTemplate : (table.symbol template).isTemplate = true) (entry : Instance) :
    ((table.perform template (.append (.cached entry))).symbol template).instances =
      (table.symbol template).instances ++ [entry] := by
  have hlt := Table.lt_size_of_symbol (·.isTemplate) rfl isTemplate
  obtain ⟨data, hpayload⟩ := payload_of_isTemplate isTemplate
  rw [Table.symbol_perform, if_pos ⟨rfl, hlt⟩]
  simp [Edit.apply, Entry.append, Symbol.mapTemplate, hpayload, Symbol.instances, Symbol.templateData?]

/-- The placeholder for dependent arguments is found again. -/
theorem again_deferredInstance (isTemplate : (table.symbol template).isTemplate = true)
    (same : bareAll others = bareAll args)
    (ends : deferredInstance template args table = .ok made after) (grows : after.Grows last) :
    deferredInstance template others last = .ok made last := by
  have hlt := Table.lt_size_of_symbol (·.isTemplate) rfl isTemplate
  suffices hfound : ∃ entry, (after.symbol template).placeholders.find? (fun entry =>
      Descriptor.sameAll entry.args args) = some entry ∧ entry.symbol = made ∧
        template.index < after.size by
    obtain ⟨entry, hfound, rfl, hafter⟩ := hfound
    refine deferredInstance_known ?_
    simp only [Descriptor.sameAll_of_bareAll same]
    exact (grows.symbols template hafter).placeholders.find?_eq_some hfound
  cases hknown : (table.symbol template).placeholders.find? (fun entry =>
      Descriptor.sameAll entry.args args) with
  | some entry =>
      rw [deferredInstance_known hknown] at ends
      cases ends
      exact ⟨entry, hknown, rfl, hlt⟩
  | none =>
      rw [deferredInstance_made hknown] at ends
      cases ends
      let pushed := (table.allocate (placeholderFor template args (table.symbol template))).2
      have hold : pushed.symbol template = table.symbol template := Table.symbol_allocate hlt _
      refine ⟨⟨args, ⟨table.size⟩⟩, ?_, rfl, ?_⟩
      · rw [placeholders_perform (hold.symm ▸ isTemplate), hold,
          List.find?_append, hknown]
        simp [Descriptor.sameAll_iff]
      · rw [Table.size_perform, Table.size_allocate]
        exact Nat.lt_succ_of_lt hlt

/-! ## Concrete instances -/

/-- What copies a template remembers the copy. -/
structure RemembersCopies (copy : Instantiator) : Prop where
  makes : MakesCopies (.copying 0 0) copy
  grows : ∀ before, Follows (Growth before) .none copy copy
  remembers : ∀ {template args made table after}, table.Idle →
    copy template args table = .ok made after → after.Remembers template ⟨args, made⟩

/-- A remembered instance is the one that is found, unless there is an explicit specialization. -/
theorem existingInstance?_of_remembers (each : table.OneInstanceEach)
    (absent : (table.symbol template).explicits.find? (fun entry =>
      Descriptor.sameAll entry.args args) = none)
    (remembers : table.Remembers template ⟨args, made⟩) :
    table.existingInstance? template args = some made := by
  have hself : Descriptor.sameAll args args = true := (Descriptor.sameAll_iff _ _).mpr rfl
  rw [Table.existingInstance?_eq_map, absent, Option.none_or, Option.map_eq_some_iff]
  cases hfound : (table.symbol template).instances.find? (fun entry =>
      Descriptor.sameAll entry.args args) with
  | none => exact absurd hself (by simpa using List.find?_eq_none.mp hfound _ remembers)
  | some entry =>
      have hsame := List.find?_some hfound
      exact ⟨entry, rfl, each template entry (List.mem_of_find?_eq_some hfound) _ remembers hsame⟩

theorem advances_concreteInstance (recalls : Recalls last inst) (copies : RemembersCopies copy)
    (calm : table.Calm) (lt : template.index < table.size) (below : ∀ arg ∈ args, arg.Below table.size)
    (ends : concreteInstance inst copy template args table = .ok made after) : table.Advances after :=
  (advances_of_ok calm
    (moves_concreteInstance (allowsCaches_copying 0 0) recalls.makes copies.makes calm.sound lt below)
    (fun before => tracks_concreteInstance (Growth.admitsInstances.adoption (recalls.grows before))
      (copies.grows before) template args) ends).1

/-- However a concrete instance was found or made, it is remembered afterwards. -/
theorem existingInstance?_of_concreteInstance (recalls : Recalls last inst)
    (copies : RemembersCopies copy) (calm : table.Calm)
    (isTemplate : (table.symbol template).isTemplate = true)
    (below : ∀ arg ∈ args, arg.Below table.size) (each : after.OneInstanceEach)
    (ends : concreteInstance inst copy template args table = .ok made after) :
    after.existingInstance? template args = some made := by
  have hlt := Table.lt_size_of_symbol (·.isTemplate) rfl isTemplate
  have hafter := advances_concreteInstance recalls copies calm hlt below ends
  have hnoExplicit : table.existingInstance? template args = none →
      (after.symbol template).explicits.find? (fun entry =>
        Descriptor.sameAll entry.args args) = none := by
    intro absent
    rw [Table.existingInstance?_eq_map, Option.map_eq_none_iff, Option.or_eq_none_iff] at absent
    rw [(hafter.grows.symbols template hlt).explicits]
    exact absent.1
  cases ConcreteRun.of_ok ends with
  | known known => exact known
  | @specialized specialization _ deduced middle absent selects hmade =>
      have hdeduced := calm.represented.selectSpecialization_below below selects
      obtain ⟨hmiddle, -⟩ := recalls.advances calm hdeduced hmade
      have hstill : (middle.symbol template).isTemplate = true := by
        rw [(hmiddle.grows.symbols template hlt).isTemplate]
        exact isTemplate
      have hrecorded := Table.remembers_cached hstill ⟨args, made⟩
      exact existingInstance?_of_remembers each (hnoExplicit absent)
        (hrecorded.modify rfl fun _ => Edit.mem_instances _)
  | copied absent hcopied =>
      exact existingInstance?_of_remembers each (hnoExplicit absent)
        (copies.remembers calm.idle hcopied)

/-- Arguments that are the same fit the same parameters. -/
theorem firstMismatch?_again {parameters : List SymbolId} (calm : table.Calm) (grows : table.Grows last)
    (within : ∀ parameter ∈ parameters, parameter.index < table.size)
    (below : ∀ arg ∈ args, arg.Below table.size) (same : bareAll others = bareAll args) :
    firstMismatch? last parameters others = firstMismatch? table parameters args := by
  unfold firstMismatch?
  induction parameters generalizing args others with
  | nil => rfl
  | cons parameter parameters ih =>
      cases args with
      | nil =>
          obtain rfl : others = [] := by simpa using Descriptor.length_of_bareAll same
          rfl
      | cons arg args =>
          cases others with
          | nil => simp [bareAll] at same
          | cons other others =>
              simp only [bareAll, List.cons.injEq] at same
              have hfirst : last.fitsParameter parameter other = table.fitsParameter parameter arg := by
                rw [last.fitsParameter_of_bare parameter same.1, grows.fitsParameter_eq calm
                  (within parameter List.mem_cons_self) (below arg List.mem_cons_self)]
              have hrest := ih (fun other member => within other (List.mem_cons_of_mem parameter member))
                (fun other member => below other (List.mem_cons_of_mem arg member)) same.2
              simp only [List.zip_cons_cons, List.findIdx?_cons, hfirst, hrest]

theorem advances_instanceFor (recalls : Recalls last inst) (copies : RemembersCopies copy) {symbol : Symbol}
    (calm : table.Calm) (lt : template.index < table.size) (below : ∀ arg ∈ args, arg.Below table.size)
    (ends : instanceFor inst copy symbol template args table = .ok made after) : table.Advances after := by
  cases dependent : (symbol.isTemplateParameter || table.anyDependent args) with
  | true =>
      rw [instanceFor_deferred dependent] at ends
      exact (advances_of_ok calm
        (moves_deferredInstance (allowsCaches_copying 0 0) calm.sound lt below)
        (fun before => tracks_deferredInstance Growth.admitsInstances.memory template args) ends).1
  | false =>
      rw [instanceFor_fits dependent (fits_of_instanceFor_ok dependent ends)] at ends
      exact advances_concreteInstance recalls copies calm lt below ends

/-- The instance for completed arguments is found again. -/
theorem again_instanceFor (recalls : Recalls last inst) (copies : RemembersCopies copy)
    {symbol symbol' : Symbol} (parameter : symbol'.isTemplateParameter = symbol.isTemplateParameter)
    (calm : table.Calm) (isTemplate : (table.symbol template).isTemplate = true)
    (below : ∀ arg ∈ args, arg.Below table.size) (same : bareAll others = bareAll args)
    (ends : instanceFor inst copy symbol template args table = .ok made after)
    (foretells : after.Foretells last) :
    instanceFor inst copy symbol' template others last = .ok made last := by
  have hlt := Table.lt_size_of_symbol (·.isTemplate) rfl isTemplate
  have hafter := advances_instanceFor recalls copies calm hlt below ends
  have hgrows := hafter.grows.trans foretells.grows
  -- Whether there is a dependent argument does not change.
  have hdependent : (symbol'.isTemplateParameter || last.anyDependent others) =
      (symbol.isTemplateParameter || table.anyDependent args) := by
    rw [parameter, last.anyDependent_of_bareAll same, hgrows.anyDependent_eq args below]
  cases dependent : (symbol.isTemplateParameter || table.anyDependent args) with
  | true =>
      rw [instanceFor_deferred dependent] at ends
      rw [instanceFor_deferred (hdependent.trans dependent)]
      exact again_deferredInstance isTemplate same ends foretells.grows
  | false =>
      have hfits := fits_of_instanceFor_ok dependent ends
      rw [instanceFor_fits dependent hfits] at ends
      have hfits' : firstMismatch? last (last.symbol template).parameters others = none := by
        rw [(hgrows.symbols template hlt).parameters, firstMismatch?_again calm hgrows
          (fun other member => calm.represented.parameters_within template other member) below same, hfits]
      have hexists := existingInstance?_of_concreteInstance recalls copies calm isTemplate below
        foretells.oneEach ends
      rw [instanceFor_fits (hdependent.trans dependent) hfits', concreteInstance_known]
      rw [last.existingInstance?_of_bareAll template same]
      exact foretells.grows.existingInstance?_eq
        (Nat.lt_of_lt_of_le hlt hafter.grows.size_le) hexists

/-- One level of instantiation recalls what the deeper levels recall and the copies remember. -/
theorem recalls_instantiateStep (recalls : Recalls last inst) (copies : RemembersCopies copy) (depth : Nat) :
    Recalls last (instantiateStep inst copy depth) where
  makes := moves_instantiateStep (allowsCaches_copying 0 0) recalls.makes copies.makes depth
  grows := fun before =>
    tracks_instantiateStep Growth.admitsInstances (recalls.grows before) (copies.grows before) depth
  again := by
    intro template args others made table after calm below same ends foretells
    obtain ⟨isTemplate, valid, completed, middle, hcompleted, ends⟩ := instantiateStep_eq_ok.mp ends
    have hlt := Table.lt_size_of_canonical isTemplate
    have hentity := calm.represented.canonical_lt hlt
    obtain ⟨hmiddle, hbelow⟩ := recalls.advances_completedArguments calm below hcompleted
    have hsymbol := hmiddle.grows.symbols _ hentity
    have hstill : (middle.symbol (table.canonical template)).isTemplate = true :=
      hsymbol.isTemplate.trans isTemplate
    have hafter := advances_instanceFor recalls copies hmiddle.calm
      (Nat.lt_of_lt_of_le hentity hmiddle.grows.size_le) hbelow ends
    have hforetold := foretells.earlier hmiddle.calm hafter.grows
    obtain ⟨found, hfound, hsame⟩ :=
      recalls.again_completedArguments calm hlt below same hcompleted hforetold
    have hgrows := hmiddle.grows.trans hforetold.grows
    have hcanonical := hgrows.canonical_eq calm hlt
    have hlast := hgrows.symbols _ hentity
    refine instantiateStep_eq_ok.mpr ⟨?_, ?_, found, last, hfound, ?_⟩
    · rw [hcanonical, hlast.isTemplate]
      exact isTemplate
    · rw [Descriptor.all_isValid_of_bareAll same]
      exact valid
    · rw [hcanonical]
      exact again_instanceFor recalls copies hlast.isTemplateParameter hmiddle.calm hstill hbelow hsame ends
        foretells

end Instances

/-! ## Copies -/

section Copies

variable {template made : SymbolId} {args : List Descriptor} {bound : Nat}

/-- The instance that is copied is the next symbol. -/
theorem copyTemplate_made {substitute : Substituter}
    (ends : copyTemplate substitute bound template args table = .ok made after) :
    made = ⟨table.size⟩ ∧ (table.templated? template).isSome := by
  rw [copyTemplate, get_bind] at ends
  cases htemplated : table.templated? template with
  | none =>
      simp only [htemplated] at ends
      cases ends
  | some templated =>
      simp only [htemplated] at ends
      obtain ⟨id, created, hcreated, ends⟩ := bind_eq_ok.mp ends
      obtain ⟨_, recorded, -, ends⟩ := bind_eq_ok.mp ends
      obtain ⟨position, opened, -, ends⟩ := bind_eq_ok.mp ends
      obtain ⟨_, filled, -, ends⟩ := bind_eq_ok.mp ends
      obtain ⟨_, linked, -, ends⟩ := bind_eq_ok.mp ends
      cases ends
      cases hcreated
      exact ⟨rfl, rfl⟩

/-- An outermost instantiation that succeeds has completed its copy. -/
theorem instantiateUncached_ok (idle : table.Idle)
    (ends : instantiateUncached (instantiateWithin bound) bound template args table = .ok made after) :
    ∃ middle, completeCopy (instantiateWithin bound) bound template args (table.symbol template).name
      table.config.passLimit table.copyBegun = .ok made middle ∧ after.symbols = middle.symbols := by
  rw [instantiateUncached_idle idle] at ends
  have hcopies := copiesFrom_completeCopy bound template args table (table.symbol template).name
    table.config.passLimit
  cases hcopy : completeCopy (instantiateWithin bound) bound template args
      (table.symbol template).name table.config.passLimit table.copyBegun with
  | error interrupt middle =>
      cases interrupt with
      | error error =>
          rw [outermostCopy_error hcopies idle hcopy] at ends
          cases ends
      | fault fault =>
          rw [outermostCopy_apply, hcopy] at ends
          cases ends
  | ok copied middle =>
      obtain ⟨last, hlast, -, hsymbols, -⟩ := outermostCopy_ok hcopies idle hcopy
      rw [hlast] at ends
      cases ends
      exact ⟨middle, rfl, hsymbols⟩

/-- The instance that an outermost instantiation makes is a new symbol. -/
theorem instantiateUncached_made (idle : table.Idle)
    (ends : instantiateUncached (instantiateWithin bound) bound template args table = .ok made after) :
    made = ⟨table.size⟩ := by
  obtain ⟨middle, hcopy, -⟩ := instantiateUncached_ok idle ends
  obtain ⟨id, filled, hfilled, hdrained⟩ := bind_eq_ok.mp hcopy
  obtain ⟨_, reached, -, hdrained⟩ := bind_eq_ok.mp hdrained
  cases hdrained
  exact (copyTemplate_made hfilled).1

theorem instantiateUncached_remembers (idle : table.Idle)
    (ends : instantiateUncached (instantiateWithin bound) bound template args table = .ok made after) :
    after.Remembers template ⟨args, made⟩ := by
  obtain ⟨middle, hcopy, hsymbols⟩ := instantiateUncached_ok idle ends
  have hlasts := Table.Remembers.lasts table.size template ⟨args, ⟨table.copyBegun.size⟩⟩
  have hsubstitutes :=
    Copying.follow_substituter (Copying.follows_instantiateWithin hlasts bound 0) bound
  obtain ⟨id, filled, hfilled, hdrained⟩ := bind_eq_ok.mp hcopy
  obtain ⟨rfl, hdeclares⟩ := copyTemplate_made hfilled
  -- The copy is remembered when it is filled, and finishing queued work forgets nothing.
  have hremembers := copyTemplate_remembers idle.copying (hsubstitutes false) hdeclares bound
  have hcopying := (Copying.follow_copyTemplate hlasts.survives (hsubstitutes false) bound template args
    table.copyBegun idle.copying).1
  rw [hfilled] at hremembers hcopying
  obtain ⟨_, reached, hreached, hdrained⟩ := bind_eq_ok.mp hdrained
  have hdrain := (Copying.follow_drainQueue hlasts.survives (hsubstitutes true) (table.symbol template).name
    table.config.passLimit filled hcopying.1).2 (.inl hremembers.1)
  rw [hreached] at hdrain
  cases hdrained
  unfold Table.Remembers Table.symbol
  rw [hsymbols]
  exact hdrain.1

theorem remembersCopies_instantiateUncached (bound : Nat) :
    RemembersCopies (instantiateUncached (instantiateWithin bound) bound) where
  makes := makesCopies_instantiateUncached (makesInstances_instantiateWithin bound) 0 0
  grows := fun _ => Growth.follows_instantiateUncached bound
  remembers := fun idle ends => instantiateUncached_remembers idle ends

end Copies

/-- What an instantiation has found or made is found again, as long as the table only grows. -/
theorem recalls_instantiateWithin (last : Table) (bound : Nat) : Recalls last (instantiateWithin bound) := by
  induction bound with
  | zero =>
      refine ⟨fun template args table _ _ => .violated _, fun before template args => Yields.violated _ _, ?_⟩
      intro template args others made table after _ _ _ ends
      cases ends
  | succ bound ih => exact recalls_instantiateStep ih (remembersCopies_instantiateUncached bound) bound

end NameBinding.Analysis
