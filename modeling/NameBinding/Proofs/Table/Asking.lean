import NameBinding.Proofs.Table.Typedefs
import NameBinding.Proofs.Template.InstantiationMoves
import NameBinding.Proofs.Template.SameArguments

/-!
# Asking a grown table

A table that has grown answers as before about the symbols that were there before.

* `Table.Calm`: no instantiation is running, everything mentioned exists, and chains of links end.
* `Table.OneInstanceEach`: no template remembers two instances for one tuple of arguments.
* `Grows.canonical_eq`, `flattenType_eq`, `fitsParameter_eq` and so on: what a grown table still answers.
* `Table.Foretells`: the table has grown, and nothing that was remembered before is ambiguous.
-/

namespace NameBinding.Table

variable {table before after last : Table} {template x y : SymbolId} {type : Descriptor}

/-- No instantiation is running, everything mentioned exists, and every chain of links ends. -/
structure Calm (table : Table) : Prop where
  idle : table.Idle
  represented : table.Represented
  linksEnd : table.LinksEnd

/-- No template remembers two instances for one tuple of arguments. -/
def OneInstanceEach (table : Table) : Prop :=
  ∀ template, ∀ a ∈ (table.symbol template).instances, ∀ b ∈ (table.symbol template).instances,
    Descriptor.sameAll a.args b.args = true → a.symbol = b.symbol

/-- Only symbols of the table remember anything. -/
theorem OneInstanceEach.of_members
    (each : ∀ i : Fin table.size, ∀ a ∈ (table.symbol ⟨i⟩).instances, ∀ b ∈ (table.symbol ⟨i⟩).instances,
      Descriptor.sameAll a.args b.args = true → a.symbol = b.symbol) : table.OneInstanceEach := by
  intro template a ha
  have hlt : template.index < table.size :=
    lt_size_of_symbol (fun symbol => decide (symbol.instances ≠ [])) rfl
      (by simpa using List.ne_nil_of_mem ha)
  exact each ⟨template.index, hlt⟩ a ha

instance : Decidable table.OneInstanceEach :=
  decidable_of_iff _ ⟨OneInstanceEach.of_members, fun each i => each ⟨i⟩⟩

theorem Calm.soundFor (calm : table.Calm) {regime : Regime} (base : regime.base = 0)
    (floor : regime.floor = 0) : regime.Sound table := by
  have hidle := calm.idle
  unfold Idle at hidle
  refine ⟨calm.represented, ⟨?_, ?_⟩, .inl calm.idle, ?_, ?_⟩
  · simp [hidle]
  · simp [hidle]
  · simp [base]
  · simp [floor]

theorem Calm.sound (calm : table.Calm) : (Regime.copying 0 0).Sound table := calm.soundFor rfl rfl

/-- Links lead to symbols of the table. -/
theorem Represented.reaches_lt (represented : table.Represented) (reaches : table.Reaches x y)
    (lt : x.index < table.size) : y.index < table.size := by
  induction reaches with
  | refl => exact lt
  | tail _ linked _ => exact represented.nextLink_lt linked

/-- Only what is in the table stands for what is in the table. -/
theorem lt_size_of_symbol_canonical (property : Symbol → Bool) (unset : property default = false)
    (holds : property (table.symbol (table.canonical x)) = true) : x.index < table.size := by
  by_contra behind
  have hunlinked : table.nextLink x = none := by
    by_contra linked
    obtain ⟨next, hnext⟩ := Option.ne_none_iff_exists'.mp linked
    exact behind (lt_size_of_nextLink hnext)
  rw [canonical_of_nextLink_none hunlinked] at holds
  exact behind (lt_size_of_symbol property unset holds)

/-- Only what is in the table leads to a template. -/
theorem lt_size_of_canonical (isTemplate : (table.symbol (table.canonical template)).isTemplate = true) :
    template.index < table.size :=
  lt_size_of_symbol_canonical (·.isTemplate) rfl isTemplate

theorem existingInstance?_eq_map (table : Table) (template : SymbolId) (args : List Descriptor) :
    table.existingInstance? template args =
      (((table.symbol template).explicits.find? fun entry => Descriptor.sameAll entry.args args).or
        ((table.symbol template).instances.find? fun entry =>
          Descriptor.sameAll entry.args args)).map (·.symbol) := by
  unfold existingInstance? Symbol.explicits Symbol.instances
  cases (table.symbol template).templateData? <;> rfl

mutual

/-- A type is dependent if the symbols it mentions are. -/
theorem isDependent_congr {size : Nat}
    (same : ∀ x : SymbolId, x.index < size → after.isDependentSymbol x = before.isDependentSymbol x) :
    ∀ type : Descriptor, type.Below size → after.isDependent type = before.isDependent type
  | ⟨kind, flags, ops, link, args, sort, constant, value⟩, below => by
      have hargs := anyDependent_congr same args below.args
      have hlink : link.any after.isDependentSymbol = link.any before.isDependentSymbol := by
        cases hlink : link with
        | none => rfl
        | some id => exact same id (below.link hlink)
      simp only [isDependent, hargs, hlink]

theorem anyDependent_congr {size : Nat}
    (same : ∀ x : SymbolId, x.index < size → after.isDependentSymbol x = before.isDependentSymbol x) :
    ∀ types : List Descriptor, (∀ type ∈ types, type.Below size) →
      after.anyDependent types = before.anyDependent types
  | [], _ => rfl
  | type :: rest, below => by
      have hfirst := isDependent_congr same type (below type List.mem_cons_self)
      have hrest := anyDependent_congr same rest fun other member =>
        below other (List.mem_cons_of_mem type member)
      simp only [anyDependent, hfirst, hrest]

end

namespace Grows

section Symbols

variable (grows : before.Grows after)

include grows

theorem nextLink_eq (lt : x.index < before.size) : after.nextLink x = before.nextLink x := by
  have hsymbol := grows.symbols x lt
  rw [nextLink, nextLink, hsymbol.aliasOf, hsymbol.forwardTarget]

theorem isDependentSymbol_eq (lt : x.index < before.size) :
    after.isDependentSymbol x = before.isDependentSymbol x := by
  have hsymbol := grows.symbols x lt
  rw [isDependentSymbol, isDependentSymbol, hsymbol.isTemplateParameter, hsymbol.isPlaceholder]

theorem sameParameterSorts_eq (represented : before.Represented) (ltParameter : x.index < before.size)
    (lt : template.index < before.size) :
    after.sameParameterSorts x template = before.sameParameterSorts x template := by
  have hsorts : ∀ id : SymbolId, id.index < before.size →
      (after.symbol id).parameters.map (fun inner => (after.symbol inner).type.parameterKind) =
        (before.symbol id).parameters.map fun inner => (before.symbol inner).type.parameterKind := by
    intro id hid
    rw [(grows.symbols id hid).parameters]
    refine List.map_congr_left fun inner member => ?_
    rw [(grows.symbols inner (represented.parameters_within id inner member)).type]
  simp only [sameParameterSorts, hsorts x ltParameter, hsorts template lt]

end Symbols

theorem isDependent_eq (grows : before.Grows after) (type : Descriptor) (below : type.Below before.size) :
    after.isDependent type = before.isDependent type :=
  isDependent_congr (fun _ lt => grows.isDependentSymbol_eq lt) type below

theorem anyDependent_eq (grows : before.Grows after) (types : List Descriptor)
    (below : ∀ type ∈ types, type.Below before.size) :
    after.anyDependent types = before.anyDependent types :=
  anyDependent_congr (fun _ lt => grows.isDependentSymbol_eq lt) types below

variable (grows : before.Grows after) (calm : before.Calm)

include grows calm

theorem canonical_eq (lt : x.index < before.size) : after.canonical x = before.canonical x := by
  refine ((calm.linksEnd.stands x).congr fun y reaches => ?_).canonical_eq
  exact grows.nextLink_eq (calm.represented.reaches_lt reaches lt)

theorem argumentSort_eq (below : type.Below before.size) :
    after.argumentSort type = before.argumentSort type := by
  unfold argumentSort
  cases hlink : type.link with
  | none => rfl
  | some link =>
      have hlt := below.link hlink
      have hsymbol := grows.symbols _ (calm.represented.canonical_lt hlt)
      simp only [grows.canonical_eq calm hlt, hsymbol.type, hsymbol.isTemplate,
        hsymbol.isTemplateParameter]

theorem fitsParameter_eq (lt : x.index < before.size) (below : type.Below before.size) :
    after.fitsParameter x type = before.fitsParameter x type := by
  have hsorts : type.link.any (fun link => after.sameParameterSorts x (after.canonical link)) =
      type.link.any fun link => before.sameParameterSorts x (before.canonical link) := by
    cases hlink : type.link with
    | none => rfl
    | some link =>
        have hlink := below.link hlink
        simp only [Option.any_some, grows.canonical_eq calm hlink]
        exact grows.sameParameterSorts_eq calm.represented lt (calm.represented.canonical_lt hlink)
  have hdependent := grows.isDependent_eq type below
  simp only [fitsParameter, grows.argumentSort_eq calm below, (grows.symbols x lt).type, hdependent,
    hsorts]

/-! ## Typedefs -/

theorem nextTypedef?_eq (lt : x.index < before.size) :
    after.nextTypedef? x = before.nextTypedef? x := by
  have hsymbol := grows.symbols _ (calm.represented.canonical_lt lt)
  rw [nextTypedef?, nextTypedef?, grows.canonical_eq calm lt, hsymbol.type]

/-- A chain of a grown table is one of the table before. -/
theorem typedefChain {steps : Nat} (chain : after.TypedefChain steps x) (lt : x.index < before.size) :
    before.TypedefChain steps x := by
  induction chain with
  | last ends => exact .last (grows.nextTypedef?_eq calm lt ▸ ends)
  | @next steps id next named rest ih =>
      rw [grows.nextTypedef?_eq calm lt] at named
      have hlink := (nextTypedef?_eq_some named).2.1
      exact .next named (ih ((calm.represented.type_below _).link hlink))

theorem typedefsEnd (ends : after.TypedefsEnd) : before.TypedefsEnd := by
  intro id lt
  obtain ⟨steps, chain⟩ := ends id (Nat.lt_of_lt_of_le lt grows.size_le)
  exact ⟨steps, grows.typedefChain calm chain lt⟩

/-- As many steps come to the same type as before. -/
theorem flattenSteps_eq (steps : Nat) (below : type.Below before.size) :
    after.flattenSteps steps type = before.flattenSteps steps type := by
  induction steps generalizing type with
  | zero => rfl
  | succ steps ih =>
      cases hlink : type.link with
      | none => rw [flattenSteps_of_unlinked hlink, flattenSteps_of_unlinked hlink]
      | some link =>
          have hlt := below.link hlink
          have hsymbol := grows.symbols _ (calm.represented.canonical_lt hlt)
          have htype := calm.represented.type_below (before.canonical link)
          simp only [flattenSteps, hlink, grows.canonical_eq calm hlt, hsymbol.type,
            ih (below.substituteBase htype)]

theorem flattenType_eq (typedefs : before.TypedefsEnd) (below : type.Below before.size) :
    after.flattenType type = before.flattenType type := by
  unfold flattenType
  cases hlink : type.link with
  | none => rw [flattenSteps_of_unlinked hlink, flattenSteps_of_unlinked hlink]
  | some link =>
      obtain ⟨steps, chain⟩ := typedefs link (below.link hlink)
      have hfewer := chain.steps_le
      have hle := grows.size_le
      rw [grows.flattenSteps_eq calm _ below]
      exact chain.flattenSteps_eq hlink (by omega) (by omega)

/-! ## Default arguments -/

omit calm in
theorem substituteParameters_eq (represented : before.Represented) {bindings : Bindings}
    (depth : Nat) {type : Descriptor}
    (below : type.Below before.size) :
    after.substituteParameters bindings depth type = before.substituteParameters bindings depth type := by
  induction depth generalizing type with
  | zero => rfl
  | succ depth ih =>
      simp only [substituteParameters]
      cases hlink : type.link with
      | none => rfl
      | some link =>
          have hsymbol := grows.symbols link (below.link hlink)
          have huse : ∀ arg ∈ ((before.symbol link).placeholder?.getD ⟨link, type.templateArgs⟩).args,
              arg.Below before.size := by
            cases hplaceholder : (before.symbol link).placeholder? with
            | none => exact fun arg member => below.args arg member
            | some use =>
                have hwithin := Symbol.placeholder_within (represented.within link) hplaceholder
                simp only [TemplateUse.mentions, Within.cons, Descriptor.within_mentionsAll] at hwithin
                exact hwithin.2
          dsimp only
          rw [hsymbol.placeholder?, List.map_congr_left fun arg member => ih (huse arg member)]

/-! ## What is remembered -/

omit calm in
theorem existingInstance?_eq {args : List Descriptor} {made : SymbolId}
    (lt : template.index < before.size)
    (known : before.existingInstance? template args = some made) :
    after.existingInstance? template args = some made := by
  have hsymbol := grows.symbols template lt
  rw [existingInstance?_eq_map, Option.map_eq_some_iff] at known ⊢
  obtain ⟨entry, hfound, rfl⟩ := known
  refine ⟨entry, ?_, rfl⟩
  rw [hsymbol.explicits]
  rcases Option.or_eq_some_iff.mp hfound with explicit | ⟨hnone, cached⟩
  · exact Option.or_eq_some_iff.mpr (.inl explicit)
  · refine Option.or_eq_some_iff.mpr (.inr ⟨hnone, ?_⟩)
    exact hsymbol.instances.find?_eq_some cached

omit calm in
theorem oneInstanceEach (each : after.OneInstanceEach) : before.OneInstanceEach := by
  intro template a ha b hb same
  have hlt : template.index < before.size :=
    lt_size_of_symbol (fun symbol => decide (symbol.instances ≠ [])) rfl
      (by simpa using List.ne_nil_of_mem ha)
  have hgrown := (grows.symbols template hlt).instances
  exact each template a (hgrown.mem ha) b (hgrown.mem hb) same

end Grows

/-! ## Asking again -/

/-- What only declares links nothing that was there before. -/
theorem Calm.moved (calm : before.Calm) (moved : Moved .declaring before after) : after.Calm where
  idle := moved.idle calm.idle
  represented := moved.changes.represented calm.represented
  linksEnd := moved.changes.linksEnd (fun _ _ _ allowed => .inl allowed) calm.represented calm.linksEnd

/-- Asking has let the table grow, and it may be asked again. -/
structure Advances (before after : Table) : Prop where
  grows : before.Grows after
  calm : after.Calm

/-- What `after` remembers is not ambiguous, its typedefs come to an end, and `last` still remembers it. -/
structure Foretells (after last : Table) : Prop where
  grows : after.Grows last
  oneEach : after.OneInstanceEach
  typedefsEnd : after.TypedefsEnd

theorem Advances.trans (first : before.Advances after) (second : after.Advances last) :
    before.Advances last :=
  ⟨first.grows.trans second.grows, second.calm⟩

/-- What foretells answers was already so before it was asked. -/
theorem Foretells.earlier (foretells : after.Foretells last) (calm : before.Calm)
    (grows : before.Grows after) : before.Foretells last where
  grows := grows.trans foretells.grows
  oneEach := grows.oneInstanceEach foretells.oneEach
  typedefsEnd := grows.typedefsEnd calm foretells.typedefsEnd

end NameBinding.Table
