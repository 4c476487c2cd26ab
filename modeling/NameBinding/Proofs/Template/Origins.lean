import NameBinding.Proofs.Table.Asking
import NameBinding.Proofs.Template.Adoption

/-!
# Whose instances there are

The origin of an instance is the template that made it, until a primary template adopts it from a partial
specialization.  A partial specialization may be registered with several primary templates, and then the one that
came last is the origin.  Where a template shares nothing with other ones, its instances stay its own.

* `Table.Adoptable`: the symbol is an instance of a partial specialization, which a primary template may adopt.
* `Table.KeepsToItself`: the template has no partial specialization in common with another one.
* `Table.Origins`: what instantiation leaves true about origins, with one lemma for each step.

The main statement is `Table.Origins.outlasts`: whatever is instantiated, the origin of an old symbol changes only if
a partial specialization remembered it, and what a template remembers that keeps to itself has this template as its
origin.
-/

namespace NameBinding

/-! ## Edits -/

/-- A plain edit leaves alone what is remembered, what is registered and the origin. -/
theorem Edit.IsPlain.untouched {edit : Edit} (plain : edit.IsPlain) (symbol : Symbol) :
    (edit.apply symbol).remembered = symbol.remembered ∧
      (edit.apply symbol).specializations = symbol.specializations ∧
      (edit.apply symbol).origin = symbol.origin := by
  obtain ⟨name, scope, type, inTemplate, access, target, named, origin, link, payload⟩ := symbol
  rcases edit with assignment | entry | ⟨under, inserted⟩
  · cases assignment with
    | origin value => exact plain.elim
    | _ => cases payload <;> exact ⟨rfl, rfl, rfl⟩
  · cases entry with
    | cached | placeholder | explicit | specialization => exact plain.elim
    | _ => cases payload <;> exact ⟨rfl, rfl, rfl⟩
  · cases payload <;> exact ⟨rfl, rfl, rfl⟩

/-- No edit makes anything a function that was none, or the other way round. -/
theorem Edit.isSome_functionData?_apply (edit : Edit) (symbol : Symbol) :
    (edit.apply symbol).functionData?.isSome = symbol.functionData?.isSome := by
  obtain ⟨name, scope, type, inTemplate, access, target, named, origin, link, payload⟩ := symbol
  rcases edit with assignment | entry | ⟨under, inserted⟩
  · cases assignment <;> cases payload <;> rfl
  · cases entry <;> cases payload <;> rfl
  · cases payload <;> rfl

/-- What a template remembers after an edit that remembers an instance. -/
theorem Entry.remembered_append {entry : Entry} {made : Instance}
    (remembers : entry = .cached made ∨ entry = .placeholder made) (symbol : Symbol) {known : Instance}
    (member : known ∈ (entry.append symbol).remembered) : known ∈ symbol.remembered ∨ known = made := by
  obtain ⟨name, scope, type, inTemplate, access, target, named, origin, link, payload⟩ := symbol
  rcases remembers with rfl | rfl <;> cases payload with
  | template data =>
      simp only [append, Symbol.mapTemplate, Symbol.remembered, Symbol.explicits, Symbol.instances,
        Symbol.placeholders, Symbol.templateData?, Option.map_some, Option.getD_some, List.mem_append,
        List.mem_singleton] at member ⊢
      tauto
  | _ => exact .inl member

theorem Entry.specializations_append {entry : Entry} {made : Instance}
    (remembers : entry = .cached made ∨ entry = .placeholder made) (symbol : Symbol) :
    (entry.append symbol).specializations = symbol.specializations := by
  obtain ⟨name, scope, type, inTemplate, access, target, named, origin, link, payload⟩ := symbol
  rcases remembers with rfl | rfl <;> cases payload <;> rfl

theorem Entry.origin_append {entry : Entry} {made : Instance}
    (remembers : entry = .cached made ∨ entry = .placeholder made) (symbol : Symbol) :
    (entry.append symbol).origin = symbol.origin := by
  obtain ⟨name, scope, type, inTemplate, access, target, named, origin, link, payload⟩ := symbol
  rcases remembers with rfl | rfl <;> cases payload <;> rfl

/-! ## Sharing -/

namespace Table

/-- `a` is the template or one of its partial specializations. -/
def InFamily (table : Table) (template a : SymbolId) : Prop :=
  a = template ∨ ∃ special ∈ (table.symbol template).specializations, table.canonical special = a

instance {table : Table} {template a : SymbolId} : Decidable (table.InFamily template a) :=
  inferInstanceAs (Decidable (_ ∨ _))

/-- A partial specialization remembers the symbol, so that a primary template may adopt it. -/
def Adoptable (table : Table) (x : SymbolId) : Prop :=
  ∃ template, ∃ special ∈ (table.symbol template).specializations, table.Knows (table.canonical special) x

/-- The template has neither a partial specialization nor an instance of one in common with a template outside its
family, its partial specializations have none of their own, and what it has adopted says so. -/
structure KeepsToItself (table : Table) (template : SymbolId) : Prop where
  sole : ∀ other, ∀ special ∈ (table.symbol other).specializations,
    table.InFamily template (table.canonical special) → other = template
  plain : ∀ special ∈ (table.symbol template).specializations,
    (table.symbol (table.canonical special)).specializations = []
  apart : ∀ x, table.Adoptable x → ∀ a b, table.Knows a x → table.Knows b x → table.InFamily template a →
    table.InFamily template b
  adopted : ∀ x, table.Knows template x → table.Adoptable x → (table.symbol x).functionData?.isSome = true →
    (table.symbol x).origin.map (·.template) = some template

variable {table : Table} {template x : SymbolId}

theorem KeepsToItself.of_registering (keeps : table.KeepsToItself template) {other special : SymbolId}
    (registered : special ∈ (table.symbol other).specializations)
    (member : table.InFamily template other) : other = template := by
  rcases member with same | ⟨own, hown, rfl⟩
  · exact same
  · rw [keeps.plain own hown] at registered
    cases registered

theorem Represented.knows_lt (represented : table.Represented) (knows : table.Knows template x) :
    x.index < table.size := by
  obtain ⟨entry, member, rfl⟩ := knows
  cases hdata : (table.symbol template).templateData? with
  | none =>
      simp [Symbol.remembered, Symbol.explicits, Symbol.instances, Symbol.placeholders, hdata] at member
  | some data =>
      have hwithin := represented.templateData_within hdata
      simp only [TemplateData.mentions, Within.append, Within.flatMap] at hwithin
      simp only [Symbol.remembered, Symbol.explicits, Symbol.instances, Symbol.placeholders, hdata,
        Option.map_some, Option.getD_some, List.mem_append] at member
      have hentry : Within table.size entry.mentions := by
        rcases member with (explicit | cached) | placeholder
        · exact hwithin.1.1.1.2 entry explicit
        · exact hwithin.1.1.2 entry cached
        · exact hwithin.1.2 entry placeholder
      exact hentry entry.symbol (by simp [Instance.mentions])

theorem Represented.specialization_lt (represented : table.Represented) {special : SymbolId}
    (registered : special ∈ (table.symbol template).specializations) : special.index < table.size := by
  cases hdata : (table.symbol template).templateData? with
  | none => simp [Symbol.specializations, hdata] at registered
  | some data =>
      have hwithin := represented.templateData_within hdata
      simp only [TemplateData.mentions, Within.append] at hwithin
      exact hwithin.1.1.1.1.2 special (by simpa [Symbol.specializations, hdata] using registered)

/-! ## The invariant -/

/-- What holds about origins in a table that `before` grew to by instantiation.  Families and sharing are those of
`before`, since no partial specialization is registered on the way. -/
structure Origins (before after : Table) : Prop where
  grows : before.Grows after
  bounded : ∀ a x, after.Knows a x → x.index < after.size
  unspecialized : ∀ a : SymbolId, before.size ≤ a.index → (after.symbol a).specializations = []
  settled : ∀ x : SymbolId, x.index < before.size → ¬ before.Adoptable x →
    (after.symbol x).origin = (before.symbol x).origin ∧ ∀ a, after.Knows a x → before.Knows a x
  apart : ∀ template, before.KeepsToItself template → ∀ x : SymbolId,
    before.size ≤ x.index ∨ before.Adoptable x → ∀ a b, after.Knows a x → after.Knows b x →
      before.InFamily template a → before.InFamily template b
  own : ∀ template, before.KeepsToItself template → ∀ x, after.Knows template x →
    before.size ≤ x.index ∨ before.Adoptable x → (after.symbol x).functionData?.isSome = true →
    (after.symbol x).origin.map (·.template) = some template

end Table

/-- A new symbol that holds nothing remembers nothing. -/
theorem Payload.Blank.unlisted {symbol : Symbol} (blank : symbol.payload.Blank) :
    symbol.remembered = [] ∧ symbol.specializations = [] := by
  obtain ⟨name, scope, type, inTemplate, access, target, named, origin, link, payload⟩ := symbol
  cases payload with
  | template data =>
      cases (show data = {} from blank)
      exact ⟨rfl, rfl⟩
  | _ => exact ⟨rfl, rfl⟩

theorem Table.knows_allocate {table : Table} {a x : SymbolId} {symbol : Symbol} (blank : symbol.payload.Blank)
    (knows : (table.allocate symbol).2.Knows a x) : table.Knows a x := by
  obtain ⟨entry, member, same⟩ := knows
  rw [symbol_of_push rfl] at member
  split at member
  · rw [blank.unlisted.1] at member
    cases member
  · exact ⟨entry, member, same⟩

/-- A template that remembers one more symbol. -/
theorem Table.knows_append {table : Table} {id a x : SymbolId} {entry : Entry} {made : Instance}
    (remembers : entry = .cached made ∨ entry = .placeholder made)
    (knows : (table.perform id (.append entry)).Knows a x) : table.Knows a x ∨ a = id ∧ x = made.symbol := by
  obtain ⟨known, member, rfl⟩ := knows
  rw [symbol_perform] at member
  split at member
  · rename_i same
    rcases Entry.remembered_append remembers _ member with old | rfl
    · exact .inl ⟨known, old, rfl⟩
    · exact .inr ⟨same.1.symm, rfl⟩
  · exact .inl ⟨known, member, rfl⟩

namespace Table.Origins

variable {before after last : Table}

theorem refl {table : Table} (represented : table.Represented) : table.Origins table where
  grows := .refl table
  bounded := fun _ _ => represented.knows_lt
  unspecialized := fun a behind => by
    rw [symbol_of_getElem?_none (Array.getElem?_eq_none behind)]
    rfl
  settled := fun _ _ _ => ⟨rfl, fun _ knows => knows⟩
  apart := fun _ keeps x young a b knowsA knowsB => by
    rcases young with behind | adoptable
    · exact absurd (represented.knows_lt knowsA) (Nat.not_lt.mpr behind)
    · exact keeps.apart x adoptable a b knowsA knowsB
  own := fun template keeps x knows young isFunction => by
    rcases young with behind | adoptable
    · exact absurd (represented.knows_lt knows) (Nat.not_lt.mpr behind)
    · exact keeps.adopted x knows adoptable isFunction

/-- A step after which nothing more is remembered, and of the symbols that were there none has another origin. -/
theorem extend (origins : before.Origins after) (grows : before.Grows last) (size_le : after.size ≤ last.size)
    (knows : ∀ a x, last.Knows a x → after.Knows a x)
    (unspecialized : ∀ a : SymbolId, before.size ≤ a.index → (last.symbol a).specializations = [])
    (same : ∀ x : SymbolId, x.index < after.size → (last.symbol x).origin = (after.symbol x).origin ∧
      (last.symbol x).functionData?.isSome = (after.symbol x).functionData?.isSome) : before.Origins last where
  grows := grows
  bounded := fun a x known => Nat.lt_of_lt_of_le (origins.bounded a x (knows a x known)) size_le
  unspecialized := unspecialized
  settled := fun x lt unadoptable => by
    obtain ⟨horigin, hknown⟩ := origins.settled x lt unadoptable
    rw [(same x (Nat.lt_of_lt_of_le lt origins.grows.size_le)).1]
    exact ⟨horigin, fun a known => hknown a (knows a x known)⟩
  apart := fun template keeps x young a b knowsA knowsB =>
    origins.apart template keeps x young a b (knows a x knowsA) (knows b x knowsB)
  own := fun template keeps x known young isFunction => by
    have hold := knows template x known
    obtain ⟨horigin, hfunction⟩ := same x (origins.bounded template x hold)
    rw [horigin]
    exact origins.own template keeps x hold young (hfunction ▸ isFunction)

theorem of_symbols (origins : before.Origins after) (symbols : last.symbols = after.symbols)
    (config : last.config = after.config) : before.Origins last := by
  have hsymbol : ∀ x, last.symbol x = after.symbol x := symbol_of_symbols_eq symbols
  refine origins.extend (origins.grows.trans (.of_symbols symbols config)) (size_of_symbols_eq symbols).ge
    (fun a x knows => ?_) (fun a behind => ?_) fun x _ => ?_
  · simpa only [Knows, hsymbol] using knows
  · rw [hsymbol]
    exact origins.unspecialized a behind
  · rw [hsymbol]
    exact ⟨rfl, rfl⟩

/-- A new symbol that holds nothing. -/
theorem allocate (origins : before.Origins after) {symbol : Symbol} (blank : symbol.payload.Blank) :
    before.Origins (after.allocate symbol).2 := by
  have hpushed : (after.allocate symbol).2.symbols = after.symbols.push symbol := rfl
  refine origins.extend (origins.grows.trans (.allocate after symbol)) ?_ (fun a x => knows_allocate blank)
    (fun a behind => ?_) fun x lt => ?_
  · rw [size_allocate]
    exact Nat.le_succ _
  · rw [symbol_of_push hpushed]
    split
    · exact blank.unlisted.2
    · exact origins.unspecialized a behind
  · rw [symbol_of_push hpushed, if_neg (Nat.ne_of_lt lt)]
    exact ⟨rfl, rfl⟩

/-- A plain edit of a new symbol. -/
theorem modify_behind (origins : before.Origins after) {id : SymbolId} {edit : Edit} (plain : edit.IsPlain)
    (symbols : last.symbols = after.symbols.modify id.index edit.apply) (config : last.config = after.config)
    (fresh : before.size ≤ id.index) : before.Origins last := by
  have hsame : ∀ x, (last.symbol x).remembered = (after.symbol x).remembered ∧
      (last.symbol x).specializations = (after.symbol x).specializations ∧
      (last.symbol x).origin = (after.symbol x).origin ∧
      (last.symbol x).functionData?.isSome = (after.symbol x).functionData?.isSome := by
    intro x
    rw [symbol_of_modify symbols]
    split
    · obtain ⟨hremembered, hspecializations, horigin⟩ := plain.untouched (after.symbol x)
      exact ⟨hremembered, hspecializations, horigin, edit.isSome_functionData?_apply _⟩
    · exact ⟨rfl, rfl, rfl, rfl⟩
  refine origins.extend (origins.grows.modify_behind symbols config fresh) (size_of_modify symbols).ge
    (fun a x knows => ?_) (fun a behind => ?_) fun x _ => (hsame x).2.2
  · rwa [Knows, (hsame a).1] at knows
  · rw [(hsame a).2.1]
    exact origins.unspecialized a behind

/-- A template comes to remember a symbol that no other family remembers, and that has this template as its origin
afterwards. -/
theorem learn (origins : before.Origins after) (template made : SymbolId) (grows : before.Grows last)
    (size_le : after.size ≤ last.size) (within : made.index < last.size)
    (knows : ∀ a x, last.Knows a x → after.Knows a x ∨ a = template ∧ x = made)
    (unspecialized : ∀ a : SymbolId, before.size ≤ a.index → (last.symbol a).specializations = [])
    (others : ∀ x, x ≠ made → (last.symbol x).origin = (after.symbol x).origin ∧
      (last.symbol x).functionData?.isSome = (after.symbol x).functionData?.isSome)
    (young : before.size ≤ made.index ∨ before.Adoptable made)
    (akin : ∀ own, before.KeepsToItself own → ∀ a, after.Knows a made →
      (before.InFamily own a ↔ before.InFamily own template))
    (origin : ∀ own, before.KeepsToItself own → last.Knows own made →
      (last.symbol made).functionData?.isSome = true →
      (last.symbol made).origin.map (·.template) = some own) : before.Origins last where
  grows := grows
  bounded := fun a x known => by
    rcases knows a x known with old | ⟨-, rfl⟩
    · exact Nat.lt_of_lt_of_le (origins.bounded a x old) size_le
    · exact within
  unspecialized := unspecialized
  settled := fun x lt unadoptable => by
    have hother : x ≠ made := by
      rintro rfl
      exact young.elim (fun behind => absurd lt (Nat.not_lt.mpr behind)) unadoptable
    obtain ⟨horigin, hknown⟩ := origins.settled x lt unadoptable
    refine ⟨(others x hother).1.trans horigin, fun a known => ?_⟩
    rcases knows a x known with old | ⟨-, same⟩
    · exact hknown a old
    · exact absurd same hother
  apart := fun own keeps x young a b knowsA knowsB member => by
    by_cases hmade : x = made
    · have hakin : ∀ c, last.Knows c x → (before.InFamily own c ↔ before.InFamily own template) := by
        intro c known
        rcases knows c x known with old | ⟨rfl, -⟩
        · exact akin own keeps c (hmade ▸ old)
        · exact Iff.rfl
      exact (hakin b knowsB).mpr ((hakin a knowsA).mp member)
    · have hold : ∀ c, last.Knows c x → after.Knows c x := fun c known =>
        (knows c x known).resolve_right fun new => hmade new.2
      exact origins.apart own keeps x young a b (hold a knowsA) (hold b knowsB) member
  own := fun own keeps x known stays isFunction => by
    by_cases hmade : x = made
    · subst hmade
      exact origin own keeps known isFunction
    · have hold := (knows own x known).resolve_right fun new => hmade new.2
      obtain ⟨horigin, hfunction⟩ := others x hmade
      rw [horigin]
      exact origins.own own keeps x hold stays (hfunction ▸ isFunction)

/-- A new symbol that a template remembers from the start. -/
theorem remember (origins : before.Origins after) {symbol : Symbol} (blank : symbol.payload.Blank)
    (template : SymbolId) {args : List Descriptor} {entry : Entry}
    (remembers : entry = .cached ⟨args, ⟨after.size⟩⟩ ∨ entry = .placeholder ⟨args, ⟨after.size⟩⟩)
    (origin : symbol.functionData?.isSome = true → symbol.origin = some ⟨template, args⟩) :
    before.Origins ((after.allocate symbol).2.perform template (.append entry)) := by
  have hallocated := origins.allocate blank
  have hcache : (Edit.append entry).IsCache := by
    rcases remembers with rfl | rfl <;> trivial
  have hmade : (after.allocate symbol).2.symbol ⟨after.size⟩ = symbol := by
    rw [symbol_of_push rfl, if_pos rfl]
  have hunknown : ∀ a, ¬ (after.allocate symbol).2.Knows a ⟨after.size⟩ := fun a known =>
    Nat.lt_irrefl _ (origins.bounded a _ (knows_allocate blank known))
  have hlast : ∀ x, (((after.allocate symbol).2.perform template (.append entry)).symbol x).origin =
        ((after.allocate symbol).2.symbol x).origin ∧
      (((after.allocate symbol).2.perform template (.append entry)).symbol x).functionData?.isSome =
        ((after.allocate symbol).2.symbol x).functionData?.isSome := by
    intro x
    rw [symbol_perform]
    split
    · exact ⟨Entry.origin_append remembers _, Edit.isSome_functionData?_apply _ _⟩
    · exact ⟨rfl, rfl⟩
  refine hallocated.learn template ⟨after.size⟩ (hallocated.grows.trans (.perform _ template hcache)) ?_ ?_
    (fun a x => knows_append remembers) (fun a behind => ?_) (fun x _ => hlast x) (.inl origins.grows.size_le)
    (fun own _ a known => absurd known (hunknown a)) fun own _ known isFunction => ?_
  · rw [size_perform]
  · rw [size_perform, size_allocate]
    exact Nat.lt_succ_self _
  · rw [symbol_perform]
    split
    · exact (Entry.specializations_append remembers _).trans (hallocated.unspecialized a behind)
    · exact hallocated.unspecialized a behind
  · obtain ⟨rfl, -⟩ := (knows_append remembers known).resolve_left (hunknown own)
    rw [(hlast _).2, hmade] at isFunction
    rw [(hlast _).1, hmade, origin isFunction]
    rfl

/-- What a template knows after an adoption. -/
theorem knows_adopting {table : Table} {template made a x : SymbolId} {args : List Descriptor}
    (knows : (table.adopting template args made).Knows a x) : table.Knows a x ∨ a = template ∧ x = made := by
  obtain ⟨entry, member, same⟩ := knows
  have hknown : (table.perform template (.append (.cached { args, symbol := made }))).Knows a x := by
    rw [adopting, symbol_perform] at member
    split at member <;> exact ⟨entry, member, same⟩
  exact knows_append (.inl rfl) hknown

/-- Adoption changes no other origin, registers nothing, and makes nothing a function. -/
theorem adopting_untouched (table : Table) (template made : SymbolId) (args : List Descriptor) (x : SymbolId) :
    ((table.adopting template args made).symbol x).specializations = (table.symbol x).specializations ∧
      ((table.adopting template args made).symbol x).functionData?.isSome =
        (table.symbol x).functionData?.isSome ∧
      (x ≠ made → ((table.adopting template args made).symbol x).origin = (table.symbol x).origin) := by
  have hremembered : ∀ y,
      ((table.perform template (.append (.cached ⟨args, made⟩))).symbol y).specializations =
          (table.symbol y).specializations ∧
        ((table.perform template (.append (.cached ⟨args, made⟩))).symbol y).functionData?.isSome =
          (table.symbol y).functionData?.isSome ∧
        ((table.perform template (.append (.cached ⟨args, made⟩))).symbol y).origin =
          (table.symbol y).origin := by
    intro y
    rw [symbol_perform]
    split
    · exact ⟨Entry.specializations_append (.inl rfl) _, Edit.isSome_functionData?_apply _ _,
        Entry.origin_append (.inl rfl) _⟩
    · exact ⟨rfl, rfl, rfl⟩
  obtain ⟨hspecializations, hfunction, horigin⟩ := hremembered x
  rw [adopting, symbol_perform]
  split
  · rename_i same
    exact ⟨hspecializations, hfunction, fun other => absurd same.1.symm other⟩
  · exact ⟨hspecializations, hfunction, fun _ => horigin⟩

/-- Adoption: the primary template comes to remember the instance of its partial specialization. -/
theorem adopt (origins : before.Origins after) {template special made : SymbolId} {args : List Descriptor}
    (registered : special ∈ (before.symbol template).specializations)
    (knows : after.Knows (before.canonical special) made) :
    before.Origins (after.adopting template args made) := by
  have hremember : (Edit.append (.cached { args, symbol := made })).IsCache := trivial
  have hassign : (Edit.assign (.origin (some { template, args }))).IsCache := trivial
  have hsize : (after.adopting template args made).size = after.size := by
    rw [adopting, size_perform, size_perform]
  have hlt : made.index < (after.adopting template args made).size := hsize ▸ origins.bounded _ _ knows
  have horigin : ((after.adopting template args made).symbol made).origin = some ⟨template, args⟩ := by
    rw [adopting, symbol_perform, if_pos ⟨rfl, by rw [size_perform]; exact origins.bounded _ _ knows⟩]
    rfl
  have hyoung : before.size ≤ made.index ∨ before.Adoptable made := by
    by_contra old
    obtain ⟨hbefore, hunadoptable⟩ := not_or.mp old
    have hknown := (origins.settled made (Nat.not_le.mp hbefore) hunadoptable).2 _ knows
    exact hunadoptable ⟨template, special, registered, hknown⟩
  -- A template that keeps to itself remembers the instance if it is the one that adopts it, and only then.
  have hakin : ∀ own, before.KeepsToItself own → ∀ a, after.Knows a made →
      (before.InFamily own a ↔ before.InFamily own template) := by
    intro own keeps a known
    constructor
    · intro member
      have hspecial := origins.apart own keeps made hyoung _ _ known knows member
      exact .inl (keeps.sole template special registered hspecial)
    · intro member
      obtain rfl := keeps.of_registering registered member
      exact origins.apart _ keeps made hyoung _ _ knows known (.inr ⟨special, registered, rfl⟩)
  refine origins.learn template made
    ((origins.grows.trans (.perform after template hremember)).trans (.perform _ made hassign)) hsize.ge hlt
    (fun a x => knows_adopting) (fun a behind => ?_) (fun x other => ?_) hyoung hakin fun own keeps known _ => ?_
  · rw [(adopting_untouched after template made args a).1]
    exact origins.unspecialized a behind
  · obtain ⟨-, hfunction, hsame⟩ := adopting_untouched after template made args x
    exact ⟨hsame other, hfunction⟩
  · have hfamily : before.InFamily own template := by
      rcases knows_adopting known with hold | ⟨rfl, -⟩
      · exact (hakin own keeps own hold).mp (.inl rfl)
      · exact .inl rfl
    rw [horigin, keeps.of_registering registered hfamily]
    rfl

/-- Every step of a copy but the adoption, where the symbols from `size` on are new. -/
theorem survives {size : Nat} (bound : before.size ≤ size) : Survives size before.Origins where
  create := fun _ _ blank origins => origins.allocate blank
  addInstance := fun _ template _ _ blank origin origins =>
    origins.remember blank template (.inl rfl) fun _ => origin
  addPlaceholder := fun _ template _ symbol stands origins =>
    origins.remember (.of_placeholder stands) template (.inr rfl) fun isFunction => by
      simp [Symbol.functionData?, stands] at isFunction
  perform := fun _ _ _ fresh plain origins =>
    origins.modify_behind plain rfl rfl (Nat.le_trans bound fresh)
  write := fun _ _ _ fresh plain origins =>
    origins.modify_behind plain rfl rfl (Nat.le_trans bound fresh)
  instantiations := fun _ _ origins => origins.of_symbols rfl rfl

/-- The partial specialization that is chosen was registered before. -/
theorem registered_of_selects (origins : before.Origins after) (calm : before.Calm) {template : SymbolId}
    {args : List Descriptor} {chosen : SymbolId × List Descriptor}
    (selects : after.selectSpecialization template args = .ok (some chosen)) :
    chosen.1 ∈ (before.symbol template).specializations ∧
      after.canonical chosen.1 = before.canonical chosen.1 := by
  obtain ⟨hregistered, -⟩ := matched_of_selectSpecialization selects
  have hlt : template.index < before.size := by
    by_contra behind
    rw [origins.unspecialized template (Nat.le_of_not_lt behind)] at hregistered
    cases hregistered
  rw [(origins.grows.symbols template hlt).specializations] at hregistered
  refine ⟨hregistered, origins.grows.canonical_eq calm ?_⟩
  exact calm.represented.specialization_lt hregistered

end Table.Origins

/-- Instantiation keeps what holds about origins. -/
theorem Table.Origins.outlasts {before : Table} (calm : before.Calm) :
    Outlasts before.size before.Origins where
  size_le := fun _ origins => origins.grows.size_le
  steps := Table.Origins.survives (Nat.le_refl _)
  of_symbols := fun _ _ symbols config origins => origins.of_symbols symbols config
  adopt := fun _ table last template args chosen made origins selected _ knows held => by
    obtain ⟨hregistered, hcanonical⟩ := origins.registered_of_selects calm selected
    exact held.adopt hregistered (hcanonical ▸ knows)

end NameBinding
