import NameBinding.Proofs.Template.SubstitutionMoves

/-!
# The types of copies

A copy takes over the types of its source and keeps them until they are read in the copy, at once or when the work
that was queued for them is finished.  `Table.Reads` says so for one running copy: every part of a copy is a copy, and
every type of a copy waits to be read or has a property that all types have when they are read.

The property, a `Reading`, is a parameter.  It may depend on the copies made so far, as long as those that are made
later do not matter.  The lemmas go through what happens during a copy:

* `Reads.guards`: what leaves everything older alone, such as making an instance;
* `Reads.edit`, `Reads.push` and `Reads.record`: a copy gets a part, and a declaration is copied;
* `Reads.carryOut`: a type is read, or its reading is put off.
-/

namespace NameBinding

/-- A property of the types of copies, as seen from the copies made so far.  It does not depend on copies that are
younger than the copy that has the type. -/
structure Reading where
  holds : CopyContext → SymbolId → Descriptor → Prop
  younger : ∀ context copy type source other, holds context copy type → copy.index < other.index →
    holds { context with copies := (source, other) :: context.copies } copy type

/-- Nothing is asked of the types. -/
def Reading.any : Reading := ⟨fun _ _ _ => True, fun _ _ _ _ _ _ _ => trivial⟩

namespace Edit

variable {edit : Edit}

/-- What the edit puts into a copy as one of its parts. -/
def newPart? : Edit → Option SymbolId
  | .append (.parameter id) => some id
  | .append (.templateParameter id) => some id
  | .append (.constructor id) => some id
  | .append (.conversion id) => some id
  | .insertMember _ id => some id
  | _ => none

theorem types_apply (part : edit.IsPart) (symbol : Symbol) :
    (edit.apply symbol).type = symbol.type ∧ (edit.apply symbol).returnType = symbol.returnType := by
  obtain ⟨name, scope, type, inTemplate, access, target, named, origin, link, payload⟩ := symbol
  rcases edit with assignment | entry | ⟨under, member⟩
  · cases assignment with
    | scope => exact ⟨rfl, rfl⟩
    | _ => exact part.elim
  · cases entry with
    | explicit | cached | placeholder | specialization => exact part.elim
    | _ => cases payload <;> exact ⟨rfl, rfl⟩
  · cases payload <;> exact ⟨rfl, rfl⟩

theorem mem_parts_apply (part : edit.IsPart) {symbol : Symbol} {id : SymbolId}
    (member : id ∈ (edit.apply symbol).parts) : id ∈ symbol.parts ∨ edit.newPart? = some id := by
  obtain ⟨name, scope, type, inTemplate, access, target, named, origin, link, payload⟩ := symbol
  rcases edit with assignment | entry | ⟨under, inserted⟩
  · cases assignment with
    | scope => exact .inl member
    | _ => exact part.elim
  · cases entry with
    | explicit | cached | placeholder | specialization => exact part.elim
    | _ =>
        cases payload <;> first
          | exact .inl member
          | (simp only [Symbol.parts, apply, Entry.append, Symbol.mapFunction, Symbol.mapTemplate,
              Symbol.mapClass, Symbol.parameters, Symbol.contents, Symbol.constructors, Symbol.conversions,
              Symbol.classData?, Symbol.decls?, Option.map_some, Option.getD_some, List.mem_append,
              List.mem_singleton, newPart?, Option.some.injEq] at member ⊢
             grind)
  · cases payload <;> first
      | exact .inl member
      | (simp only [Symbol.parts, apply, Symbol.mapDecls, Symbol.parameters, Symbol.contents,
          Symbol.constructors, Symbol.conversions, Symbol.classData?, Symbol.decls?, Declarations.insert,
          Option.map_some, Option.getD_some, List.mem_append, List.mem_singleton, newPart?,
          Option.some.injEq] at member ⊢
         grind)

theorem type_returnType (given : Option Descriptor) (symbol : Symbol) :
    ((Edit.assign (.returnType given)).apply symbol).type = symbol.type := by
  show (symbol.mapFunction _).type = _
  unfold Symbol.mapFunction
  split <;> rfl

theorem types_parent (position : Nat) (parent : SymbolId) (symbol : Symbol) :
    ((Edit.assign (.parent position parent)).apply symbol).type = symbol.type ∧
      ((Edit.assign (.parent position parent)).apply symbol).returnType = symbol.returnType := by
  obtain ⟨name, scope, type, inTemplate, access, target, named, origin, link, payload⟩ := symbol
  cases payload <;> exact ⟨rfl, rfl⟩

end Edit

/-! ## Finished types -/

namespace Table.FinishedAt

variable {table after : Table} {target id : SymbolId} {part : DeferredPart} {type : Descriptor}
  (finished : table.FinishedAt target part type after)

include finished

theorem templates_eq : after.templates = table.templates := by
  rcases finished.cases with rfl | ⟨edit, -, rfl⟩ <;> rfl

theorem parts_eq (id : SymbolId) : (after.symbol id).parts = (table.symbol id).parts := by
  rcases finished.cases with rfl | ⟨edit, surface, rfl⟩
  · rfl
  · rw [symbol_perform]
    split
    · exact Edit.parts_apply surface _
    · rfl

theorem type_eq (lt : target.index < table.size) (same : part = .type) :
    (after.symbol target).type = type := by
  subst same
  obtain rfl := finished
  rw [symbol_perform, if_pos ⟨rfl, lt⟩]
  rfl

theorem type_others (others : ¬ (id = target ∧ part = .type)) :
    (after.symbol id).type = (table.symbol id).type := by
  cases part with
  | type =>
      obtain rfl := finished
      rw [symbol_perform, if_neg fun both => others ⟨both.1.symm, rfl⟩]
  | returnType =>
      obtain rfl := finished
      rw [symbol_perform]
      split
      · exact Edit.type_returnType _ _
      · rfl
  | parent position =>
      rcases finished with rfl | ⟨parent, rfl⟩
      · rfl
      · rw [symbol_perform]
        split
        · exact (Edit.types_parent position parent _).1
        · rfl

theorem returnType_eq (same : part = .returnType) (lt : target.index < table.size) (found : Descriptor)
    (returns : (after.symbol target).returnType = some found) : found = type := by
  subst same
  obtain rfl := finished
  rw [symbol_perform, if_pos ⟨rfl, lt⟩] at returns
  generalize table.symbol target = symbol at returns
  obtain ⟨name, scope, _, inTemplate, access, aliased, named, origin, link, payload⟩ := symbol
  cases payload with
  | function => exact (Option.some.inj returns).symm
  | _ => exact absurd returns nofun

theorem returnType_others (others : ¬ (id = target ∧ part = .returnType)) :
    (after.symbol id).returnType = (table.symbol id).returnType := by
  cases part with
  | type =>
      obtain rfl := finished
      rw [symbol_perform]
      split <;> rfl
  | returnType =>
      obtain rfl := finished
      rw [symbol_perform, if_neg fun both => others ⟨both.1.symm, rfl⟩]
  | parent position =>
      rcases finished with rfl | ⟨parent, rfl⟩
      · rfl
      · rw [symbol_perform]
        split
        · exact (Edit.types_parent position parent _).2
        · rfl

end Table.FinishedAt

/-! ## Copies and their types -/

namespace Table

variable {table after : Table} {reading : Reading} {position : Nat} {busy : List DeferredWork}
  {work : DeferredWork}

/-- The symbol is one of the copies that were made for a running copy. -/
def IsCopy (table : Table) (position : Nat) (id : SymbolId) : Prop :=
  ∃ source, (source, id) ∈ (table.copyContext position).copies

/-- There is work that will finish a type of the symbol: it is queued, or being carried out. -/
def Waits (table : Table) (busy : List DeferredWork) (id : SymbolId) (part : DeferredPart) : Prop :=
  ∃ work ∈ table.templates.queue ++ busy, work.target = id ∧ work.part = part

/-- Copies consist of copies, and each of their types waits or was read.  The work in `busy` is being carried
out. -/
structure Reads (reading : Reading) (position : Nat) (busy : List DeferredWork) (table : Table) : Prop where
  lt : position < table.templates.contexts.size
  parts : ∀ id, table.IsCopy position id → ∀ part ∈ (table.symbol id).parts, table.IsCopy position part
  types : ∀ id, table.IsCopy position id →
    table.Waits busy id .type ∨ reading.holds (table.copyContext position) id (table.symbol id).type
  returnTypes : ∀ id, table.IsCopy position id → ∀ type, (table.symbol id).returnType = some type →
    table.Waits busy id .returnType ∨ reading.holds (table.copyContext position) id type
  places : ∀ work ∈ table.templates.queue ++ busy, table.IsCopy position work.target →
    work.context = position

theorem copyContext_eq (same : after.templates.contexts[position]? =
    table.templates.contexts[position]?) :
    after.copyContext position = table.copyContext position := by
  simp only [copyContext, Array.getD_eq_getD_getElem?, same]

/-- A copy that is remembered is the latest one. -/
theorem copyContext_of_recorded (lt : position < table.templates.contexts.size) {source copy : SymbolId}
    (templates : after.templates = { table.templates with
      contexts := table.templates.contexts.modify position fun context =>
        { context with copies := (source, copy) :: context.copies } }) :
    after.copyContext position =
      { table.copyContext position with
        copies := (source, copy) :: (table.copyContext position).copies } := by
  simp only [copyContext, Array.getD_eq_getD_getElem?, templates, Array.getElem?_modify, if_pos,
    Array.getElem?_eq_getElem lt, Option.map_some, Option.getD_some]

theorem Waits.carry {id : SymbolId} {part : DeferredPart} (waits : table.Waits busy id part) :
    table.Waits (work :: busy) id part := by
  obtain ⟨other, waiting, found⟩ := waits
  refine ⟨other, ?_, found⟩
  rcases List.mem_append.mp waiting with queued | carried
  · exact List.mem_append_left _ queued
  · exact List.mem_append_right _ (.tail _ carried)

theorem IsCopy.lt_size {id : SymbolId} (isCopy : table.IsCopy position id) (work : table.WorkBelow) :
    id.index < table.size := by
  obtain ⟨source, member⟩ := isCopy
  exact (work.copyContext position).copies _ member

namespace Reads

/-- A copy begins with one declaration.  Its copy is empty, and its type is about to be read. -/
theorem opened {source copy : SymbolId} (type : Descriptor) (lt : position < table.templates.contexts.size)
    (copies : (table.copyContext position).copies = [(source, copy)])
    (unawaited : ∀ work ∈ table.templates.queue, work.target ≠ copy)
    (noParts : (table.symbol copy).parts = []) (noReturn : (table.symbol copy).returnType = none) :
    table.Reads reading position [{ target := copy, part := .type, type, context := position }] := by
  have honly : ∀ id, table.IsCopy position id → id = copy := by
    rintro id ⟨other, member⟩
    rw [copies] at member
    exact (Prod.mk.inj (List.mem_singleton.mp member)).2
  refine ⟨lt, fun id isCopy part member => ?_, fun id isCopy => ?_, fun id isCopy found returns => ?_,
    fun work waiting isCopy => ?_⟩
  · rw [honly id isCopy, noParts] at member
    cases member
  · rw [honly id isCopy]
    exact .inl ⟨_, List.mem_append_right _ (List.mem_singleton.mpr rfl), rfl, rfl⟩
  · rw [honly id isCopy, noReturn] at returns
    cases returns
  · rcases List.mem_append.mp waiting with queued | carried
    · exact absurd (honly _ isCopy) (unawaited work queued)
    · rw [List.mem_singleton.mp carried]

/-- The work that is carried out may as well be queued. -/
theorem of_queue (reads : table.Reads reading position busy) {queue others : List DeferredWork}
    (same : ∀ work, work ∈ queue ++ others ↔ work ∈ table.templates.queue ++ busy) :
    Reads reading position others { table with templates := { table.templates with queue } } where
  lt := reads.lt
  parts := reads.parts
  types := fun id isCopy => (reads.types id isCopy).imp_left fun ⟨work, waiting, found⟩ =>
    ⟨work, (same work).mpr waiting, found⟩
  returnTypes := fun id isCopy type returns =>
    (reads.returnTypes id isCopy type returns).imp_left fun ⟨work, waiting, found⟩ =>
      ⟨work, (same work).mpr waiting, found⟩
  places := fun work waiting => reads.places work ((same work).mp waiting)

/-- What leaves everything older alone leaves the copies alone. -/
theorem guards (reads : table.Reads reading position busy) (guards : table.Guards after)
    (exist : ∀ id, table.IsCopy position id → id.index < table.size) :
    after.Reads reading position busy := by
  have hsame := guards.contexts position reads.lt
  have hcontext := copyContext_eq hsame
  have hcopies : ∀ id, after.IsCopy position id ↔ table.IsCopy position id := by
    intro id
    rw [IsCopy, IsCopy, hcontext]
  have hwaits : ∀ {id part}, table.IsCopy position id → table.Waits busy id part →
      after.Waits busy id part := by
    rintro id part isCopy ⟨work, waiting, rfl, same⟩
    refine ⟨work, ?_, rfl, same⟩
    rcases List.mem_append.mp waiting with queued | carried
    · exact List.mem_append_left _ (guards.waits work queued (exist _ isCopy))
    · exact List.mem_append_right _ carried
  constructor
  · rw [Array.getElem?_eq_getElem reads.lt] at hsame
    exact (Array.getElem?_eq_some_iff.mp hsame).1
  · intro id isCopy part member
    rw [hcopies] at isCopy ⊢
    rw [(guards.sameParts id (exist id isCopy)).parts] at member
    exact reads.parts id isCopy part member
  · intro id isCopy
    rw [hcopies] at isCopy
    rw [hcontext, (guards.sameParts id (exist id isCopy)).type]
    exact (reads.types id isCopy).imp_left (hwaits isCopy)
  · intro id isCopy type returns
    rw [hcopies] at isCopy
    rw [(guards.sameParts id (exist id isCopy)).returnType] at returns
    rw [hcontext]
    exact (reads.returnTypes id isCopy type returns).imp_left (hwaits isCopy)
  · intro work waiting isCopy
    rw [hcopies] at isCopy
    rcases List.mem_append.mp waiting with queued | carried
    · rcases guards.news work queued with old | new
      · exact reads.places work (List.mem_append_left _ old) isCopy
      · have hlt := exist _ isCopy
        omega
    · exact reads.places work (List.mem_append_right _ carried) isCopy

/-- What changes symbols alone leaves the copies alone if their types stay and their new parts are copies. -/
theorem of_symbols (reads : table.Reads reading position busy) (templates : after.templates = table.templates)
    (types : ∀ id, table.IsCopy position id → (after.symbol id).type = (table.symbol id).type ∧
      (after.symbol id).returnType = (table.symbol id).returnType)
    (parts : ∀ id, table.IsCopy position id → ∀ part ∈ (after.symbol id).parts,
      part ∈ (table.symbol id).parts ∨ table.IsCopy position part) :
    after.Reads reading position busy := by
  have hcontext : after.copyContext position = table.copyContext position :=
    copyContext_eq (by rw [templates])
  constructor
  · exact templates ▸ reads.lt
  · intro id isCopy part member
    rw [IsCopy, hcontext] at isCopy ⊢
    exact (parts id isCopy part member).elim (reads.parts id isCopy part) fun new => new
  · intro id isCopy
    rw [IsCopy, hcontext] at isCopy
    rw [Waits, templates, hcontext, (types id isCopy).1]
    exact reads.types id isCopy
  · intro id isCopy type returns
    rw [IsCopy, hcontext] at isCopy
    rw [(types id isCopy).2] at returns
    rw [Waits, templates, hcontext]
    exact reads.returnTypes id isCopy type returns
  · intro work waiting isCopy
    rw [IsCopy, hcontext] at isCopy
    rw [templates] at waiting
    exact reads.places work waiting isCopy

/-- A copy gets a part that is a copy, or what is no part. -/
theorem edit (reads : table.Reads reading position busy) {id : SymbolId} {edit : Edit} (part : edit.IsPart)
    (isCopy : ∀ new, edit.newPart? = some new → table.IsCopy position new)
    (symbols : after.symbols = table.symbols.modify id.index edit.apply)
    (templates : after.templates = table.templates) : after.Reads reading position busy := by
  refine reads.of_symbols templates (fun x _ => ?_) fun x _ other member => ?_
  · rw [symbol_of_modify symbols]
    split
    · exact Edit.types_apply part _
    · exact ⟨rfl, rfl⟩
  · rw [symbol_of_modify symbols] at member
    split at member
    · exact (Edit.mem_parts_apply part member).imp_right (isCopy other)
    · exact .inl member

/-- A new symbol. -/
theorem push (reads : table.Reads reading position busy) {symbol : Symbol}
    (exist : ∀ id, table.IsCopy position id → id.index < table.size)
    (symbols : after.symbols = table.symbols.push symbol) (templates : after.templates = table.templates) :
    after.Reads reading position busy := by
  have hsame : ∀ id, table.IsCopy position id → after.symbol id = table.symbol id := by
    intro id isCopy
    have hlt := exist id isCopy
    rw [symbol_of_push symbols, if_neg (by omega)]
  refine reads.of_symbols templates (fun id isCopy => ?_) fun id isCopy part member => ?_
  · rw [hsame id isCopy]
    exact ⟨rfl, rfl⟩
  · rw [hsame id isCopy] at member
    exact .inl member

/-- A declaration is copied for the first time.  The copy is empty and younger than all others, and its type is
about to be read. -/
theorem record (reads : table.Reads reading position []) {source copy : SymbolId} (type : Descriptor)
    (younger : ∀ id, table.IsCopy position id → id.index < copy.index)
    (unawaited : ∀ work ∈ table.templates.queue, work.target ≠ copy)
    (noParts : (table.symbol copy).parts = []) (noReturn : (table.symbol copy).returnType = none)
    (symbols : after.symbols = table.symbols)
    (templates : after.templates = { table.templates with
      contexts := table.templates.contexts.modify position fun context =>
        { context with copies := (source, copy) :: context.copies } }) :
    after.Reads reading position [{ target := copy, part := .type, type, context := position }] := by
  have hcontext := copyContext_of_recorded reads.lt templates
  have hqueue : after.templates.queue = table.templates.queue := by rw [templates]
  have hsymbol : ∀ id, after.symbol id = table.symbol id := symbol_of_symbols_eq symbols
  have hcopies : ∀ id, after.IsCopy position id ↔ id = copy ∨ table.IsCopy position id := by
    intro id
    simp only [IsCopy, hcontext, List.mem_cons, Prod.mk.injEq]
    constructor
    · rintro ⟨other, ⟨-, rfl⟩ | member⟩
      · exact .inl rfl
      · exact .inr ⟨other, member⟩
    · rintro (rfl | ⟨other, member⟩)
      · exact ⟨source, .inl ⟨rfl, rfl⟩⟩
      · exact ⟨other, .inr member⟩
  have hwaits : ∀ {id part}, table.Waits [] id part →
      after.Waits [{ target := copy, part := .type, type, context := position }] id part := by
    rintro id part ⟨work, waiting, found⟩
    rw [List.append_nil] at waiting
    exact ⟨work, List.mem_append_left _ (hqueue ▸ waiting), found⟩
  have hread : ∀ {id : SymbolId} {type : Descriptor}, table.IsCopy position id →
      reading.holds (table.copyContext position) id type → reading.holds (after.copyContext position) id type :=
    fun isCopy holds => hcontext ▸ reading.younger _ _ _ source copy holds (younger _ isCopy)
  constructor
  · rw [templates]
    simpa using reads.lt
  · intro id isCopy part member
    rw [hsymbol] at member
    rcases (hcopies id).mp isCopy with rfl | old
    · rw [noParts] at member
      cases member
    · exact (hcopies part).mpr (.inr (reads.parts id old part member))
  · intro id isCopy
    rw [hsymbol]
    rcases (hcopies id).mp isCopy with rfl | old
    · exact .inl ⟨_, List.mem_append_right _ (List.mem_singleton.mpr rfl), rfl, rfl⟩
    · exact (reads.types id old).imp hwaits (hread old)
  · intro id isCopy type returns
    rw [hsymbol] at returns
    rcases (hcopies id).mp isCopy with rfl | old
    · rw [noReturn] at returns
      cases returns
    · exact (reads.returnTypes id old type returns).imp hwaits (hread old)
  · intro work waiting isCopy
    rcases List.mem_append.mp waiting with queued | carried
    · rw [hqueue] at queued
      rcases (hcopies _).mp isCopy with same | old
      · exact absurd same (unawaited work queued)
      · exact reads.places work (List.mem_append_left _ queued) old
    · rw [List.mem_singleton.mp carried]

/-- A copy takes over the return type of its source, which is about to be read. -/
theorem takeReturnType (reads : table.Reads reading position []) {copy : SymbolId} {given : Descriptor}
    (symbols : after.symbols =
      table.symbols.modify copy.index (Edit.assign (.returnType (some given))).apply)
    (templates : after.templates = table.templates) :
    after.Reads reading position
      [{ target := copy, part := .returnType, type := given, context := position }] := by
  have hcontext : after.copyContext position = table.copyContext position :=
    copyContext_eq (by rw [templates])
  have hwaits : ∀ {id part}, table.Waits [] id part →
      after.Waits [{ target := copy, part := .returnType, type := given, context := position }] id part := by
    rintro id part ⟨work, waiting, found⟩
    rw [List.append_nil] at waiting
    exact ⟨work, List.mem_append_left _ (templates ▸ waiting), found⟩
  have hsurface : (Edit.assign (.returnType (some given))).IsSurface := by trivial
  constructor
  · exact templates ▸ reads.lt
  · intro id isCopy part member
    rw [IsCopy, hcontext] at isCopy ⊢
    rw [symbol_of_modify symbols] at member
    refine reads.parts id isCopy part ?_
    split at member
    · rwa [Edit.parts_apply hsurface] at member
    · exact member
  · intro id isCopy
    rw [IsCopy, hcontext] at isCopy
    rw [hcontext, symbol_of_modify symbols]
    split
    · rw [Edit.type_returnType]
      exact (reads.types id isCopy).imp_left hwaits
    · exact (reads.types id isCopy).imp_left hwaits
  · intro id isCopy type returns
    rw [IsCopy, hcontext] at isCopy
    by_cases hcopy : id = copy
    · exact .inl ⟨_, List.mem_append_right _ (List.mem_singleton.mpr rfl), hcopy.symm, rfl⟩
    · rw [symbol_of_modify symbols, if_neg fun both => hcopy both.1.symm] at returns
      rw [hcontext]
      exact (reads.returnTypes id isCopy type returns).imp_left hwaits
  · intro work waiting isCopy
    rw [IsCopy, hcontext] at isCopy
    rcases List.mem_append.mp waiting with queued | carried
    · exact reads.places work (List.mem_append_left _ (templates ▸ queued)) isCopy
    · rw [List.mem_singleton.mp carried]

/-- Reading a type of a copy is work of this copy. -/
theorem carry (reads : table.Reads reading position busy) {work : DeferredWork}
    (place : work.context = position) : table.Reads reading position (work :: busy) where
  lt := reads.lt
  parts := reads.parts
  types := fun id isCopy => (reads.types id isCopy).imp_left .carry
  returnTypes := fun id isCopy type returns => (reads.returnTypes id isCopy type returns).imp_left .carry
  places := by
    intro other waiting isCopy
    rcases List.mem_append.mp waiting with queued | carried
    · exact reads.places other (List.mem_append_left _ queued) isCopy
    · rcases List.mem_cons.mp carried with rfl | before
      · exact place
      · exact reads.places other (List.mem_append_right _ before) isCopy

/-- A type that was read stands in its place. -/
theorem finish (reads : table.Reads reading position (work :: busy)) {type : Descriptor}
    (lt : work.target.index < table.size)
    (holds : table.IsCopy position work.target → reading.holds (table.copyContext position) work.target type)
    (finished : table.FinishedAt work.target work.part type after) : after.Reads reading position busy := by
  have htemplates := finished.templates_eq
  have hcontext : after.copyContext position = table.copyContext position :=
    copyContext_eq (by rw [htemplates])
  have hwaits : ∀ {id part}, table.Waits (work :: busy) id part → ¬ (id = work.target ∧ work.part = part) →
      after.Waits busy id part := by
    rintro id part ⟨other, waiting, rfl, rfl⟩ others
    refine ⟨other, ?_, rfl, rfl⟩
    rw [htemplates]
    rcases List.mem_append.mp waiting with queued | carried
    · exact List.mem_append_left _ queued
    · rcases List.mem_cons.mp carried with rfl | before
      · exact absurd ⟨rfl, rfl⟩ others
      · exact List.mem_append_right _ before
  constructor
  · exact htemplates ▸ reads.lt
  · intro id isCopy part member
    rw [IsCopy, hcontext] at isCopy ⊢
    rw [finished.parts_eq] at member
    exact reads.parts id isCopy part member
  · intro id isCopy
    rw [IsCopy, hcontext] at isCopy
    rw [hcontext]
    by_cases hread : id = work.target ∧ work.part = .type
    · obtain ⟨rfl, hpart⟩ := hread
      rw [finished.type_eq lt hpart]
      exact .inr (holds isCopy)
    · rw [finished.type_others hread]
      exact (reads.types id isCopy).imp_left fun waits => hwaits waits hread
  · intro id isCopy found returns
    rw [IsCopy, hcontext] at isCopy
    rw [hcontext]
    by_cases hread : id = work.target ∧ work.part = .returnType
    · obtain ⟨rfl, hpart⟩ := hread
      rw [finished.returnType_eq hpart lt found returns]
      exact .inr (holds isCopy)
    · rw [finished.returnType_others hread] at returns
      exact (reads.returnTypes id isCopy found returns).imp_left fun waits => hwaits waits hread
  · intro other waiting isCopy
    rw [IsCopy, hcontext] at isCopy
    rw [htemplates] at waiting
    refine reads.places other ?_ isCopy
    rcases List.mem_append.mp waiting with queued | carried
    · exact List.mem_append_left _ queued
    · exact List.mem_append_right _ (.tail _ carried)

/-- Work that is carried out is finished or put off. -/
theorem carryOut (reads : table.Reads reading position (work :: busy)) {ready : Option Descriptor}
    (lt : work.target.index < table.size)
    (holds : table.IsCopy position work.target → ∀ type, ready = some type →
      reading.holds (table.copyContext position) work.target type)
    (carried : table.CarriesOut work ready after) : after.Reads reading position busy := by
  cases ready with
  | none =>
      obtain rfl := carried
      refine reads.of_queue fun other => ?_
      simp only [List.mem_append, List.mem_cons]
      grind
  | some type => exact reads.finish lt (fun isCopy => holds isCopy type rfl) carried

/-- Linking the copies leaves their types and parts alone. -/
theorem link (reads : table.Reads reading position busy) {context : CopyContext}
    (links : table.LinksCopies context context.copies after) : after.Reads reading position busy := by
  refine reads.of_symbols links.templates_eq (fun id _ => ?_) fun id _ part member => ?_
  · rcases links.cases id with ⟨source, hmember, hdiffers⟩ | hsame
    · rw [links.linked _ hmember hdiffers]
      exact ⟨rfl, rfl⟩
    · rw [hsame]
      exact ⟨rfl, rfl⟩
  · rcases links.cases id with ⟨source, hmember, hdiffers⟩ | hsame
    · rw [links.linked _ hmember hdiffers] at member
      exact .inl member
    · rw [hsame] at member
      exact .inl member

end Reads

end Table

end NameBinding
