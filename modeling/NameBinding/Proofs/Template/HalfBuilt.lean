import NameBinding.Proofs.Template.Outermost

/-!
# What a failed copy inside another one leaves behind

A copy remembers its instance before it fills it, so that the template can refer to itself.  Only the
outermost copy has a mark to roll back to.  So when a copy inside another one fails and the failure
is not passed on, because a default argument may wait for later, the instance stays remembered
although it is not complete.

* `Attempt.FailsDuring` says that a certain attempt to copy a template fails in the course of an
  instantiation: ending the run as soon as the attempt fails makes a difference.
* `instantiate_ok_remembers_half_built`: after an instantiation that succeeds, the instance of every
  attempt that failed in its course is still remembered.
-/

namespace NameBinding

/-! ## Remembered instances stay remembered -/

namespace Symbol

theorem instances_mapClass (change : ClassData → ClassData) (symbol : Symbol) :
    (symbol.mapClass change).instances = symbol.instances := by
  unfold mapClass
  split
  · rename_i data hpayload
    simp [instances, templateData?, hpayload]
  · rfl

theorem instances_mapFunction (change : FunctionData → FunctionData) (symbol : Symbol) :
    (symbol.mapFunction change).instances = symbol.instances := by
  unfold mapFunction
  split
  · rename_i data hpayload
    simp [instances, templateData?, hpayload]
  · rfl

theorem instances_mapDecls (change : Declarations → Declarations) (symbol : Symbol) :
    (symbol.mapDecls change).instances = symbol.instances := by
  unfold mapDecls
  split <;> rename_i hpayload <;> simp [instances, templateData?, hpayload]

theorem mem_instances_mapTemplate {change : TemplateData → TemplateData} {symbol : Symbol}
    {entry : Instance} (grows : ∀ data, entry ∈ data.instances → entry ∈ (change data).instances)
    (member : entry ∈ symbol.instances) : entry ∈ (symbol.mapTemplate change).instances := by
  unfold mapTemplate
  split
  · rename_i data hpayload
    have hdata : entry ∈ data.instances := by
      simpa [instances, templateData?, hpayload] using member
    simpa [instances, templateData?] using grows data hdata
  · exact member

end Symbol

/-- No edit makes a template forget an instance. -/
theorem Edit.mem_instances (edit : Edit) {symbol : Symbol} {entry : Instance}
    (member : entry ∈ symbol.instances) : entry ∈ (edit.apply symbol).instances := by
  cases edit with
  | assign assignment =>
      cases assignment with
      | returnType value =>
          exact (Symbol.instances_mapFunction _ symbol).symm ▸ member
      | varargs value =>
          exact (Symbol.instances_mapFunction _ symbol).symm ▸ member
      | parent position base => exact (Symbol.instances_mapClass _ symbol).symm ▸ member
      | primary value => exact Symbol.mem_instances_mapTemplate (fun _ same => same) member
      | definitionParameter name parameter =>
          exact Symbol.mem_instances_mapTemplate (fun _ same => same) member
      | _ => exact member
  | append added =>
      cases added with
      | parameter id => exact (Symbol.instances_mapFunction _ symbol).symm ▸ member
      | constructor id => exact (Symbol.instances_mapClass _ symbol).symm ▸ member
      | conversion id => exact (Symbol.instances_mapClass _ symbol).symm ▸ member
      | parent link => exact (Symbol.instances_mapClass _ symbol).symm ▸ member
      | directive directive => exact (Symbol.instances_mapDecls _ symbol).symm ▸ member
      | cached other =>
          exact Symbol.mem_instances_mapTemplate (fun _ => List.mem_append_left [other]) member
      | _ => exact Symbol.mem_instances_mapTemplate (fun _ same => same) member
  | insertMember name id => exact (Symbol.instances_mapDecls _ symbol).symm ▸ member

/-- The template remembers the instance. -/
def Table.Remembers (table : Table) (template : SymbolId) (entry : Instance) : Prop :=
  entry ∈ (table.symbol template).instances

namespace Table.Remembers

variable {table : Table} {template : SymbolId} {entry : Instance}

/-- Only a template that the table has remembers anything. -/
theorem exists_symbol (remembers : table.Remembers template entry) :
    ∃ symbol, table.symbols[template.index]? = some symbol ∧ entry ∈ symbol.instances := by
  unfold Remembers at remembers
  cases hsymbol : table.symbols[template.index]? with
  | some symbol =>
      rw [symbol_of_getElem? hsymbol] at remembers
      exact ⟨symbol, rfl, remembers⟩
  | none =>
      rw [symbol_of_getElem?_none hsymbol] at remembers
      cases remembers

theorem of_symbol (symbol : Symbol) (found : table.symbols[template.index]? = some symbol)
    (member : entry ∈ symbol.instances) : table.Remembers template entry := by
  rw [Remembers, symbol_of_getElem? found]
  exact member

/-- A change of one symbol that forgets no instance. -/
theorem modify (remembers : table.Remembers template entry) {after : Table} {i : Nat}
    {change : Symbol → Symbol} (changed : after.symbols = table.symbols.modify i change)
    (keeps : ∀ symbol, entry ∈ symbol.instances → entry ∈ (change symbol).instances) :
    after.Remembers template entry := by
  obtain ⟨symbol, hsymbol, member⟩ := remembers.exists_symbol
  by_cases hi : i = template.index
  · refine of_symbol (change symbol) ?_ (keeps symbol member)
    simp [changed, Array.getElem?_modify, hi, hsymbol]
  · refine of_symbol symbol ?_ member
    simp [changed, Array.getElem?_modify, hi, hsymbol]

theorem allocate (remembers : table.Remembers template entry) (symbol : Symbol) :
    (table.allocate symbol).2.Remembers template entry := by
  obtain ⟨old, hold, member⟩ := remembers.exists_symbol
  have hlt : template.index < table.symbols.size := (Array.getElem?_eq_some_iff.mp hold).1
  refine of_symbol old ?_ member
  show (table.symbols.push symbol)[template.index]? = some old
  rw [Array.getElem?_push, if_neg (Nat.ne_of_lt hlt), hold]

/-- Copying forgets no instance. -/
theorem lasts (size : Nat) (template : SymbolId) (entry : Instance) :
    Lasts size (fun table => table.Remembers template entry) := by
  intro before after steps remembers
  induction steps with
  | refl => exact remembers
  | create _ symbol _ ih => exact ih.allocate symbol
  | cache _ id edit _ ih => exact ih.modify rfl fun _ => edit.mem_instances
  | perform _ id edit _ ih => exact ih.modify rfl fun _ => edit.mem_instances
  | write _ id edit _ ih => exact ih.modify rfl fun _ => edit.mem_instances
  | instantiations _ _ ih => exact ih

end Table.Remembers

namespace Table

variable {table : Table} {template : SymbolId}

theorem lt_size_of_isTemplate (isTemplate : (table.symbol template).templateData?.isSome) :
    template.index < table.size :=
  lt_size_of_symbol (·.templateData?.isSome) rfl isTemplate

theorem isTemplate_of_templated? {templated : SymbolId}
    (found : table.templated? template = some templated) :
    (table.symbol template).templateData?.isSome := by
  obtain ⟨data, hdata, -⟩ := Option.bind_eq_some_iff.mp found
  exact Option.isSome_of_mem hdata

theorem symbol_allocate (lt : template.index < table.size) (symbol : Symbol) :
    (table.allocate symbol).2.symbol template = table.symbol template := by
  have hne : template.index ≠ table.symbols.size := Nat.ne_of_lt lt
  show (table.symbols.push symbol).getD template.index default = _
  rw [Array.getD_eq_getD_getElem?, Array.getElem?_push, if_neg hne,
    ← Array.getD_eq_getD_getElem?]
  rfl

end Table

/-- A template remembers what is recorded for it. -/
theorem Table.remembers_cached {table : Table} {template : SymbolId}
    (isTemplate : (table.symbol template).templateData?.isSome) (entry : Instance) :
    (table.perform template (.append (.cached entry))).Remembers template entry := by
  have hsymbol := getElem?_symbol (lt_size_of_isTemplate isTemplate)
  refine Remembers.of_symbol ((Entry.cached entry).append (table.symbol template)) ?_ ?_
  · simp [perform, Array.getElem?_modify, hsymbol, Edit.apply]
  · unfold Symbol.templateData? at isTemplate
    split at isTemplate
    · rename_i other hpayload
      simp [Entry.append, Symbol.mapTemplate, hpayload, Symbol.instances, Symbol.templateData?]
    · cases isTemplate

namespace Analysis

/-- A copy remembers its instance before it fills it, so that its failure leaves the instance
remembered. -/
theorem copyTemplate_remembers {size depth : Nat} {table : Table} {substitute : Substituter}
    {template : SymbolId} {args : List Descriptor} (copying : Copying size depth table)
    (substitutes : ∀ position type, Copying.Step size depth
      (fun table' => table'.Remembers template ⟨args, ⟨table.size⟩⟩) (substitute position type))
    (declares : (table.templated? template).isSome) (bound : Nat) :
    EndsWith (fun after => after.Remembers template ⟨args, ⟨table.size⟩⟩)
      (fun after => after.Remembers template ⟨args, ⟨table.size⟩⟩) (fun _ => True)
      (copyTemplate substitute bound template args table) := by
  have hlasts : Lasts size (fun after => after.Remembers template ⟨args, ⟨table.size⟩⟩) :=
    Table.Remembers.lasts size _ _
  obtain ⟨templated, htemplated⟩ := Option.isSome_iff_exists.mp declares
  -- The instance is made and remembered.
  let shell : Symbol :=
    { (table.symbol templated).shell with
      scope := (table.symbol template).scope
      origin := some { template, args } }
  let created := (table.allocate shell).2
  let recorded := created.perform template (.append (.cached ⟨args, ⟨table.size⟩⟩))
  have hcreated : Copying size depth created :=
    (Copying.yields_create hlasts.survives (Payload.shell_blank _) table copying).1.1
  have hrecorded : Copying size depth recorded := hcreated.perform _ _
  have hremembers : recorded.Remembers template ⟨args, ⟨table.size⟩⟩ := by
    refine Table.remembers_cached ?_ _
    have htemplate := Table.isTemplate_of_templated? htemplated
    rwa [Table.symbol_allocate (Table.lt_size_of_isTemplate htemplate)]
  -- What follows only fills it.
  have hrun : copyTemplate substitute bound template args table =
      fillCopy substitute bound
        { templated
          bindings := ((table.symbol template).parameters.zip args).reverse
          copies := [(templated, ⟨table.size⟩)] }
        ⟨table.size⟩ recorded := by
    simp only [copyTemplate, bind, EStateM.bind, get, getThe, MonadStateOf.get, EStateM.get,
      htemplated]
    rfl
  rw [hrun]
  exact (Copying.follow_fillCopy hlasts.survives substitutes bound _ (by simpa using copying.bound)
    ⟨table.size⟩ copying.bound recorded hrecorded).2 (.inl hremembers)

end Analysis

/-! ## Attempts that fail -/

namespace Analysis

/-- Instantiation with a watch on every attempt to copy a template. -/
def watchedWithin (watch : Instantiator → Instantiator) : Nat → Instantiator
  | 0 => fun _ _ => violated .nestingExhausted
  | depth + 1 =>
      instantiateStep (watchedWithin watch depth)
        (watch (instantiateUncached (watchedWithin watch depth) depth)) depth

/-- With nothing to watch for, this is instantiation. -/
theorem watchedWithin_unwatched (bound : Nat) :
    watchedWithin (fun copy => copy) bound = instantiateWithin bound := by
  induction bound with
  | zero => rfl
  | succ bound ih => rw [watchedWithin, instantiateWithin, ih]

end Analysis

/-- One attempt to copy a template, told from others by the symbol that it makes for the instance. -/
structure Attempt where
  template : SymbolId
  args : List Descriptor
  made : SymbolId

namespace Attempt

open Analysis

/-- Is this the attempt that begins in `table`?  A template that declares nothing is not copied. -/
def begins (attempt : Attempt) (template : SymbolId) (args : List Descriptor) (table : Table) :
    Bool :=
  template == attempt.template && Descriptor.sameAll args attempt.args
    && attempt.made == ⟨table.size⟩ && (table.templated? template).isSome

/-- End the whole run as soon as the attempt fails. -/
def stop (attempt : Attempt) (copy : Instantiator) : Instantiator := fun template args table =>
  match copy template args table with
  | .ok made after => .ok made after
  | .error (.error error) after =>
      if attempt.begins template args table then
        .error (.fault (.invariant .instantiationMark)) after
      else .error (.error error) after
  | .error (.fault fault) after => .error (.fault fault) after

/-- The attempt fails in the course of an instantiation: to end the run there makes a difference. -/
def FailsDuring (attempt : Attempt) (template : SymbolId) (args : List Descriptor)
    (table : Table) : Prop :=
  watchedWithin attempt.stop table.config.nestingLimit template args table ≠
    instantiate template args table

/-- The template remembers the instance that the attempt has made. -/
def Remembered (attempt : Attempt) (table : Table) : Prop :=
  ∃ entry, Descriptor.sameAll entry.args attempt.args = true ∧ entry.symbol = attempt.made ∧
    table.Remembers attempt.template entry

/-- What a failed attempt leaves behind: its instance is remembered, and is younger than `size`. -/
def Left (attempt : Attempt) (size : Nat) (table : Table) : Prop :=
  attempt.Remembered table ∧ size ≤ attempt.made.index

theorem left_lasts (attempt : Attempt) (start size : Nat) : Lasts size (attempt.Left start) := by
  rintro before after steps ⟨⟨entry, same, made, remembers⟩, young⟩
  exact ⟨⟨entry, same, made, Table.Remembers.lasts size _ _ before after steps remembers⟩, young⟩

variable {attempt : Attempt} {copy : Instantiator} {template : SymbolId} {args : List Descriptor}
  {table : Table}

/-- To stop at the attempt makes a difference only where it fails. -/
theorem stop_ne (differs : attempt.stop copy template args table ≠ copy template args table) :
    attempt.begins template args table = true ∧
      ∃ error after, copy template args table = .error (.error error) after := by
  unfold stop at differs
  cases hcopy : copy template args table with
  | ok made after =>
      rw [hcopy] at differs
      exact absurd rfl differs
  | error interrupt after =>
      rw [hcopy] at differs
      cases interrupt with
      | fault fault => exact absurd rfl differs
      | error error =>
          dsimp only at differs
          split at differs
          · rename_i hbegins
            exact ⟨hbegins, error, after, rfl⟩
          · exact absurd rfl differs

/-- An attempt that fails inside another copy leaves its instance behind. -/
theorem left_of_begins {start size depth bound : Nat} (young : start ≤ size)
    (copying : Copying size (depth + 1) table) (begins : attempt.begins template args table = true) :
    EndsWith (attempt.Left start) (attempt.Left start) (fun _ => True)
      (instantiateUncached (instantiateWithin bound) bound template args table) := by
  simp only [Attempt.begins, Bool.and_eq_true, beq_iff_eq] at begins
  obtain ⟨⟨⟨rfl, hargs⟩, hmade⟩, hdeclares⟩ := begins
  have hsubstitutes := Copying.follow_substituter (Copying.follows_instantiateWithin
    (Table.Remembers.lasts size attempt.template ⟨args, ⟨table.size⟩⟩) bound (depth + 1)) bound false
  have hends := copyTemplate_remembers copying.deeper hsubstitutes hdeclares bound
  have hleft : ∀ after : Table, after.Remembers attempt.template ⟨args, ⟨table.size⟩⟩ →
      attempt.Left start after := by
    intro after remembers
    refine ⟨⟨_, hargs, hmade.symm, remembers⟩, ?_⟩
    rw [hmade]
    exact Nat.le_trans young copying.bound
  rw [instantiateUncached_nested copying.nested, nestedCopy_apply]
  exact EndsWith.copyLeft
    (hends.weaken (fun _ after remembers _ => ⟨hleft after remembers, trivial⟩) hleft)

/-- Inside a copy: where stopping at the attempt makes a difference, its instance is left behind. -/
theorem follows_watchedWithin (attempt : Attempt) {start size : Nat} (young : start ≤ size)
    (bound : Nat) :
    ∀ depth, Follows (Copying size (depth + 1)) (.lasting (attempt.Left start))
      (watchedWithin attempt.stop bound) (instantiateWithin bound) := by
  have hlasts := attempt.left_lasts start size
  induction bound with
  | zero =>
      intro depth template args
      exact Yields.violated _ _
  | succ bound ih =>
      intro depth
      refine tracks_instantiateStep (Copying.admitsInstances hlasts) (ih depth) ?_ bound
      intro template args table copying
      obtain ⟨hends, hevidence⟩ :=
        Copying.follow_instantiateUncached hlasts.survives (ih (depth + 1)) bound template args table copying
      refine ⟨hends, fun cause => ?_⟩
      rcases cause with held | differs
      · exact hevidence (.inl held)
      · -- Either a deeper attempt was stopped, or this one.
        by_cases hdeeper :
            instantiateUncached (watchedWithin attempt.stop bound) bound template args table =
              instantiateUncached (instantiateWithin bound) bound template args table
        · rw [← hdeeper] at differs
          exact left_of_begins young copying (stop_ne differs).1
        · exact hevidence (.inr hdeeper)

/-! ## Instantiations that succeed -/

/-- What an attempt leaves behind lies in the symbols alone. -/
theorem Left.of_symbols {start : Nat} {after : Table} (left : attempt.Left start table)
    (same : after.symbols = table.symbols) : attempt.Left start after := by
  obtain ⟨⟨entry, hargs, hmade, remembers⟩, young⟩ := left
  refine ⟨⟨entry, hargs, hmade, ?_⟩, young⟩
  unfold Table.Remembers Table.symbol at remembers ⊢
  rwa [same]

/-- Outside of any copy, an error takes back what an attempt has left behind. -/
def evidence (attempt : Attempt) (start : Nat) : Evidence :=
  ⟨attempt.Left start, fun _ => True, fun _ _ => trivial⟩

/-- No instantiation is running, and the table has at least `start` symbols. -/
structure Resting (start : Nat) (table : Table) : Prop where
  idle : table.Idle
  size_le : start ≤ table.size

theorem admitsInstances (attempt : Attempt) (start : Nat) :
    AdmitsInstances (Resting start) (attempt.evidence start) where
  create := by
    intro symbol blank
    refine Yields.updateGet (fun table resting => ⟨⟨resting.idle, ?_⟩, trivial⟩) ?_
    · rw [Table.size_allocate]
      exact Nat.le_succ_of_le resting.size_le
    · intro table _ held
      exact attempt.left_lasts start start _ _ (.create .refl symbol blank) held
  cache := by
    intro id edit cache
    refine Yields.update (fun table resting => ⟨resting.idle, ?_⟩) ?_
    · rw [Table.size_perform]
      exact resting.size_le
    · intro table _ held
      exact attempt.left_lasts start start _ _ (.cache .refl id edit cache) held

/-- Stopping at an attempt inside an outermost copy that succeeds makes a difference only if the
instance of the attempt is left behind. -/
theorem follows_instantiateUncached (attempt : Attempt) (start bound : Nat) :
    Follows (Resting start) (attempt.evidence start)
      (attempt.stop (instantiateUncached (watchedWithin attempt.stop bound) bound))
      (instantiateUncached (instantiateWithin bound) bound) := by
  intro template args table resting
  let copy := fun inst => completeCopy inst bound template args (table.symbol template).name
    table.config.passLimit
  have hreal : instantiateUncached (instantiateWithin bound) bound template args table =
      outermostCopy (copy (instantiateWithin bound)) table :=
    instantiateUncached_idle resting.idle _ _ _ _
  have hwatched :
      instantiateUncached (watchedWithin attempt.stop bound) bound template args table =
        outermostCopy (copy (watchedWithin attempt.stop bound)) table :=
    instantiateUncached_idle resting.idle _ _ _ _
  have hcopies : CopiesFrom table (copy (instantiateWithin bound)) :=
    copiesFrom_completeCopy bound template args table _ _
  have hfollow : YieldsAt (Copying table.size 1) (.lasting (attempt.Left start))
      (copy (watchedWithin attempt.stop bound)) (copy (instantiateWithin bound)) (fun _ => True)
      table.copyBegun :=
    follow_completeCopy (attempt.left_lasts start table.size).survives
      (attempt.follows_watchedWithin resting.size_le bound 0) bound template args _ _
      table.copyBegun resting.idle.copying
  rw [YieldsAt, hreal]
  cases hcopy : copy (instantiateWithin bound) table.copyBegun with
  | ok made middle =>
      obtain ⟨after, hafter, hidle, hsymbols, -, steps, -⟩ :=
        outermostCopy_ok hcopies resting.idle hcopy
      have hsize : start ≤ after.size := by
        rw [Table.size, hsymbols]
        exact Nat.le_trans resting.size_le steps.size_le
      rw [hafter]
      refine ⟨⟨⟨hidle, hsize⟩, trivial⟩, fun cause => ⟨?_, trivial⟩⟩
      have hparts : attempt.Left start table.copyBegun ∨
          copy (watchedWithin attempt.stop bound) table.copyBegun ≠
            copy (instantiateWithin bound) table.copyBegun := by
        refine cause.imp (fun held => held.of_symbols rfl) fun differs hsame => differs ?_
        rw [stop, hwatched, outermostCopy_apply, hsame, ← outermostCopy_apply, hafter]
      have hleft := hfollow.2 hparts
      rw [hcopy] at hleft
      exact hleft.1.of_symbols hsymbols
  | error interrupt middle =>
      cases interrupt with
      | error error =>
          rw [outermostCopy_error hcopies resting.idle hcopy]
          exact ⟨⟨resting.idle, resting.size_le⟩, fun _ => trivial⟩
      | fault fault =>
          rw [outermostCopy_apply, hcopy]
          exact ⟨trivial, fun _ => trivial⟩

theorem follows_instantiateWithin (attempt : Attempt) (start bound : Nat) :
    Follows (Resting start) (attempt.evidence start) (watchedWithin attempt.stop bound)
      (instantiateWithin bound) := by
  induction bound with
  | zero =>
      intro template args
      exact Yields.violated _ _
  | succ bound ih =>
      exact tracks_instantiateStep (attempt.admitsInstances start) ih
        (attempt.follows_instantiateUncached start bound) bound

/-- After an instantiation that succeeds, the instances of all attempts that failed in its course are
still remembered, although they are not complete.  So it leaves no such instance exactly if no
attempt failed. -/
theorem instantiate_ok_remembers_half_built (table : Table) (idle : table.Idle)
    (template : SymbolId) (args : List Descriptor) (made : SymbolId) (after : Table)
    (succeeded : instantiate template args table = .ok made after) :
    (∀ attempt : Attempt, attempt.FailsDuring template args table →
        attempt.Remembered after ∧ table.size ≤ attempt.made.index) ∧
      ((∀ attempt : Attempt, attempt.FailsDuring template args table →
          ¬ attempt.Remembered after) ↔
        ∀ attempt : Attempt, ¬ attempt.FailsDuring template args table) := by
  have hleft : ∀ attempt : Attempt, attempt.FailsDuring template args table →
      attempt.Left table.size after := by
    intro attempt fails
    have hevidence : EndsWith (attempt.Left table.size) (fun _ => True) (fun _ => True)
        (instantiate template args table) :=
      (attempt.follows_instantiateWithin table.size table.config.nestingLimit template args table
        ⟨idle, Nat.le_refl _⟩).2 (.inr fails)
    rw [succeeded] at hevidence
    exact hevidence.1
  refine ⟨hleft, fun none attempt fails => ?_, fun none attempt fails => ?_⟩
  · exact none attempt fails (hleft attempt fails).1
  · exact absurd fails (none attempt)

/-- A table that declares `template<class A> struct X : A`, then
`template<class A, class B = X<A>> struct D`, and `template<class T> struct O { D<T> m; }`. -/
@[irreducible]
def waitingTable : Table :=
  finalTable (Table.new { nestingLimit := 6 }) do
    let base ← createTemplate ⟨17⟩
    let baseParameter ← createTemplateParameter ⟨18⟩ .typeName
    addTemplateParameter base baseParameter
    let baseClass ← createClass ⟨17⟩ .struct
    addParent baseClass baseParameter .pub false
    addSymbol base baseClass
    let holder ← createTemplate ⟨19⟩
    let first ← createTemplateParameter ⟨18⟩ .typeName
    addTemplateParameter holder first
    let second ← createTemplateParameter ⟨20⟩ .typeName
    setType second
      { Descriptor.ofParameter .typeName with
        defaultValue := some (.templateId base [.ofSymbol first]) }
    addTemplateParameter holder second
    let holderClass ← createClass ⟨19⟩ .struct
    addSymbol holder holderClass
    let outer ← createTemplate ⟨21⟩
    let parameter ← createTemplateParameter ⟨22⟩ .typeName
    addTemplateParameter outer parameter
    let outerClass ← createClass ⟨21⟩ .struct
    addSymbol outer outerClass
    let member ← createBasic ⟨23⟩ (.templateId holder [.ofSymbol parameter])
    addSymbol outerClass member

/-- Does the run succeed? -/
def succeeds {α : Type} : EStateM.Result Interrupt Table α → Bool
  | .ok _ _ => true
  | .error _ _ => false

/-- `O<int>` succeeds, although `X<int>` fails in its course: the default argument of `D` is given up
for the time being, and the instance stays remembered. -/
theorem default_argument_half_built :
    ∃ made after, waitingTable.Idle ∧
      instantiate ⟨8⟩ [.ofKind .int] waitingTable = .ok made after ∧
      FailsDuring ⟨⟨1⟩, [.ofKind .int], ⟨14⟩⟩ ⟨8⟩ [.ofKind .int] waitingTable ∧
      Remembered ⟨⟨1⟩, [.ofKind .int], ⟨14⟩⟩ after ∧ waitingTable.size ≤ 14 := by
  have hsucceeds : succeeds (instantiate ⟨8⟩ [.ofKind .int] waitingTable) = true := by
    decide +kernel
  have hstopped : succeeds (watchedWithin (stop ⟨⟨1⟩, [.ofKind .int], ⟨14⟩⟩)
      waitingTable.config.nestingLimit ⟨8⟩ [.ofKind .int] waitingTable) = false := by
    decide +kernel
  have hfails : FailsDuring ⟨⟨1⟩, [.ofKind .int], ⟨14⟩⟩ ⟨8⟩ [.ofKind .int] waitingTable := by
    intro hsame
    rw [hsame, hsucceeds] at hstopped
    cases hstopped
  have hidle : waitingTable.Idle := Table.Idle.of_empty (by decide +kernel) (by decide +kernel)
    (by decide +kernel)
  cases hrun : instantiate ⟨8⟩ [.ofKind .int] waitingTable with
  | ok made after =>
      have hleft := (instantiate_ok_remembers_half_built waitingTable hidle ⟨8⟩ [.ofKind .int] made
        after hrun).1 _ hfails
      exact ⟨made, after, hidle, rfl, hfails, hleft⟩
  | error interrupt after =>
      rw [hrun] at hsucceeds
      cases hsucceeds

end Attempt

end NameBinding
