import NameBinding.Proofs.Template.FoundInstances
import NameBinding.Proofs.Template.SelfReferences

/-!
# The names in a copied type

A type names symbols at its base, in its template arguments and in its default value.  When it is read in a copy,
every name becomes another one: a parameter becomes the name in its argument, a declaration becomes its copy, and a
placeholder or a template applied to arguments becomes an instance.  What is left stands outside of the templated
declaration.

* `Descriptor.LinksTo`: somewhere in the type there is the name of a symbol.
* `NameRead`: what becomes of a name, judged by the table in which the copy began.
* `nameRead_of_replaceBase`: what becomes of the base of a type.
* `Table.Retains.isWithin`: what is declared in a declaration stays in it.

The main statement is `linksTo_of_substitute`: every name in a type that was read comes from a name in the type before,
or it stands in an argument.
-/

namespace NameBinding

namespace Descriptor

/-- The type names the symbol: as its base, or somewhere in a template argument or in the default value. -/
inductive LinksTo (id : SymbolId) : Descriptor → Prop where
  | base {type : Descriptor} (linked : type.link = some id) : LinksTo id type
  | argument {type arg : Descriptor} (member : arg ∈ type.templateArgs) (inside : LinksTo id arg) : LinksTo id type
  | default {type value : Descriptor} (given : type.defaultValue = some value) (inside : LinksTo id value) :
      LinksTo id type

/-- A type names what its base is, or what its arguments and its default value name. -/
theorem LinksTo.cases_parts {type : Descriptor} {id : SymbolId} (names : type.LinksTo id) :
    type.link = some id ∨ (∃ arg ∈ type.templateArgs, arg.LinksTo id) ∨
      ∃ value ∈ type.defaultValue, value.LinksTo id := by
  cases names with
  | base linked => exact .inl linked
  | argument member inside => exact .inr (.inl ⟨_, member, inside⟩)
  | default given inside => exact .inr (.inr ⟨_, given, inside⟩)

end Descriptor

/-! ## What is out of reach -/

namespace Table.Retains

variable {before after : Table} {regime : Regime}

/-- What is out of reach is retained. -/
theorem changed {table : Table} (retains : table.Retains before) (changes : Changes regime table after)
    (out : before.size ≤ regime.base) (le : regime.base ≤ table.size) : after.Retains before where
  size_le := Nat.le_trans retains.size_le changes.size_le
  symbols := fun x lt => (retains.symbols x lt).trans (changes.growsTo le (Nat.lt_of_lt_of_le lt out))

theorem scope_eq (retains : after.Retains before) {id : SymbolId} (lt : id.index < before.size) :
    (after.symbol id).scope = (before.symbol id).scope :=
  (retains.symbols id lt).read Symbol.scope fun _ => rfl

/-- The scopes around a symbol are still the same; with more symbols there are more steps to follow them. -/
theorem scopeChainOf_prefix (retains : after.Retains before) (represented : before.Represented) {count more : Nat}
    (le : count ≤ more) {id : SymbolId} (lt : id.index < before.size) :
    before.scopeChainOf count id <+: after.scopeChainOf more id := by
  induction count generalizing more id with
  | zero => exact List.nil_prefix
  | succ count ih =>
      obtain ⟨more, rfl⟩ := Nat.exists_eq_add_one_of_ne_zero (Nat.ne_of_gt (Nat.zero_lt_of_lt le))
      rw [scopeChainOf, scopeChainOf, retains.scope_eq lt]
      cases hscope : (before.symbol id).scope with
      | none => simp
      | some scope =>
          have hlt := Symbol.scope_lt (represented.within id) hscope
          simpa using ih (Nat.le_of_succ_le_succ le) hlt

theorem isWithin (retains : after.Retains before) (represented : before.Represented) {id outer : SymbolId}
    (lt : id.index < before.size) (within : before.isWithin id outer = true) : after.isWithin id outer = true := by
  rw [Table.isWithin, List.contains_iff_mem] at within ⊢
  exact (retains.scopeChainOf_prefix represented (Nat.succ_le_succ retains.size_le) lt).subset within

end Table.Retains

/-! ## Names -/

/-- What the name of a symbol becomes in a copy that began in the table `origin` and has come to the table `now`.  An
instance stands for a placeholder, or for a symbol that is `applied` to arguments.  A name that stays stands outside
of the templated declaration, and the symbol was not copied before the copy that has the name. -/
inductive NameRead (origin now : Table) (context : CopyContext) (copy : SymbolId) (applied : Prop)
    (source : SymbolId) : SymbolId → Prop where
  | argument {arg : Descriptor} {id : SymbolId} (bound : context.bindings.lookup source = some arg)
      (linked : arg.link = some id) : NameRead origin now context copy applied source id
  | copied {id : SymbolId} (member : (source, id) ∈ context.copies) :
      NameRead origin now context copy applied source id
  | made {id : SymbolId} (isInstance : now.IsInstance id)
      (uses : applied ∨ (origin.symbol source).isPlaceholder = true) :
      NameRead origin now context copy applied source id
  | outside (unbound : context.bindings.lookup source = none)
      (plain : (origin.symbol source).isPlaceholder = false)
      (outside : origin.isWithin source context.templated = false)
      (later : ∀ other, (source, other) ∈ context.copies → copy.index < other.index) :
      NameRead origin now context copy applied source source

namespace NameRead

variable {origin now after : Table} {context : CopyContext} {copy source id : SymbolId} {applied : Prop}

/-- Instances stay instances. -/
theorem mono {regime : Regime} (read : NameRead origin now context copy applied source id)
    (changes : Changes regime now after) : NameRead origin after context copy applied source id := by
  cases read with
  | argument bound linked => exact .argument bound linked
  | copied member => exact .copied member
  | made isInstance uses => exact .made (changes.isInstance isInstance) uses
  | outside unbound plain outside later => exact .outside unbound plain outside later

theorem weaken (read : NameRead origin now context copy applied source id) {weaker : Prop}
    (implies : applied → weaker) : NameRead origin now context copy weaker source id := by
  cases read with
  | argument bound linked => exact .argument bound linked
  | copied member => exact .copied member
  | made isInstance uses => exact .made isInstance (uses.imp_left implies)
  | outside unbound plain outside later => exact .outside unbound plain outside later

/-- One more declaration is copied, after the copy that has the name. -/
theorem record (read : NameRead origin now context copy applied source id) {other made : SymbolId}
    (younger : copy.index < made.index) :
    NameRead origin now { context with copies := (other, made) :: context.copies } copy applied source id := by
  cases read with
  | argument bound linked => exact .argument bound linked
  | copied member => exact .copied (.tail _ member)
  | made isInstance uses => exact .made isInstance uses
  | outside unbound plain outside later =>
      refine .outside unbound plain outside fun next member => ?_
      rcases List.mem_cons.mp member with same | old
      · cases same
        exact younger
      · exact later next old

end NameRead

namespace Analysis

/-! ## The base of a type -/

/-- What is given as an instance is one. -/
def GivesInstances (regime : Regime) (instanceOf : SymbolId → List Descriptor → Analysis (Option SymbolId)) : Prop :=
  ∀ template args table made after, regime.Sound table → table.templates.depth ≠ 0 →
    (∀ arg ∈ args, arg.Below table.size) → instanceOf template args table = .ok (some made) after →
    after.IsInstance made

theorem givesInstances_resolveInstance (regime : Regime) {inst : Instantiator} (finds : FindsInstances inst)
    (resolve : Descriptor → Analysis Descriptor) (eager : Bool) :
    GivesInstances regime (resolveInstance inst resolve eager) := by
  intro template args table made after _ running _ ends
  rw [resolveInstance, get_bind] at ends
  split at ends
  · obtain ⟨found, last, hfound, ends⟩ := bind_eq_ok.mp ends
    cases ends
    exact finds template args table made after running hfound
  · obtain ⟨completed, last, -, ends⟩ := bind_eq_ok.mp ends
    cases completed with
    | error error => cases ends
    | ok completed =>
        have hknown : EStateM.Result.ok (last.existingInstance? (table.canonical template) completed) last =
            .ok (some made) after := ends
        injection hknown with hmade hafter
        exact hafter ▸ (Table.Knows.of_existing hmade).isInstance

variable {regime : Regime} {instanceOf : SymbolId → List Descriptor → Analysis (Option SymbolId)}
  {inner : Descriptor → Analysis (Option Descriptor)} {origin table after : Table} {context : CopyContext}
  {type result : Descriptor} {copy source id : SymbolId}

/-- The ways in which the base of a type is replaced in a copy. -/
inductive BaseReplaced (table after : Table) (context : CopyContext) (type : Descriptor) : Descriptor → Prop where
  | builtin (unlinked : type.link = none) : BaseReplaced table after context type type
  | argument {source : SymbolId} {arg : Descriptor} (linked : type.link = some source)
      (bound : context.bindings.lookup source = some arg) :
      BaseReplaced table after context type (type.substituteBase arg)
  | copied {source copy : SymbolId} (linked : type.link = some source) (member : (source, copy) ∈ context.copies) :
      BaseReplaced table after context type { type with link := some copy }
  | made {source made : SymbolId} {args : List Descriptor} (linked : type.link = some source)
      (isInstance : after.IsInstance made)
      (uses : type.templateArgs ≠ [] ∨ (table.symbol source).isPlaceholder = true)
      (kept : ∀ arg ∈ args, arg ∈ type.templateArgs) :
      BaseReplaced table after context type { type with templateArgs := args, link := some made }
  | outside {source : SymbolId} (linked : type.link = some source)
      (unbound : context.bindings.lookup source = none) (uncopied : context.copies.lookup source = none)
      (plain : (table.symbol source).isPlaceholder = false)
      (outside : source ≠ context.templated → table.isWithin source context.templated = false) :
      BaseReplaced table after context type type

section Replacement

variable (resolves : ∀ template args table, regime.Sound table → (∀ arg ∈ args, arg.Below table.size) →
    MovesAt regime (instanceOf template args)
      (fun after made => ∀ id, made = some id → id.index < after.size) table)
  (gives : GivesInstances regime instanceOf) (sound : regime.Sound table) (running : table.templates.depth ≠ 0)

include resolves gives sound running

/-- A type gets an instance for its base. -/
theorem exists_made_of_relink {template : SymbolId} {args : List Descriptor}
    (given : ∀ arg ∈ args, arg.Below table.size)
    (ends : relink instanceOf type template args table = .ok (some result) after) :
    Moved regime table after ∧ ∃ made, after.IsInstance made ∧ result = { type with link := some made } := by
  obtain ⟨made, middle, hmade, ends⟩ := bind_eq_ok.mp ends
  cases made with
  | none => cases ends
  | some made =>
      cases ends
      obtain ⟨hmoved, -⟩ := (resolves template args table sound given).ok hmade
      exact ⟨hmoved, made, gives template args table made after sound running given hmade, rfl⟩

theorem baseReplaced_of_replaceBase (below : type.Below table.size)
    (reads : ∀ type now, regime.Sound now → type.Below now.size →
      MovesAt regime (inner type) (fun last ready => ReadyBelow last.size ready) now)
    (ends : replaceBase instanceOf inner table context type table = .ok (some result) after) :
    Moved regime table after ∧ BaseReplaced table after context type result := by
  -- The cases come in the order in which the base is looked at: bound, copied, a placeholder, and what is outside.
  cases hlink : type.link with
  | none =>
      simp only [replaceBase, hlink] at ends
      cases ends
      exact ⟨.refl regime table, .builtin hlink⟩
  | some link =>
      cases hbound : context.bindings.lookup link with
      | some replacement =>
          simp only [replaceBase, hlink, hbound] at ends
          split at ends
          · cases ends
            exact ⟨.refl regime table, .argument hlink hbound⟩
          · rename_i hargs
            cases htemplate : replacement.link with
            | none => simp only [htemplate] at ends; cases ends
            | some template =>
                simp only [htemplate] at ends
                obtain ⟨hmoved, made, hmade, rfl⟩ := exists_made_of_relink resolves gives sound running below.args ends
                exact ⟨hmoved, .made hlink hmade (.inl (by simpa using hargs)) (by simp)⟩
      | none =>
          cases hcopy : context.copies.lookup link with
          | some copy =>
              simp only [replaceBase, hlink, hbound, hcopy] at ends
              cases ends
              exact ⟨.refl regime table, .copied hlink (mem_of_lookup hcopy)⟩
          | none =>
              cases huse : (table.symbol link).placeholder? with
              | some use =>
                  simp only [replaceBase, hlink, hbound, hcopy, huse] at ends
                  obtain ⟨useArgs, middle, hread, ends⟩ := bind_eq_ok.mp ends
                  cases useArgs with
                  | none => cases ends
                  | some useArgs =>
                      have hwithin := Symbol.placeholder_within (sound.represented.within link) huse
                      simp only [TemplateUse.mentions, Within.cons, Descriptor.within_mentionsAll] at hwithin
                      obtain ⟨hmoved, hbelow⟩ := (moves_mapReady use.args table sound hwithin.2 reads).ok hread
                      obtain ⟨hlater, made, hmade, rfl⟩ := exists_made_of_relink resolves gives (hmoved.sound sound)
                        (hmoved.depth ▸ running) (hbelow useArgs rfl) ends
                      have huses : (table.symbol link).isPlaceholder = true := by simp [Symbol.isPlaceholder, huse]
                      exact ⟨hmoved.trans hlater, .made hlink hmade (.inr huses) fun _ member => member⟩
              | none =>
                  simp only [replaceBase, hlink, hbound, hcopy, huse] at ends
                  split at ends
                  · cases ends
                  · rename_i hinside
                    split at ends
                    · rename_i hargs
                      simp only [Bool.and_eq_true, Bool.not_eq_true', List.isEmpty_eq_false_iff] at hargs
                      obtain ⟨hmoved, made, hmade, rfl⟩ :=
                        exists_made_of_relink resolves gives sound running below.args ends
                      exact ⟨hmoved, .made hlink hmade (.inl hargs.1) (by simp)⟩
                    · cases ends
                      have hplain : (table.symbol link).isPlaceholder = false := by simp [Symbol.isPlaceholder, huse]
                      refine ⟨.refl regime table, .outside hlink hbound hcopy hplain fun differs => ?_⟩
                      simpa [differs] using hinside

end Replacement

namespace BaseReplaced

variable (replaced : BaseReplaced table after context type result)

include replaced

/-- Whether a type is a typedef does not change. -/
theorem isTypedef_eq : result.isTypedef = type.isTypedef := by
  cases replaced with
  | builtin | copied | made | outside => rfl
  | argument => exact Descriptor.isTypedef_substituteBase _ _

/-- The new base comes from the old one. -/
theorem nameRead (retains : table.Retains origin) (represented : origin.Represented)
    (old : ∀ link, type.link = some link → link.index < origin.size)
    (copies : ∃ made, (context.templated, made) ∈ context.copies) (linked : result.link = some id) :
    ∃ source, type.link = some source ∧
      NameRead origin after context copy (type.templateArgs ≠ []) source id := by
  cases replaced with
  | builtin unlinked =>
      rw [unlinked] at linked
      cases linked
  | @argument source arg from_ bound =>
      rw [Descriptor.link_substituteBase] at linked
      exact ⟨source, from_, .argument bound linked⟩
  | @copied source made from_ member =>
      cases linked
      exact ⟨source, from_, .copied member⟩
  | @made source made args from_ isInstance uses kept =>
      cases linked
      rw [(retains.symbols source (old source from_)).isPlaceholder] at uses
      exact ⟨source, from_, .made isInstance uses⟩
  | @outside source from_ unbound uncopied plain outside =>
      obtain rfl : source = id := Option.some.inj (from_.symm.trans linked)
      have hold := old source from_
      have huncopied : ∀ other, (source, other) ∉ context.copies := fun other member =>
        absurd (List.lookup_eq_none_iff.mp uncopied _ member) (by simp)
      have hdiffers : source ≠ context.templated := by
        rintro rfl
        obtain ⟨made, member⟩ := copies
        exact huncopied made member
      refine ⟨source, from_, .outside unbound ?_ ?_ fun other member => absurd member (huncopied other)⟩
      · rwa [(retains.symbols source hold).isPlaceholder] at plain
      · by_contra within
        rw [Bool.not_eq_false] at within
        exact absurd (retains.isWithin represented hold within) (by simp [outside hdiffers])

/-- A name in the new type is its base, or it stood there before, or it comes with an argument. -/
theorem linksTo (names : result.LinksTo id) :
    result.link = some id ∨ ((∃ arg ∈ type.templateArgs, arg.LinksTo id) ∨
      ∃ value ∈ type.defaultValue, value.LinksTo id) ∨ ∃ pair ∈ context.bindings, pair.2.LinksTo id := by
  refine names.cases_parts.imp_right fun parts => ?_
  cases replaced with
  | builtin | copied | outside => exact .inl parts
  | made from_ isInstance uses kept =>
      exact .inl (parts.imp_left fun ⟨arg, member, inside⟩ => ⟨arg, kept arg member, inside⟩)
  | argument from_ bound =>
      rcases parts with ⟨arg, member, inside⟩ | default
      · rw [Descriptor.templateArgs_substituteBase] at member
        exact .inr ⟨_, mem_of_lookup bound, .argument member inside⟩
      · exact .inl (.inr default)

end BaseReplaced

end Analysis

/-! ## Whole types -/

/-- What a type has become in a copy: all its names were read, and it is a typedef if it was one. -/
structure TypeRead (origin now : Table) (context : CopyContext) (copy : SymbolId) (type result : Descriptor) :
    Prop where
  isTypedef_eq : result.isTypedef = type.isTypedef
  base : ∀ id, result.link = some id → ∃ source, type.link = some source ∧
    NameRead origin now context copy (type.templateArgs ≠ []) source id
  names : ∀ id, result.LinksTo id →
    (∃ source, type.LinksTo source ∧ NameRead origin now context copy True source id) ∨
      ∃ pair ∈ context.bindings, pair.2.LinksTo id

namespace TypeRead

variable {origin now after : Table} {context : CopyContext} {copy : SymbolId} {type result : Descriptor}

theorem mono {regime : Regime} (read : TypeRead origin now context copy type result)
    (changes : Changes regime now after) : TypeRead origin after context copy type result where
  isTypedef_eq := read.isTypedef_eq
  base := fun id linked => (read.base id linked).imp fun _ found => ⟨found.1, found.2.mono changes⟩
  names := fun id names => (read.names id names).imp_left fun ⟨source, found, name⟩ =>
    ⟨source, found, name.mono changes⟩

theorem record (read : TypeRead origin now context copy type result) {source made : SymbolId}
    (younger : copy.index < made.index) :
    TypeRead origin now { context with copies := (source, made) :: context.copies } copy type result where
  isTypedef_eq := read.isTypedef_eq
  base := fun id linked => (read.base id linked).imp fun _ found => ⟨found.1, found.2.record younger⟩
  names := fun id names => (read.names id names).imp_left fun ⟨source, found, name⟩ =>
    ⟨source, found, name.record younger⟩

/-- What a type of a copy names is a copy, or is named by an argument, or is an instance, or it was left alone. -/
theorem linksTo (read : TypeRead origin now context copy type result) {id : SymbolId} (linked : result.LinksTo id) :
    (∃ source, (source, id) ∈ context.copies) ∨ (∃ pair ∈ context.bindings, pair.2.LinksTo id) ∨ now.IsInstance id ∨
      context.bindings.lookup id = none ∧ origin.isWithin id context.templated = false ∧
        ∀ later, (id, later) ∈ context.copies → copy.index < later.index := by
  rcases read.names id linked with ⟨source, -, name⟩ | bound
  · cases name with
    | argument bound linked => exact .inr (.inl ⟨_, mem_of_lookup bound, .base linked⟩)
    | copied member => exact .inl ⟨source, member⟩
    | made isInstance => exact .inr (.inr (.inl isInstance))
    | outside unbound _ outside later => exact .inr (.inr (.inr ⟨unbound, outside, later⟩))
  · exact .inr (.inl bound)

end TypeRead

namespace Analysis

variable {regime : Regime} {origin table after : Table} {type result : Descriptor} {copy : SymbolId}

/-- What stands in one of two lists that correspond has a counterpart in the other one. -/
theorem exists_of_mem_forall₂ {α β : Type} {holds : α → β → Prop} {list : List α} {found : List β} {y : β}
    (all : List.Forall₂ holds list found) (member : y ∈ found) : ∃ x ∈ list, holds x y := by
  induction all with
  | nil => cases member
  | cons first rest ih =>
      rcases List.mem_cons.mp member with rfl | later
      · exact ⟨_, List.mem_cons_self, first⟩
      · obtain ⟨x, hx, found⟩ := ih later
        exact ⟨x, List.mem_cons_of_mem _ hx, found⟩

/-- If every element of a list is read well wherever the elements before it led, all of them are read well. -/
theorem forall₂_mapReady {step : Descriptor → Analysis (Option Descriptor)}
    (good : Table → Descriptor → Descriptor → Prop) {types found : List Descriptor}
    (mono : ∀ {now next type result}, Moved regime now next → good now type result → good next type result)
    (moves : ∀ type now, regime.Sound now → type.Below now.size →
      MovesAt regime (step type) (fun last ready => ReadyBelow last.size ready) now)
    (each : ∀ type ∈ types, ∀ now next result, Moved regime table now → regime.Sound now →
      step type now = .ok (some result) next → good next type result)
    (sound : regime.Sound table) (below : ∀ type ∈ types, type.Below table.size)
    (ends : mapReady step types table = .ok (some found) after) : List.Forall₂ (good after) types found := by
  -- By induction on the list, since each element is read in the table that the ones before it left.
  induction types generalizing table found with
  | nil => cases ends; exact .nil
  | cons first rest ih =>
      obtain ⟨ready, middle, hready, ends⟩ := bind_eq_ok.mp ends
      cases ready with
      | none => cases ends
      | some head =>
          obtain ⟨others, last, hothers, ends⟩ := bind_eq_ok.mp ends
          cases others with
          | none => cases ends
          | some others =>
              cases ends
              have hfirst := each first List.mem_cons_self table middle head (.refl regime table) sound hready
              obtain ⟨hmoved, -⟩ := (moves first table sound (below first List.mem_cons_self)).ok hready
              have hbelow : ∀ type ∈ rest, type.Below middle.size := fun type member =>
                (below type (List.mem_cons_of_mem first member)).mono hmoved.size_le
              obtain ⟨hlater, -⟩ := (moves_mapReady rest middle (hmoved.sound sound) hbelow moves).ok hothers
              refine .cons (mono hlater hfirst) (ih (fun type member now next result before => ?_)
                (hmoved.sound sound) hbelow hothers)
              exact each type (List.mem_cons_of_mem first member) now next result (hmoved.trans before)

section Substitution

variable {instanceOf : SymbolId → List Descriptor → Analysis (Option SymbolId)} {position : Nat}
  (resolves : ∀ template args table, regime.Sound table → (∀ arg ∈ args, arg.Below table.size) →
    MovesAt regime (instanceOf template args)
      (fun after made => ∀ id, made = some id → id.index < after.size) table)
  (gives : GivesInstances regime instanceOf) (lt : position < regime.floor)
  (represented : origin.Represented) (out : origin.size ≤ regime.base)

include resolves gives lt represented out

/-- A type of the templated declaration that is read in the copy. -/
theorem typeRead_of_substitute (depth : Nat) (sound : regime.Sound table) (running : table.templates.depth ≠ 0)
    (retains : table.Retains origin) (copies : ∃ made, ((table.copyContext position).templated, made) ∈
      (table.copyContext position).copies) (below : type.Below origin.size)
    (ends : substitute instanceOf position depth type table = .ok (some result) after) :
    TypeRead origin after (table.copyContext position) copy type result := by
  induction depth generalizing type result table after with
  | zero => cases ends
  | succ depth ih =>
      have hmoves := moves_substitute resolves position depth
      -- The parts of the type are read in tables in which nothing has become of the context.
      have hparts : ∀ {types found : List Descriptor} {now last : Table}, Moved regime table now →
          regime.Sound now → (∀ type ∈ types, type.Below origin.size) →
          mapReady (substitute instanceOf position depth) types now = .ok (some found) last →
          List.Forall₂ (TypeRead origin last (table.copyContext position) copy) types found := by
        intro types found now last moved hnow hbelow hread
        refine forall₂_mapReady (TypeRead origin · (table.copyContext position) copy)
          (fun moved read => read.mono moved.changes) hmoves ?_ hnow ?_ hread
        · intro type member now' next result moved' hnow' hresult
          have hreached := moved.trans moved'
          have hcontext := copyContext_moved hreached lt
          have hretains := retains.changed hreached.changes out sound.base_le
          rw [← hcontext]
          exact ih hnow' (hreached.depth ▸ running) hretains (hcontext ▸ copies) (hbelow type member) hresult
        · exact fun type member => (hbelow type member).mono (Nat.le_trans retains.size_le moved.size_le)
      rw [substitute_succ] at ends
      obtain ⟨args, middle, hargs, ends⟩ := bind_eq_ok.mp ends
      cases args with
      | none => cases ends
      | some args =>
          obtain ⟨defaults, last, hdefaults, ends⟩ := bind_eq_ok.mp ends
          cases defaults with
          | none => cases ends
          | some defaults =>
              have hbelow := below.mono retains.size_le
              have hvalue : ∀ value ∈ type.defaultValue.toList, value.Below origin.size := fun value member =>
                below.default (Option.mem_toList.mp member)
              obtain ⟨hmoved, hargsBelow⟩ :=
                (moves_mapReady type.templateArgs table sound hbelow.args hmoves).ok hargs
              have hsound := hmoved.sound sound
              obtain ⟨hlater, hdefaultsBelow⟩ := (moves_mapReady type.defaultValue.toList middle hsound
                (fun value member => (hvalue value member).mono (Nat.le_trans retains.size_le hmoved.size_le))
                hmoves).ok hdefaults
              have hall := hmoved.trans hlater
              have hlast := hall.sound sound
              have hcontext : last.copyContext position = table.copyContext position := copyContext_moved hall lt
              have hreplaced : replaceBase instanceOf (substitute instanceOf position depth) last
                  (last.copyContext position)
                  ((last.copyContext position).readType type args defaults.head?) last =
                  .ok (some result) after := ends
              have hread := (hlast.work.copyContext position).read (hbelow.mono hall.size_le)
                (fun arg member => (hargsBelow args rfl arg member).mono hlater.size_le)
                fun value head => hdefaultsBelow defaults rfl value (List.mem_of_mem_head? head)
              obtain ⟨hended, hbase⟩ := baseReplaced_of_replaceBase resolves gives hlast (hall.depth ▸ running) hread
                hmoves hreplaced
              rw [hcontext] at hbase
              have hretains := retains.changed hall.changes out sound.base_le
              have hargsRead := hparts (.refl regime table) sound below.args hargs
              have hdefaultsRead := hparts hmoved hsound hvalue hdefaults
              -- The base of the type is replaced last.
              have hlink : ∀ id, result.link = some id → ∃ source, type.link = some source ∧
                  NameRead origin after (table.copyContext position) copy (type.templateArgs ≠ []) source id := by
                intro id linked
                obtain ⟨source, hsource, hname⟩ := hbase.nameRead hretains represented
                  (fun link linked => below.link linked) copies linked
                refine ⟨source, hsource, hname.weaken fun applied noArgs => applied ?_⟩
                rw [noArgs] at hargsRead
                exact List.forall₂_nil_left_iff.mp hargsRead
              refine ⟨hbase.isTypedef_eq, hlink, fun id names => ?_⟩
              rcases hbase.linksTo names with linked | (⟨arg, member, inside⟩ | ⟨value, member, inside⟩) | given
              · obtain ⟨source, hsource, hname⟩ := hlink id linked
                exact .inl ⟨source, .base hsource, hname.weaken fun _ => trivial⟩
              · obtain ⟨argType, hargType, hread⟩ := exists_of_mem_forall₂ hargsRead member
                refine ((hread.mono (hlater.trans hended).changes).names id inside).imp_left ?_
                exact fun ⟨source, found, hname⟩ => ⟨source, .argument hargType found, hname⟩
              · obtain ⟨valueType, hvalueType, hread⟩ :=
                  exists_of_mem_forall₂ hdefaultsRead (List.mem_of_mem_head? member)
                refine ((hread.mono hended.changes).names id inside).imp_left ?_
                exact fun ⟨source, found, hname⟩ => ⟨source, .default (Option.mem_toList.mp hvalueType) found, hname⟩
              · exact .inr given

end Substitution

/-- A type of the templated declaration, as it is read during a copy or when queued work is finished. -/
theorem typeRead_of_substituter (represented : origin.Represented) {base floor position : Nat}
    (sound : (Regime.copying base floor).Sound table) (running : table.templates.depth ≠ 0)
    (lt : position < table.templates.contexts.size) (retains : table.Retains origin)
    (copies : ∃ made, ((table.copyContext position).templated, made) ∈ (table.copyContext position).copies)
    (below : type.Below origin.size) {bound depth : Nat} {eager : Bool}
    (ends : substituter (instantiateWithin bound) depth eager position type table = .ok (some result) after) :
    TypeRead origin after (table.copyContext position) copy type result :=
  typeRead_of_substitute (moves_resolveWithin bound depth table.size table.templates.contexts.size eager)
    (givesInstances_resolveInstance _ (findsInstances_instantiateWithin bound) _ eager) lt represented
    retains.size_le depth sound.tight running retains copies below ends

end Analysis

end NameBinding
