import NameBinding.Proofs.Operation.Acyclic
import NameBinding.Proofs.Table.Spellings

/-!
# Flattening a type from the inside

A type is flattened from the outside: its typedef is replaced by what it stands for, then the typedef that this
is built on, and so on.  The typedef may as well be flattened first and put in the place of the base afterwards,
because replacing bases is associative.  Where no typedef is built on itself, the chain of typedefs is followed to
its end, and a flattened type stays as it is.

* `Descriptor.substituteBase_assoc`: replacing two bases in turn.
* `Descriptor.Replaces`, `replacements_in_any_order`: in a chain of types, the order in which bases are replaced
  does not matter.
* `Table.flattenSteps_substituteBase`: what a base is replaced by may be flattened before or after.
* `Table.TypedefLeads`: a typedef is built on another declaration.

The main statement is `flattenType_from_inside`.
-/

namespace NameBinding

open Relation

theorem Cv.union_assoc (a b c : Cv) : (a.union b).union c = a.union (b.union c) := by
  simp [union, Bool.or_assoc]

namespace Specifiers

theorem union_assoc (a b c : Specifiers) : (a.union b).union c = a.union (b.union c) := by
  simp [union, Bool.or_assoc]

theorem withoutTypedef_union (a b : Specifiers) :
    (a.union b).withoutTypedef = a.withoutTypedef.union b.withoutTypedef := rfl

theorem withoutTypedef_withoutTypedef (a : Specifiers) : a.withoutTypedef.withoutTypedef = a.withoutTypedef := rfl

end Specifiers

/-! ## Replacing bases -/

namespace Descriptor

/-- Replacing a base and then the base of what it was replaced by, or both at once. -/
theorem substituteBase_assoc (use type replacement : Descriptor) :
    (use.substituteBase type).substituteBase replacement =
      use.substituteBase (type.substituteBase replacement) := by
  obtain ⟨kind, ⟨cv, specifiers, sizeSign⟩, ops, link, args, sort, constant, value⟩ := type
  obtain ⟨kind', ⟨cv', specifiers', sizeSign'⟩, ops', link', args', sort', constant', value'⟩ := replacement
  -- The qualifiers of the use go to the outermost operator that is left, or else to the last base.
  cases ops <;> cases ops' <;>
    simp [substituteBase, withTopCv, setTopCv, setBaseCv, topCv, baseCv, Cv.union_assoc,
      Specifiers.union_assoc, Specifiers.withoutTypedef_union, Specifiers.withoutTypedef_withoutTypedef]

instance : Std.Associative substituteBase := ⟨substituteBase_assoc⟩

/-- In a chain of types, each of which goes in the place of the base of the one before it, one base is replaced. -/
inductive Replaces : List Descriptor → List Descriptor → Prop where
  | first (use type : Descriptor) (rest : List Descriptor) :
      Replaces (use :: type :: rest) (use.substituteBase type :: rest)
  | later (use : Descriptor) {chain after : List Descriptor} (replaces : Replaces chain after) :
      Replaces (use :: chain) (use :: after)

/-- What a chain of types comes to when its bases are replaced one after the other. -/
def replaced : List Descriptor → Option Descriptor
  | [] => none
  | use :: chain => some (chain.foldl substituteBase use)

/-- The base of the type at the head may be replaced last. -/
theorem replaced_cons (use : Descriptor) {chain : List Descriptor} (more : chain ≠ []) :
    replaced (use :: chain) = (replaced chain).map use.substituteBase := by
  obtain ⟨type, rest, rfl⟩ := List.exists_cons_of_ne_nil more
  simp only [replaced, List.foldl_cons, List.foldl_assoc, Option.map_some]

theorem Replaces.ne_nil {chain after : List Descriptor} (replaces : Replaces chain after) :
    chain ≠ [] ∧ after ≠ [] := by
  cases replaces <;> exact ⟨List.cons_ne_nil _ _, List.cons_ne_nil _ _⟩

/-- Replacing a base somewhere in a chain does not change what the chain comes to. -/
theorem Replaces.replaced_eq {chain after : List Descriptor} (replaces : Replaces chain after) :
    replaced chain = replaced after := by
  induction replaces with
  | first use type rest => rfl
  | later use replaces ih =>
      obtain ⟨before, behind⟩ := replaces.ne_nil
      rw [replaced_cons use before, replaced_cons use behind, ih]

theorem replaced_eq_of_reflTransGen {chain after : List Descriptor} (steps : ReflTransGen Replaces chain after) :
    replaced chain = replaced after := by
  induction steps with
  | refl => rfl
  | tail _ replaces ih => exact ih.trans replaces.replaced_eq

/-- The bases of a chain can be replaced from the head on. -/
theorem replaces_from_head (use : Descriptor) (chain : List Descriptor) :
    ReflTransGen Replaces (use :: chain) [chain.foldl substituteBase use] := by
  induction chain generalizing use with
  | nil => exact .refl
  | cons type rest ih => exact .head (.first use type rest) (ih (use.substituteBase type))

/-- Replacing bases is associative, in every field of the type.  So a chain of types, each of which goes in the place
of the base of the one before it, comes to one and the same type, in whatever order the bases are replaced. -/
theorem replacements_in_any_order :
    (∀ use type replacement : Descriptor,
      (use.substituteBase type).substituteBase replacement =
        use.substituteBase (type.substituteBase replacement)) ∧
    ∀ (use : Descriptor) (chain : List Descriptor) (result : Descriptor),
      ReflTransGen Replaces (use :: chain) [result] ↔ result = chain.foldl substituteBase use := by
  refine ⟨substituteBase_assoc, fun use chain result => ⟨fun steps => ?_, ?_⟩⟩
  · exact (Option.some.inj (replaced_eq_of_reflTransGen steps)).symm
  · rintro rfl
    exact replaces_from_head use chain

/-- The declaration that names the base comes with the base. -/
theorem substituteBase_withLink (use type : Descriptor) (link : Option SymbolId) :
    use.substituteBase { type with link } = { use.substituteBase type with link } := by
  obtain ⟨kind, flags, ops, link, args, sort, constant, value⟩ := type
  cases ops <;> rfl

end Descriptor

namespace Table

variable {table : Table} {use type : Descriptor} {id link x y : SymbolId}

/-- What the base of a use is replaced by is flattened in the same number of steps in its place and alone. -/
theorem flattenSteps_substituteBase (steps : Nat) (use type : Descriptor) :
    table.flattenSteps steps (use.substituteBase type) =
      use.substituteBase (table.flattenSteps steps type) := by
  induction steps generalizing type with
  | zero => rfl
  | succ steps ih =>
      simp only [flattenSteps, Descriptor.link_substituteBase]
      cases type.link with
      | none => rfl
      | some link =>
          dsimp only
          split
          · rw [Descriptor.substituteBase_withLink]
          · split
            · rfl
            · rw [Descriptor.substituteBase_assoc, ih]

theorem flattenType_substituteBase (use type : Descriptor) :
    table.flattenType (use.substituteBase type) = use.substituteBase (table.flattenType type) :=
  flattenSteps_substituteBase _ use type

/-! ## Typedefs that are not built on themselves -/

/-- A typedef is built on another declaration. -/
def TypedefLeads (table : Table) (id next : SymbolId) : Prop :=
  (table.symbol id).type.isTypedef = true ∧ (table.symbol id).type.link.map table.canonical = some next

theorem TypedefLeads.lt_size (leads : table.TypedefLeads x y) : x.index < table.size :=
  lt_size_of_symbol (·.type.isTypedef) rfl leads.1

section Acyclic

variable (typedefs : ∀ id, ¬ TransGen table.TypedefLeads id id)

include typedefs

/-- Induction along the chain of a typedef: what is built on other declarations comes after these. -/
theorem typedef_induction {motive : SymbolId → Prop}
    (step : ∀ id, (∀ next, table.TypedefLeads (table.canonical id) (table.canonical next) → motive next) →
      motive id) (id : SymbolId) : motive id := by
  have hends := acc_of_acyclic TypedefLeads.lt_size typedefs (table.canonical id)
  generalize hentity : table.canonical id = entity at hends
  induction hends generalizing id with
  | intro entity _ ih =>
      subst hentity
      exact step id fun next leads => ih _ leads next rfl

/-- The chain of every typedef ends. -/
theorem exists_typedefChain (id : SymbolId) : ∃ steps, table.TypedefChain steps id := by
  induction id using typedef_induction typedefs with
  | step id ih =>
      cases hnamed : table.nextTypedef? id with
      | none => exact ⟨0, .last hnamed⟩
      | some next =>
          obtain ⟨htypedef, hlink, -⟩ := nextTypedef?_eq_some hnamed
          obtain ⟨steps, rest⟩ := ih next ⟨htypedef, by rw [hlink, Option.map_some]⟩
          exact ⟨steps + 1, .next hnamed rest⟩

/-- More steps than the table has symbols are enough for every type. -/
theorem flattenSteps_eq_flattenType {steps : Nat} (enough : table.size < steps) (type : Descriptor) :
    table.flattenSteps steps type = table.flattenType type := by
  rw [flattenType]
  cases hlink : type.link with
  | none => rw [flattenSteps_of_unlinked hlink, flattenSteps_of_unlinked hlink]
  | some link =>
      obtain ⟨length, chain⟩ := exists_typedefChain typedefs link
      have hle := chain.steps_le
      exact chain.flattenSteps_eq hlink (by omega) (by omega)

variable (ends : table.LinksEnd)

include ends

/-- A typedef may be replaced by what it stands for, since that is not the typedef itself. -/
theorem flattenType_of_typedef (linked : type.link = some link)
    (typedef : (table.symbol (table.canonical link)).type.isTypedef = true) :
    table.flattenType type =
      table.flattenType (type.substituteBase (table.symbol (table.canonical link)).type) := by
  have hdiffers : (table.symbol (table.canonical link)).type.link ≠ some (table.canonical link) := by
    intro itself
    refine typedefs (table.canonical link) (.single ⟨typedef, ?_⟩)
    rw [itself, Option.map_some, ends.canonical_canonical]
  refine (flattenType_expanded (fun id _ => exists_typedefChain typedefs id) ?_).symm
  simp [namedTypedef?, linked, typedef, hdiffers]

/-- A flattened type names nothing, or an entity that is no typedef. -/
theorem link_flattenType (named : (table.flattenType type).link = some link) :
    table.canonical link = link ∧ (table.symbol link).type.isTypedef = false := by
  cases hlink : type.link with
  | none =>
      rw [flattenType, flattenSteps_of_unlinked hlink, hlink] at named
      cases named
  | some first =>
      induction first using typedef_induction typedefs generalizing type with
      | step first ih =>
          cases htypedef : (table.symbol (table.canonical first)).type.isTypedef with
          | false =>
              simp only [flattenType, flattenSteps, hlink, htypedef, Bool.not_false, if_true,
                Option.some.injEq] at named
              subst named
              exact ⟨ends.canonical_canonical first, htypedef⟩
          | true =>
              rw [flattenType_of_typedef typedefs ends hlink htypedef] at named
              have hnext := Descriptor.link_substituteBase type (table.symbol (table.canonical first)).type
              cases hbehind : (table.symbol (table.canonical first)).type.link with
              | none =>
                  rw [hbehind] at hnext
                  rw [flattenType, flattenSteps_of_unlinked hnext, hnext] at named
                  cases named
              | some next =>
                  rw [hbehind] at hnext
                  exact ih next ⟨htypedef, by rw [hbehind, Option.map_some]⟩ named hnext

end Acyclic

/-- Flattening from the inside, where neither links nor typedefs run in circles.  A type that is spelled with a
typedef is flattened by flattening what the typedef stands for and putting it in the place of the base.  The
result names nothing, or an entity that is no typedef, no matter how many further steps are allowed, and it is flat
itself. -/
theorem flattenType_from_inside
    (links : ∀ id, ¬ TransGen (fun a b => table.nextLink a = some b) id id)
    (typedefs : ∀ id, ¬ TransGen table.TypedefLeads id id) :
    (∀ use link, use.link = some link → (table.symbol (table.canonical link)).type.isTypedef = true →
      table.flattenType use =
        use.substituteBase (table.flattenType (table.symbol (table.canonical link)).type)) ∧
    ∀ type,
      (∀ link, (table.flattenType type).link = some link →
        table.canonical link = link ∧ (table.symbol link).type.isTypedef = false) ∧
      (∀ steps, table.size < steps → table.flattenSteps steps type = table.flattenType type) ∧
      table.flattenType (table.flattenType type) = table.flattenType type := by
  have hends : table.LinksEnd := .of_acyclic links
  refine ⟨fun use link linked typedef => ?_, fun type => ⟨fun link => link_flattenType typedefs hends,
    fun steps enough => flattenSteps_eq_flattenType typedefs enough type, ?_⟩⟩
  · rw [flattenType_of_typedef typedefs hends linked typedef, flattenType_substituteBase]
  · cases hlink : (table.flattenType type).link with
    | none => exact flattenSteps_of_unlinked hlink _
    | some link =>
        obtain ⟨hcanonical, hnamed⟩ := link_flattenType typedefs hends hlink
        exact flattenSteps_of_named hlink hcanonical hnamed _

end Table

open Analysis

/-- A class (2) and its forward declaration (1), a typedef of the class spelled with the latter and const (3), an
alias of that (5) in a namespace, and a typedef of a pointer to the alias (6). -/
def declareTypedefs : List Action :=
  [.perform (.createClass ⟨17⟩ .struct), .addFlags ⟨1⟩ { specifiers := { isForward := true } },
    .perform (.addSymbol ⟨0⟩ ⟨1⟩), .perform (.createClass ⟨17⟩ .struct), .perform (.addSymbol ⟨0⟩ ⟨2⟩),
    .perform (.createBasic ⟨18⟩ ((Descriptor.ofSymbol ⟨1⟩).setBaseCv { isConst := true }).asTypedef),
    .perform (.addSymbol ⟨0⟩ ⟨3⟩),
    .perform (.createContainer ⟨19⟩ (.ofKind .nspace)), .perform (.addSymbol ⟨0⟩ ⟨4⟩),
    .perform (.addUsingDeclaration ⟨4⟩ ⟨18⟩ ⟨0⟩),
    .perform (.createBasic ⟨20⟩ (Descriptor.ofSymbol ⟨5⟩).pointer.asTypedef), .perform (.addSymbol ⟨4⟩ ⟨6⟩)]

/-- The table with these declarations. -/
@[irreducible]
def typedefsTable : Table := (Table.new {}).ran declareTypedefs

/-- A reference to the const pointer typedef comes to a reference to a const pointer to the const class. -/
theorem typedef_of_alias_flattened :
    let use := ((Descriptor.ofSymbol ⟨6⟩).setBaseCv { isConst := true }).reference
    (∀ id, ¬ TransGen (fun a b => typedefsTable.nextLink a = some b) id id) ∧
      (∀ id, ¬ TransGen typedefsTable.TypedefLeads id id) ∧
      typedefsTable.flattenType use =
        use.substituteBase (typedefsTable.flattenType (typedefsTable.symbol ⟨6⟩).type) ∧
      (typedefsTable.flattenType use).ops =
        [{ kind := .reference }, { kind := .pointer, cv := { isConst := true } }] ∧
      (typedefsTable.flattenType use).link = some ⟨2⟩ ∧
      (typedefsTable.flattenType use).baseCv = { isConst := true } ∧
      typedefsTable.flattenType (typedefsTable.flattenType use) = typedefsTable.flattenType use := by
  intro use
  have hlinks : ∀ id, ¬ TransGen (fun a b => typedefsTable.nextLink a = some b) id id := by
    have hreached : Reached Action.Joins ((Table.new {}).ran declareTypedefs) :=
      Reached.ran (.new {}) (by decide +kernel)
    rw [typedefsTable]
    exact hreached.linksEnd_sheltered.holds.2.acyclic
  have htypedefs : ∀ id, ¬ TransGen typedefsTable.TypedefLeads id id := by
    have holder : ∀ index : Fin typedefsTable.size, (typedefsTable.symbol ⟨index⟩).type.isTypedef = true →
        ((typedefsTable.symbol ⟨index⟩).type.link.map typedefsTable.canonical).all
          (fun next => next.index < index.val) = true := by
      decide +kernel
    refine not_transGen_of_rank SymbolId.index fun x y leads => ?_
    have hall := holder ⟨x.index, leads.lt_size⟩ leads.1
    rw [leads.2, Option.all_some, decide_eq_true_eq] at hall
    exact hall
  have hcanonical : typedefsTable.canonical ⟨6⟩ = ⟨6⟩ := by decide +kernel
  obtain ⟨hinside, hflat⟩ := Table.flattenType_from_inside hlinks htypedefs
  have hexpanded := hinside use ⟨6⟩ rfl (by decide +kernel)
  rw [hcanonical] at hexpanded
  exact ⟨hlinks, htypedefs, hexpanded, by decide +kernel, by decide +kernel, by decide +kernel, (hflat use).2.2⟩

end NameBinding
