import NameBinding.Proofs.Operation.Repetition

/-!
# Spellings of parameter lists

Two functions declare the same parameters if the types of their parameters agree once typedefs are seen through.
So it does not matter which typedefs a type is spelled with, as far as typedefs are seen through: at the base of
a type and behind it, whatever the operators of the typedef, but not in the arguments of a template-id, and not
where a lone parameter is found to be void.

* `Descriptor.bareType`: a type without what does not belong to it.
* `Table.namedTypedef?`: the type that the typedef of a type stands for.
* `Table.Respelled`: types that are spelled with different typedefs.
* `flattenType_expanded` and `Respelled.flattenType`: they are the same with typedefs seen through.

The main statement is `same_parameters_respelled`.
-/

namespace NameBinding

namespace Descriptor

variable {a b : Descriptor}

/-- The type without specifiers and default values, which are no part of it. -/
def bareType (type : Descriptor) : Descriptor := type.stripSpecifiers.bare

theorem bareType_eq_iff :
    a.bareType = b.bareType ↔ a.kind = b.kind ∧ (a.baseCv = b.baseCv ∧ a.flags.sizeSign = b.flags.sizeSign) ∧
      a.ops = b.ops ∧ a.link = b.link ∧ bareAll a.templateArgs = bareAll b.templateArgs ∧
      a.parameterKind = b.parameterKind ∧ a.constant = b.constant := by
  rw [bareType, bareType, bare_eq_iff]
  simp [stripSpecifiers, baseCv]

/-- Of a use, only the operators and the qualifiers matter for what replaces its base. -/
theorem bareType_substituteBase (same : a.bareType = b.bareType) (replacement : Descriptor) :
    (a.substituteBase replacement).bareType = (b.substituteBase replacement).bareType := by
  obtain ⟨-, ⟨hcv, -⟩, hops, -⟩ := bareType_eq_iff.mp same
  rw [substituteBase, substituteBase, hcv, hops, bareType_eq_iff]
  exact ⟨rfl, ⟨rfl, rfl⟩, rfl, rfl, rfl, rfl, rfl⟩

theorem bareType_decay (same : a.bareType = b.bareType) : a.decay.bareType = b.decay.bareType := by
  rw [bareType_eq_iff] at same ⊢
  obtain ⟨kind, flags, ops, link, args, sort, constant, value⟩ := a
  obtain ⟨kind', flags', ops', link', args', sort', constant', value'⟩ := b
  obtain ⟨rfl, hflags, rfl, rfl, hargs, rfl, rfl⟩ := same
  unfold decay
  cases ops with
  | nil => dsimp only; split <;> exact ⟨rfl, hflags, rfl, rfl, hargs, rfl, rfl⟩
  | cons op rest => dsimp only; split <;> exact ⟨rfl, hflags, rfl, rfl, hargs, rfl, rfl⟩

theorem bareType_stripTopCv (same : a.bareType = b.bareType) :
    a.stripTopCv.bareType = b.stripTopCv.bareType := by
  rw [bareType_eq_iff] at same ⊢
  obtain ⟨kind, flags, ops, link, args, sort, constant, value⟩ := a
  obtain ⟨kind', flags', ops', link', args', sort', constant', value'⟩ := b
  obtain ⟨rfl, hflags, rfl, rfl, hargs, rfl, rfl⟩ := same
  cases ops with
  | nil => exact ⟨rfl, ⟨rfl, hflags.2⟩, rfl, rfl, hargs, rfl, rfl⟩
  | cons op rest => exact ⟨rfl, hflags, rfl, rfl, hargs, rfl, rfl⟩

/-- Both types decay, or neither does. -/
theorem bareType_adjusted (same : a.bareType = b.bareType) (decays : Bool) :
    (if decays then a.decay else a.stripTopCv).bareType =
      (if decays then b.decay else b.stripTopCv).bareType := by
  cases decays with
  | true => exact bareType_decay same
  | false => exact bareType_stripTopCv same

end Descriptor

namespace Table

open Descriptor

variable {table : Table} {type a b : Descriptor} {link id x y : SymbolId} {steps bound bound' : Nat}

/-! ## Seeing through typedefs -/

/-- Specifiers and default values do not stand in the way of seeing through typedefs. -/
theorem bareType_flattenSteps (steps : Nat) (same : a.bareType = b.bareType) :
    (table.flattenSteps steps a).bareType = (table.flattenSteps steps b).bareType := by
  induction steps generalizing a b with
  | zero => exact same
  | succ steps ih =>
      have hparts := bareType_eq_iff.mp same
      have hlink := hparts.2.2.2.1
      simp only [flattenSteps, hlink]
      cases b.link with
      | none => exact same
      | some link =>
          dsimp only
          split
          · obtain ⟨hkind, hflags, hops, -, hargs, hsort, hconstant⟩ := hparts
            exact bareType_eq_iff.mpr ⟨hkind, hflags, hops, rfl, hargs, hsort, hconstant⟩
          · split
            · exact same
            · exact ih (bareType_substituteBase same _)

/-- The type that the typedef of a type stands for, unless it is no typedef or stands for itself. -/
def namedTypedef? (table : Table) (type : Descriptor) : Option Descriptor :=
  type.link.bind fun link =>
    let target := table.canonical link
    let aliased := (table.symbol target).type
    if aliased.isTypedef && aliased.link != some target then some aliased else none

/-- A typedef may be replaced by what it stands for. -/
theorem flattenType_expanded (typedefs : table.TypedefsEnd) (named : table.namedTypedef? type = some a) :
    table.flattenType (type.substituteBase a) = table.flattenType type := by
  obtain ⟨link, hlink, named⟩ := Option.bind_eq_some_iff.mp named
  dsimp only at named
  split at named
  · rename_i htypedef
    simp only [Bool.and_eq_true, bne_iff_ne, ne_eq] at htypedef
    cases named
    -- The use of the typedef takes one step more, and both are allowed enough of them.
    have hsteps : table.flattenType type =
        table.flattenSteps table.size (type.substituteBase (table.symbol (table.canonical link)).type) := by
      rw [flattenType, flattenSteps, hlink]
      simp [htypedef.1, htypedef.2]
    rw [hsteps, flattenType]
    cases hnext : (table.symbol (table.canonical link)).type.link with
    | none =>
        rw [flattenSteps_of_unlinked, flattenSteps_of_unlinked]
        · rw [link_substituteBase, hnext]
        · rw [link_substituteBase, hnext]
    | some next =>
        obtain ⟨steps, chain⟩ := typedefs link
          (lt_size_of_symbol_canonical (·.type.isTypedef) rfl htypedef.1)
        have hfewer := chain.steps_le
        have hdiffers : next ≠ table.canonical link := fun same => htypedef.2 (same ▸ hnext)
        cases chain with
        | last ends => simp [nextTypedef?, htypedef.1, hnext, hdiffers] at ends
        | @next steps _ other named rest =>
            obtain rfl : other = next := by simpa [nextTypedef?_eq_some named] using hnext
            exact rest.flattenSteps_eq ((Descriptor.link_substituteBase _ _).trans hnext) (by omega) (by omega)
  · cases named

/-- The two types differ in the typedefs that their bases are spelled with, if at all, and in what does not
belong to a type. -/
inductive Respelled (table : Table) : Descriptor → Descriptor → Prop
  | written {a b : Descriptor} (same : a.stripSpecifiers.same b.stripSpecifiers = true) : Respelled table a b
  | expanded {type aliased : Descriptor} (named : table.namedTypedef? type = some aliased) :
      Respelled table type (type.substituteBase aliased)
  | symm {a b : Descriptor} (other : Respelled table a b) : Respelled table b a
  | trans {a b c : Descriptor} (first : Respelled table a b) (second : Respelled table b c) :
      Respelled table a c

/-- Types that are spelled with different typedefs are the same with typedefs seen through. -/
theorem Respelled.flattenType (typedefs : table.TypedefsEnd) (respelled : table.Respelled a b) :
    (table.flattenType a).bareType = (table.flattenType b).bareType := by
  induction respelled with
  | written same => exact bareType_flattenSteps _ ((same_iff _ _).mp same)
  | expanded named => rw [flattenType_expanded typedefs named]
  | symm _ ih => exact ih.symm
  | trans _ _ first second => exact first.trans second

/-- Is the second type written for the first one with its typedef replaced? -/
def expandsTo (table : Table) (type other : Descriptor) : Bool :=
  (table.namedTypedef? type).any fun aliased =>
    (type.substituteBase aliased).stripSpecifiers.same other.stripSpecifiers

theorem Respelled.of_expandsTo (expands : table.expandsTo a b = true) : table.Respelled a b := by
  obtain ⟨aliased, hnamed, hsame⟩ := (Option.any_eq_true _ _).mp expands
  exact .trans (.expanded hnamed) (.written hsame)

/-! ## Parameter lists -/

theorem adjustedParameter_same (same : (table.flattenType a).bareType = (table.flattenType b).bareType) :
    (table.adjustedParameter a).same (table.adjustedParameter b) = true := by
  rw [same_iff, adjustedParameter, adjustedParameter, bare_stripDefault, bare_stripDefault]
  obtain ⟨hkind, -, hops, -⟩ := bareType_eq_iff.mp same
  rw [hkind, hops]
  exact bareType_adjusted same _

/-- Is void written for the only parameter of the function? -/
def takesVoid (table : Table) (function : SymbolId) : Bool :=
  match (table.symbol function).parameters with
  | [only] => (table.symbol only).type.isPlainVoid
  | _ => false

theorem signature_eq (table : Table) (function : SymbolId) :
    table.signature function =
      if table.takesVoid function then []
      else (table.symbol function).parameters.map fun parameter =>
        table.adjustedParameter (table.symbol parameter).type := by
  rcases hparameters : (table.symbol function).parameters with - | ⟨first, - | ⟨second, rest⟩⟩ <;>
    simp [signature, takesVoid, hparameters]

theorem length_of_takesVoid (void : table.takesVoid id = true) :
    (table.symbol id).parameters.length = 1 := by
  unfold takesVoid at void
  split at void
  · rename_i only honly
    rw [honly, List.length_singleton]
  · cases void

/-- The parameters of the two functions are spelled with different typedefs at most. -/
def ParametersRespelled (table : Table) (a b : SymbolId) : Prop :=
  List.Forall₂ (fun x y => table.Respelled (table.symbol x).type (table.symbol y).type)
    (table.symbol a).parameters (table.symbol b).parameters

/-- The adjusted types of the parameters are the same. -/
theorem ParametersRespelled.sameAll (typedefs : table.TypedefsEnd) (respelled : table.ParametersRespelled x y) :
    sameAll ((table.symbol x).parameters.map fun parameter =>
        table.adjustedParameter (table.symbol parameter).type)
      ((table.symbol y).parameters.map fun parameter =>
        table.adjustedParameter (table.symbol parameter).type) = true := by
  unfold ParametersRespelled at respelled
  generalize (table.symbol x).parameters = ours at respelled ⊢
  generalize (table.symbol y).parameters = theirs at respelled ⊢
  induction respelled with
  | nil => rfl
  | cons first _ ih =>
      simp only [List.map_cons, Descriptor.sameAll, Bool.and_eq_true]
      exact ⟨adjustedParameter_same (first.flattenType typedefs), ih⟩

/-- Functions whose parameters are spelled with different typedefs, but have the same qualifiers and ellipses,
declare the same parameters, unless void is written for a lone parameter of one of them and a typedef for that
of the other. -/
theorem same_parameters_respelled (typedefs : table.TypedefsEnd)
    (cv : (table.symbol (table.canonical x)).type.baseCv = (table.symbol (table.canonical y)).type.baseCv)
    (varargs : (table.symbol (table.canonical x)).varargs = (table.symbol (table.canonical y)).varargs)
    (respelled : table.ParametersRespelled (table.canonical x) (table.canonical y)) :
    table.hasSameParameters x y = true ↔
      table.canonical x = table.canonical y ∨
        table.takesVoid (table.canonical x) = table.takesVoid (table.canonical y) := by
  have hsignatures : sameAll (table.signature (table.canonical x)) (table.signature (table.canonical y)) =
      (table.takesVoid (table.canonical x) == table.takesVoid (table.canonical y)) := by
    have hlength : (table.symbol (table.canonical x)).parameters.length =
      (table.symbol (table.canonical y)).parameters.length := respelled.length_eq
    rw [signature_eq, signature_eq]
    cases hx : table.takesVoid (table.canonical x) <;> cases hy : table.takesVoid (table.canonical y)
    case false.false => exact respelled.sameAll typedefs
    case true.true => rfl
    case false.true =>
      obtain ⟨only, honly⟩ := List.length_eq_one_iff.mp (hlength.trans (length_of_takesVoid hy))
      rw [honly]
      rfl
    case true.false =>
      obtain ⟨only, honly⟩ := List.length_eq_one_iff.mp (hlength.symm.trans (length_of_takesVoid hx))
      rw [honly]
      rfl
  unfold hasSameParameters
  simp [cv, varargs, hsignatures]

end Table

open Analysis

/-- Typedefs of int (1), of an array of that (2) and of void (3).  The functions 4 and 7 take a pointer to int
and an array of int, spelled with and without typedefs, and the functions 10 and 12 take void. -/
def declareRespelled : List Action :=
  [.perform (.createBasic ⟨17⟩ (Descriptor.ofKind .int).asTypedef),
    .perform (.createBasic ⟨18⟩ (Descriptor.ofSymbol ⟨1⟩).array.asTypedef),
    .perform (.createBasic ⟨19⟩ (Descriptor.ofKind .void).asTypedef),
    .perform (.createFunction ⟨20⟩ .function),
    .perform (.addParameterType ⟨4⟩ (Descriptor.ofSymbol ⟨1⟩).pointer),
    .perform (.addParameterType ⟨4⟩ (.ofSymbol ⟨2⟩)),
    .perform (.createFunction ⟨20⟩ .function),
    .perform (.addParameterType ⟨7⟩ (Descriptor.ofKind .int).pointer),
    .perform (.addParameterType ⟨7⟩ (Descriptor.ofKind .int).array),
    .perform (.createFunction ⟨20⟩ .function), .perform (.addParameterType ⟨10⟩ (.ofKind .void)),
    .perform (.createFunction ⟨20⟩ .function), .perform (.addParameterType ⟨12⟩ (.ofSymbol ⟨3⟩))]

/-- The table with these declarations. -/
@[irreducible]
def respelledTable : Table := (Table.new {}).ran declareRespelled

/-- Only the functions that take void are told apart by the typedef. -/
theorem respelled_functions_compared :
    respelledTable.TypedefsEnd ∧ respelledTable.ParametersRespelled ⟨4⟩ ⟨7⟩ ∧
      respelledTable.hasSameParameters ⟨4⟩ ⟨7⟩ = true ∧
      respelledTable.ParametersRespelled ⟨10⟩ ⟨12⟩ ∧ respelledTable.hasSameParameters ⟨10⟩ ⟨12⟩ = false := by
  have htypedefs : respelledTable.TypedefsEnd := by decide +kernel
  have hcanonical : respelledTable.canonical ⟨4⟩ = ⟨4⟩ ∧ respelledTable.canonical ⟨7⟩ = ⟨7⟩ ∧
      respelledTable.canonical ⟨10⟩ = ⟨10⟩ ∧ respelledTable.canonical ⟨12⟩ = ⟨12⟩ := by decide +kernel
  have hparameters : (respelledTable.symbol ⟨4⟩).parameters = [⟨5⟩, ⟨6⟩] ∧
      (respelledTable.symbol ⟨7⟩).parameters = [⟨8⟩, ⟨9⟩] ∧ (respelledTable.symbol ⟨10⟩).parameters = [⟨11⟩] ∧
        (respelledTable.symbol ⟨12⟩).parameters = [⟨13⟩] := by decide +kernel
  have hpointer : respelledTable.expandsTo (respelledTable.symbol ⟨5⟩).type (respelledTable.symbol ⟨8⟩).type =
      true := by decide +kernel
  have harray : respelledTable.expandsTo (respelledTable.symbol ⟨6⟩).type (Descriptor.ofSymbol ⟨1⟩).array =
        true ∧
      respelledTable.expandsTo (Descriptor.ofSymbol ⟨1⟩).array (respelledTable.symbol ⟨9⟩).type = true := by
    decide +kernel
  have hvoid : respelledTable.expandsTo (respelledTable.symbol ⟨13⟩).type (respelledTable.symbol ⟨11⟩).type =
      true := by decide +kernel
  obtain ⟨hfour, hseven, hten, htwelve⟩ := hcanonical
  have hfirst : respelledTable.ParametersRespelled ⟨4⟩ ⟨7⟩ := by
    rw [Table.ParametersRespelled, hparameters.1, hparameters.2.1]
    exact .cons (.of_expandsTo hpointer)
      (.cons (.trans (.of_expandsTo harray.1) (.of_expandsTo harray.2)) .nil)
  have hsecond : respelledTable.ParametersRespelled ⟨10⟩ ⟨12⟩ := by
    rw [Table.ParametersRespelled, hparameters.2.2.1, hparameters.2.2.2]
    exact .cons (.symm (.of_expandsTo hvoid)) .nil
  have hsame := Table.same_parameters_respelled (x := ⟨4⟩) (y := ⟨7⟩) htypedefs (by decide +kernel)
    (by decide +kernel) (by rwa [hfour, hseven])
  have hdiffers := Table.same_parameters_respelled (x := ⟨10⟩) (y := ⟨12⟩) htypedefs (by decide +kernel)
    (by decide +kernel) (by rwa [hten, htwelve])
  refine ⟨htypedefs, hfirst, hsame.mpr (.inr (by decide +kernel)), hsecond, ?_⟩
  rw [Bool.eq_false_iff, Ne, hdiffers]
  decide +kernel

end NameBinding
