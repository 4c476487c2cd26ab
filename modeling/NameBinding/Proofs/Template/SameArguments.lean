import NameBinding.Proofs.Table.Signatures
import NameBinding.Template.Resolution

/-!
# Arguments that are the same

Template arguments are compared without their default values.  Nothing that is asked about an argument on
the way to its instance depends on default values either.

* `Descriptor.bare_congr_*`: what two types that are equal without default values have in common.
* `Table.bare_flattenType`, `isDependent_bare`, `fitsParameter_bare`: what a table says about them.
* `Bindings.bare`: bindings without default values; `bare_substituteParameters` says that a default argument
  comes out the same under them.
-/

namespace NameBinding

namespace Descriptor

variable {a b : Descriptor}

theorem bareAll_eq_map (types : List Descriptor) : bareAll types = types.map bare := by
  induction types with
  | nil => rfl
  | cons type rest ih => rw [bareAll, ih, List.map_cons]

/-- Two types are equal without default values if all their other parts are. -/
theorem bare_eq_iff (a b : Descriptor) :
    a.bare = b.bare ↔ a.kind = b.kind ∧ a.flags = b.flags ∧ a.ops = b.ops ∧ a.link = b.link ∧
      bareAll a.templateArgs = bareAll b.templateArgs ∧ a.parameterKind = b.parameterKind ∧
      a.constant = b.constant := by
  obtain ⟨kind, flags, ops, link, args, sort, constant, value⟩ := a
  obtain ⟨kind', flags', ops', link', args', sort', constant', value'⟩ := b
  simp [bare]

theorem bare_stripDefault (type : Descriptor) : type.stripDefault.bare = type.bare := by
  rw [bare_eq_iff]
  exact ⟨rfl, rfl, rfl, rfl, rfl, rfl, rfl⟩

theorem link_of_bare (same : a.bare = b.bare) : a.link = b.link := ((bare_eq_iff a b).mp same).2.2.2.1

theorem bareAll_args_of_bare (same : a.bare = b.bare) :
    bareAll a.templateArgs = bareAll b.templateArgs :=
  ((bare_eq_iff a b).mp same).2.2.2.2.1

theorem length_of_bareAll {as bs : List Descriptor} (same : bareAll as = bareAll bs) :
    as.length = bs.length := by
  rw [bareAll_eq_map, bareAll_eq_map] at same
  simpa using congrArg List.length same

theorem args_isEmpty_of_bare (same : a.bare = b.bare) :
    a.templateArgs.isEmpty = b.templateArgs.isEmpty := by
  have hlength := length_of_bareAll (bareAll_args_of_bare same)
  rw [Bool.eq_iff_iff, List.isEmpty_iff_length_eq_zero, List.isEmpty_iff_length_eq_zero, hlength]

theorem isValid_of_bare (same : a.bare = b.bare) : a.isValid = b.isValid := by
  obtain ⟨hkind, -, -, hlink, -, hsort, -⟩ := (bare_eq_iff a b).mp same
  unfold isValid
  rw [hkind, hlink, hsort]

theorem all_isValid_of_bareAll {as bs : List Descriptor} (same : bareAll as = bareAll bs) :
    as.all (·.isValid) = bs.all (·.isValid) := by
  induction as generalizing bs with
  | nil =>
      obtain rfl : bs = [] := by simpa using (length_of_bareAll same).symm
      rfl
  | cons a as ih =>
      cases bs with
      | nil => simp [bareAll] at same
      | cons b bs =>
          simp only [bareAll, List.cons.injEq] at same
          simp only [List.all_cons, isValid_of_bare same.1, ih same.2]

/-- The base may be replaced by any of two types that are the same. -/
theorem bare_substituteBase {c d : Descriptor} (same : a.bare = b.bare) (base : c.bare = d.bare) :
    (a.substituteBase c).bare = (b.substituteBase d).bare := by
  obtain ⟨-, hflags, hops, -⟩ := (bare_eq_iff a b).mp same
  obtain ⟨hkind, hbaseFlags, hbaseOps, hlink, hargs, hsort, hconstant⟩ := (bare_eq_iff c d).mp base
  obtain ⟨kind, flags, ops, link, args, sort, constant, value⟩ := c
  obtain ⟨kind', flags', ops', link', args', sort', constant', value'⟩ := d
  simp only at hkind hbaseFlags hbaseOps hlink hargs hsort hconstant
  subst hkind hbaseFlags hbaseOps hlink hsort hconstant
  rw [bare_eq_iff]
  have hcv : a.baseCv = b.baseCv := congrArg (·.cv) hflags
  cases ops with
  | nil => simp [substituteBase, withTopCv, setTopCv, setBaseCv, topCv, baseCv, hflags, hops, hargs]
  | cons op rest => simp [substituteBase, withTopCv, setTopCv, topCv, hcv, hflags, hops, hargs]

theorem sameAll_of_bareAll {args again : List Descriptor} (same : bareAll again = bareAll args)
    (key : List Descriptor) : sameAll key again = sameAll key args := by
  rw [Bool.eq_iff_iff, sameAll_iff, sameAll_iff, same]

end Descriptor

namespace Table

open Descriptor

variable (table : Table) {a b : Descriptor}

/-! ## What a table says about an argument -/

theorem bare_flattenSteps (steps : Nat) (same : a.bare = b.bare) :
    (table.flattenSteps steps a).bare = (table.flattenSteps steps b).bare := by
  induction steps generalizing a b with
  | zero => exact same
  | succ steps ih =>
      have hlink := link_of_bare same
      simp only [flattenSteps, hlink]
      cases b.link with
      | none => exact same
      | some link =>
          dsimp only
          split
          · obtain ⟨hkind, hflags, hops, -, hargs, hsort, hconstant⟩ := (bare_eq_iff a b).mp same
            rw [bare_eq_iff]
            exact ⟨hkind, hflags, hops, rfl, hargs, hsort, hconstant⟩
          · split
            · exact same
            · exact ih (bare_substituteBase same rfl)

theorem bare_flattenType (same : a.bare = b.bare) :
    (table.flattenType a).bare = (table.flattenType b).bare :=
  table.bare_flattenSteps _ same

mutual

theorem isDependent_bare : ∀ type : Descriptor, table.isDependent type.bare = table.isDependent type
  | ⟨kind, flags, ops, link, args, sort, constant, value⟩ => by
      simp only [bare, isDependent, anyDependent_bareAll args]

theorem anyDependent_bareAll :
    ∀ types : List Descriptor, table.anyDependent (bareAll types) = table.anyDependent types
  | [] => rfl
  | type :: rest => by
      simp only [bareAll, anyDependent, isDependent_bare type, anyDependent_bareAll rest]

end

theorem isDependent_of_bare (same : a.bare = b.bare) : table.isDependent a = table.isDependent b := by
  rw [← table.isDependent_bare a, same, table.isDependent_bare]

theorem anyDependent_of_bareAll {as bs : List Descriptor} (same : bareAll as = bareAll bs) :
    table.anyDependent as = table.anyDependent bs := by
  rw [← table.anyDependent_bareAll as, same, table.anyDependent_bareAll]

theorem argumentSort_of_bare (same : a.bare = b.bare) :
    table.argumentSort a = table.argumentSort b := by
  have hempty := args_isEmpty_of_bare same
  obtain ⟨-, -, hops, hlink, -, -, hconstant⟩ := (bare_eq_iff a b).mp same
  unfold argumentSort hasOps
  rw [hops, hlink, hconstant, hempty]

theorem fitsParameter_of_bare (parameter : SymbolId) (same : a.bare = b.bare) :
    table.fitsParameter parameter a = table.fitsParameter parameter b := by
  have hdependent := table.isDependent_of_bare same
  have hsort := table.argumentSort_of_bare same
  obtain ⟨hkind, -, -, hlink, -, -, hconstant⟩ := (bare_eq_iff a b).mp same
  unfold fitsParameter
  rw [hsort, hdependent, hkind, hlink, hconstant]

theorem existingInstance?_of_bareAll (template : SymbolId) {args again : List Descriptor}
    (same : bareAll again = bareAll args) :
    table.existingInstance? template again = table.existingInstance? template args := by
  simp only [existingInstance?, sameAll_of_bareAll same]

end Table

/-! ## Default arguments -/

/-- Bindings without default values. -/
def Bindings.bare (bindings : Bindings) : Bindings :=
  bindings.map fun pair => (pair.1, pair.2.bare)

theorem Bindings.bare_cons (id : SymbolId) (type : Descriptor) (bindings : Bindings) :
    Bindings.bare ((id, type) :: bindings) = (id, type.bare) :: bindings.bare :=
  rfl

theorem Bindings.lookup_bare (bindings : Bindings) (id : SymbolId) :
    bindings.bare.lookup id = (bindings.lookup id).map Descriptor.bare := by
  induction bindings with
  | nil => rfl
  | cons pair rest ih =>
      obtain ⟨key, type⟩ := pair
      simp only [bare, List.map_cons, List.lookup_cons]
      split
      · rfl
      · exact ih

/-- A parameter is bound to the same type. -/
theorem Bindings.lookup_of_bare {bindings again : Bindings} (same : again.bare = bindings.bare)
    (id : SymbolId) :
    (again.lookup id).map Descriptor.bare = (bindings.lookup id).map Descriptor.bare := by
  rw [← lookup_bare, same, lookup_bare]

/-- A default argument comes out the same, whichever default values the arguments before it have. -/
theorem Table.bare_substituteParameters (table : Table) {bindings again : Bindings}
    (same : again.bare = bindings.bare) (depth : Nat) (type : Descriptor) :
    (table.substituteParameters again depth type).bare =
      (table.substituteParameters bindings depth type).bare := by
  induction depth generalizing type with
  | zero => rfl
  | succ depth ih =>
      have hargs : ∀ args : List Descriptor,
          Descriptor.bareAll (args.map (table.substituteParameters again depth)) =
            Descriptor.bareAll (args.map (table.substituteParameters bindings depth)) := by
        intro args
        simp [Descriptor.bareAll_eq_map, ih]
      -- The template of a use is found by the link of what its parameter is bound to.
      have hhead : ∀ id, ((again.lookup id).bind (·.link)) = ((bindings.lookup id).bind (·.link)) := by
        intro id
        have hlookup := Bindings.lookup_of_bare same id
        cases hagain : again.lookup id <;> cases hfirst : bindings.lookup id <;>
          simp only [hagain, hfirst, Option.map_none, Option.map_some, reduceCtorEq,
            Option.some.injEq] at hlookup ⊢
        exact Descriptor.link_of_bare hlookup
      have huse : ∀ use : TemplateUse,
          ({ type with
            link := some (((again.lookup use.template).bind (·.link)).getD use.template)
            templateArgs := use.args.map (table.substituteParameters again depth) } : Descriptor).bare =
          ({ type with
            link := some (((bindings.lookup use.template).bind (·.link)).getD use.template)
            templateArgs := use.args.map (table.substituteParameters bindings depth) } :
              Descriptor).bare := by
        intro use
        rw [Descriptor.bare_eq_iff]
        exact ⟨rfl, rfl, rfl, congrArg (fun head => some (head.getD use.template)) (hhead use.template),
          hargs use.args, rfl, rfl⟩
      simp only [substituteParameters]
      cases type.link with
      | none => rfl
      | some link =>
          have hlookup := Bindings.lookup_of_bare same link
          dsimp only
          cases hagain : again.lookup link with
          | none =>
              cases hfirst : bindings.lookup link with
              | none => exact huse _
              | some replacement => simp [hagain, hfirst] at hlookup
          | some replacement =>
              cases hfirst : bindings.lookup link with
              | none => simp [hagain, hfirst] at hlookup
              | some base =>
                  cases htype : type.templateArgs with
                  | nil =>
                      have hbase : replacement.bare = base.bare := by
                        simpa [hagain, hfirst] using hlookup
                      exact Descriptor.bare_substituteBase rfl hbase
                  | cons arg rest => exact huse _

end NameBinding
