import NameBinding.Proofs.Conversion.Resolved
import NameBinding.Proofs.Inheritance.Distance

/-!
# The ranks of pointer conversions

A pointer to a class converts to a pointer to a base, to a pointer to void and to the boolean type.  What tells
these conversions apart is one number: the length of the shortest chain of bases, or one of two penalties.

* `Table.IsClass` and `Table.PointsTo`: classes, and the unqualified pointers to them.
* `Cost.converted`: the cost of a standard conversion.
* `conversionCost_of_pointer`: the cost of converting a pointer, given the standard conversion that applies.

The main statement is `pointer_conversions_ranked`: the penalties are compared with the distance, so that a base
is better than void exactly if it is nearer than the first penalty.
-/

namespace NameBinding

open Relation

/-- A standard conversion, between these operands and with this detail. -/
def Cost.converted (operands : Cost) (detail : Nat) : Cost := { operands with rank := .conversion, detail }

namespace Descriptor

variable {type source target : Descriptor}

/-- An unqualified pointer is an operand as it stands. -/
theorem conversionOperand_pointer (pointer : type.ops = [{ kind := .pointer }]) :
    type.conversionOperand false =
      { type.stripDefault.stripSpecifiers with constant := none } := by
  obtain ⟨kind, flags, ops, link, args, sort, constant, value⟩ := type
  subst pointer
  rfl

/-- Types that differ in what they are based on are neither the same nor differ in qualifiers only. -/
theorem unequal_of_link (differ : source.link ≠ target.link) :
    source.same target = false ∧ source.qualificationAdjustment target = none := by
  have hbase : source.sameBase target = false := by
    simp [sameBase, differ]
  refine ⟨?_, by rw [qualificationAdjustment, hbase, Bool.and_false]; rfl⟩
  by_contra same
  exact differ (link_of_bare ((same_iff _ _).mp (Bool.eq_true_of_not_eq_false same)))

end Descriptor

namespace Table

variable {table : Table} {id derived base : SymbolId} {source target flat : Descriptor} {operands : Cost}
  {detail : Nat}

/-! ## Classes and pointers to them -/

/-- A class itself, and nothing that stands for one. -/
structure IsClass (table : Table) (id : SymbolId) : Prop where
  isClass : (table.symbol id).type.kind.isClass = true
  named : (table.symbol id).type.isTypedef = false
  itself : table.canonical id = id

theorem IsClass.classOf (isClass : table.IsClass id) : table.classOf id = id := by
  simp [Table.classOf, isClass.itself, isClass.named]

/-- A flat type that is an unqualified pointer to a class. -/
structure FlatPointer (table : Table) (flat : Descriptor) (id : SymbolId) : Prop where
  kind : flat.kind = .named
  ops : flat.ops = [{ kind := .pointer }]
  baseCv : flat.baseCv = {}
  args : flat.templateArgs = []
  link : flat.link = some id

/-- Once typedefs and forward declarations are seen through, the type is an unqualified pointer to the class. -/
def PointsTo (table : Table) (type : Descriptor) (id : SymbolId) : Prop :=
  table.FlatPointer (table.flattenType type) id

/-- The pointer to a class that is written with its name. -/
theorem IsClass.pointsTo (isClass : table.IsClass id) : table.PointsTo (Descriptor.ofSymbol id).pointer id := by
  have hflat : table.flattenType (Descriptor.ofSymbol id).pointer = (Descriptor.ofSymbol id).pointer := by
    simp [flattenType, flattenSteps, Descriptor.ofSymbol, Descriptor.pointer, Descriptor.withOp, isClass.itself,
      isClass.named]
  rw [PointsTo, hflat]
  exact ⟨rfl, rfl, rfl, rfl, rfl⟩

/-! ## Standard conversions -/

/-- The cost of a standard conversion between operands that are no references. -/
theorem rankedCost_of_conversion (value : operands.targetHadReference = false)
    (unequal : operands.source.same operands.target = false)
    (unqualified : operands.source.qualificationAdjustment operands.target = none)
    (pointer : operands.source.hasOps = true)
    (converts : table.standardConversion operands.source operands.target = .ok (some detail)) :
    table.rankedCost operands = .ok (operands.converted detail) := by
  have hbinds : operands.bindsTemporary = true := by
    rw [Cost.bindsTemporary, value]
    rfl
  have hunpromoted : table.isPromotion operands.source operands.target = false := by
    simp [isPromotion, pointer]
  have htemporary : table.temporaryCost? operands = .ok (some (operands.converted detail)) := by
    rw [temporaryCost?, hbinds, hunpromoted, converts]
    rfl
  rw [rankedCost, unequal, unqualified, htemporary]
  rfl

/-- The operand that an unqualified pointer to a class is. -/
theorem FlatPointer.operand (pointer : table.FlatPointer flat id) :
    table.FlatPointer (flat.conversionOperand false) id := by
  rw [Descriptor.conversionOperand_pointer pointer.ops]
  exact ⟨pointer.kind, pointer.ops, pointer.baseCv, pointer.args, pointer.link⟩

namespace FlatPointer

variable (pointer : table.FlatPointer source derived) (isClass : table.IsClass derived)

include pointer

theorem hasOps : source.hasOps = true := by
  rw [Descriptor.hasOps, pointer.ops]
  rfl

/-- A pointer to a class converts to a pointer to a proper base, and the distance counts. -/
theorem converts_base (goal : table.FlatPointer target base) (isClass : table.IsClass derived)
    (baseClass : table.IsClass base) (distance : table.derivedDistance derived base = .ok (some (detail + 1))) :
    table.standardConversion source target = .ok (some (detail + 1)) := by
  have hlinked : ∀ {type : Descriptor} {id : SymbolId}, table.FlatPointer type id → table.IsClass id →
      table.linkedClass? type = some id := by
    intro type id points isClass
    simp [linkedClass?, points.link, isClass.classOf, isClass.isClass]
  have hproper : table.properDistance derived base = .ok (some (detail + 1)) := by
    rw [properDistance, distance]
    rfl
  rw [standardConversion, pointer.hasOps, goal.hasOps, pointer.ops, goal.ops]
  simp only [pointerConversion, pointer.baseCv, goal.baseCv, goal.kind, hlinked pointer isClass,
    hlinked goal baseClass, hproper]
  rfl

/-- A pointer to a class converts to a pointer to void. -/
theorem converts_void :
    table.standardConversion source ((Descriptor.ofKind .void).pointer.conversionOperand false) =
      .ok (some voidPointerDetail) := by
  have hvoid : (Descriptor.ofKind .void).pointer.conversionOperand false = (Descriptor.ofKind .void).pointer := rfl
  rw [hvoid, standardConversion, pointer.hasOps, pointer.ops]
  simp only [pointerConversion, pointer.baseCv, pointer.kind]
  rfl

/-- A pointer converts to the boolean type. -/
theorem converts_bool :
    table.standardConversion source ((Descriptor.ofKind .bool).conversionOperand false) =
      .ok (some booleanDetail) := by
  have hbool : (Descriptor.ofKind .bool).conversionOperand false = .ofKind .bool := rfl
  rw [hbool, standardConversion, pointer.hasOps, pointer.ops]
  rfl

end FlatPointer

end Table

namespace Analysis

variable {table : Table} {derived base : SymbolId} {source target : Descriptor} {detail : Nat}

/-- The cost of a conversion of a pointer to a class that is a standard conversion. -/
theorem conversionCost_of_pointer (limit : table.config.nestingLimit ≠ 0)
    (pointer : table.PointsTo source derived) (goalArgs : (table.flattenType target).templateArgs = [])
    (value : (table.flattenType target).isReference = false)
    (other : ((table.flattenType target).conversionOperand false).link ≠ some derived)
    (converts : table.standardConversion ((table.flattenType source).conversionOperand false)
      ((table.flattenType target).conversionOperand false) = .ok (some detail)) (nested : Bool) :
    conversionCost source target nested table =
      .ok ((Cost.unranked (table.flattenType source) (table.flattenType target)).converted detail) table := by
  have hoperand := Table.FlatPointer.operand pointer
  obtain ⟨hunequal, hunqualified⟩ := Descriptor.unequal_of_link (hoperand.link.trans_ne other.symm)
  have hstandard : table.standardCost (table.flattenType source) (table.flattenType target) =
      .ok ((Cost.unranked (table.flattenType source) (table.flattenType target)).converted detail) := by
    rw [Table.standardCost_eq_rankedCost]
    refine Table.rankedCost_of_conversion value ?_ ?_ ?_ ?_ <;> simp only [Cost.unranked, value]
    · exact hunequal
    · exact hunqualified
    · exact hoperand.hasOps
    · exact converts
  have hnested : nestedCost source target table =
      .ok ((Cost.unranked (table.flattenType source) (table.flattenType target)).converted detail) table := by
    rw [nestedCost, bind_ok (resolveType_plain limit pointer.args), bind_ok (resolveType_plain limit goalArgs)]
    exact ofExcept_eq_ok.mpr ⟨hstandard, rfl⟩
  rw [conversionCost, bind_ok hnested]
  rfl

/-- The same for a type that names nothing. -/
theorem conversionCost_to_unlinked (limit : table.config.nestingLimit ≠ 0)
    (pointer : table.PointsTo source derived) (unlinked : target.link = none)
    (noArgs : target.templateArgs = []) (value : target.isReference = false)
    (operand : (target.conversionOperand false).link = none)
    (converts : table.standardConversion ((table.flattenType source).conversionOperand false)
      (target.conversionOperand false) = .ok (some detail)) (nested : Bool) :
    conversionCost source target nested table =
      .ok ((Cost.unranked (table.flattenType source) target).converted detail) table := by
  have hflat : table.flattenType target = target := Table.flattenSteps_of_unlinked unlinked _
  have hcost := conversionCost_of_pointer limit pointer (by rw [hflat, noArgs]) (by rw [hflat, value])
    (by rw [hflat, operand]; exact nofun) (by rw [hflat]; exact converts) nested
  rwa [hflat] at hcost

end Analysis

/-- Standard conversions are compared by their details. -/
theorem Cost.compare_converted (source target otherSource otherTarget : Descriptor) (m n : Nat) :
    ((Cost.unranked source target).converted m).compare ((Cost.unranked otherSource otherTarget).converted n) =
      Ord.compare m n := by
  rw [Cost.compare]
  change (Ord.compare m n).then .eq = Ord.compare m n
  rw [Ordering.then_eq]

namespace Analysis

/-- An unqualified pointer to a class converts to a pointer to a base that the class derives from, to a pointer
to void, and to the boolean type, at costs that are compared like the length of the shortest chain of bases and
the two penalties.  So void is better than the boolean type, but the base is better than void only if it is
nearer than the penalty says. -/
theorem pointer_conversions_ranked (table : Table) (limit : table.config.nestingLimit ≠ 0)
    (derived base : SymbolId) (derivedClass : table.IsClass derived) (baseClass : table.IsClass base)
    (acyclic : table.AcyclicBases derived) (derives : TransGen table.Derives derived base)
    (source target : Descriptor) (pointer : table.PointsTo source derived) (goal : table.PointsTo target base)
    (nested : Bool) :
    ∃ distance toBase toVoid toBool,
      (0 < distance ∧ table.Climbs base distance derived ∧
        ∀ steps, table.Climbs base steps derived → distance ≤ steps) ∧
      conversionCost source target nested table = .ok toBase table ∧
      conversionCost source (Descriptor.ofKind .void).pointer nested table = .ok toVoid table ∧
      conversionCost source (.ofKind .bool) nested table = .ok toBool table ∧
      toBase.compare toVoid = Ord.compare distance voidPointerDetail ∧
      toBase.compare toBool = Ord.compare distance booleanDetail ∧
      toVoid.compare toBool = .lt := by
  obtain ⟨distance, hdistance, hclimbs, hleast⟩ :=
    acyclic.derivedDistance_ok derivedClass.classOf baseClass.classOf derives
  have hother : ∀ type : Descriptor, type.link = some base → type.link ≠ some derived := by
    intro type linked same
    cases linked.symm.trans same
    exact acyclic _ .refl derives
  have hpointer := Table.FlatPointer.operand pointer
  have hgoal := Table.FlatPointer.operand goal
  refine ⟨distance + 1, _, _, _, ⟨Nat.succ_pos distance, hclimbs, hleast⟩,
    conversionCost_of_pointer limit pointer goal.args (by rw [Descriptor.isReference, goal.ops]; rfl)
      (hother _ hgoal.link) (hpointer.converts_base hgoal derivedClass baseClass hdistance) nested,
    conversionCost_to_unlinked limit pointer rfl rfl rfl rfl hpointer.converts_void nested,
    conversionCost_to_unlinked limit pointer rfl rfl rfl rfl hpointer.converts_bool nested,
    Cost.compare_converted .., Cost.compare_converted .., ?_⟩
  rw [Cost.compare_converted]
  decide

end Analysis

/-! ## A chain of classes -/

/-- A class that derives from the one before it, if this is not the first one. -/
def chainClass (index : Nat) : Symbol where
  name := ⟨17⟩
  type := .ofKind .struct
  payload := .cls
    { parents := if index ≤ 1 then [] else [{ parent := ⟨index - 1⟩, access := .pub, isVirtual := false }] }

/-- The table with the classes 1 to `links + 1`, each of which derives from the one before it. -/
def chainOfClasses (links : Nat) : Table :=
  { Table.new { nestingLimit := 8 } with
    symbols := Array.ofFn fun index : Fin (links + 2) =>
      if index.val = 0 then (Table.new {}).symbol Table.globalScope else chainClass index }

namespace chainOfClasses

variable {links index : Nat} {base : SymbolId}

theorem symbol_eq (first : 0 < index) (last : index ≤ links + 1) :
    (chainOfClasses links).symbol ⟨index⟩ = chainClass index := by
  have hlt : index < links + 2 := Nat.lt_succ_of_le last
  simp [Table.symbol, chainOfClasses, Array.getD, hlt, first.ne']

theorem isClass (first : 0 < index) (last : index ≤ links + 1) : (chainOfClasses links).IsClass ⟨index⟩ := by
  have hsymbol := symbol_eq first last
  refine ⟨by rw [hsymbol]; rfl, by rw [hsymbol]; rfl, Table.canonical_of_nextLink_none ?_⟩
  rw [Table.nextLink, hsymbol]
  rfl

theorem bases_eq (last : index ≤ links + 1) :
    (chainOfClasses links).bases ⟨index⟩ = if index ≤ 1 then [] else [⟨index - 1⟩] := by
  rcases Nat.eq_zero_or_pos index with rfl | first
  · simp [Table.bases, Table.symbol, chainOfClasses, Array.getD, Table.new, Table.globalScope, Symbol.parents,
      Symbol.classData?]
  · rw [Table.bases, symbol_eq first last]
    by_cases hfirst : index ≤ 1
    · simp [chainClass, Symbol.parents, Symbol.classData?, hfirst]
    · have hbefore : (chainOfClasses links).classOf ⟨index - 1⟩ = ⟨index - 1⟩ :=
        (isClass (by omega) (by omega)).classOf
      simp [chainClass, Symbol.parents, Symbol.classData?, hfirst, hbefore]

theorem derives_iff (last : index ≤ links + 1) :
    (chainOfClasses links).Derives ⟨index⟩ base ↔ 1 < index ∧ base = ⟨index - 1⟩ := by
  rw [Table.Derives, bases_eq last]
  by_cases hfirst : index ≤ 1
  · simp [hfirst, Nat.not_lt.mpr hfirst]
  · simp [hfirst, Nat.lt_of_not_le hfirst]

theorem acyclicBases (origin : SymbolId) : (chainOfClasses links).AcyclicBases origin := by
  refine .of_rank SymbolId.index (fun derived base derives => ?_) origin
  have hlast : derived.index ≤ links + 1 := by
    have hlt := derives.lt_size
    simp only [Table.size, chainOfClasses, Array.size_ofFn] at hlt
    exact Nat.le_of_lt_succ hlt
  obtain ⟨hafter, rfl⟩ := (derives_iff hlast).mp derives
  exact Nat.sub_lt (by omega) Nat.one_pos

theorem climbs_iff (last : index ≤ links) {steps : Nat} :
    (chainOfClasses links).Climbs ⟨1⟩ steps ⟨index + 1⟩ ↔ steps = index := by
  have hderives : ∀ {index base}, index ≤ links →
      ((chainOfClasses links).Derives ⟨index + 1⟩ base ↔ 0 < index ∧ base = ⟨index⟩) := fun last => by
    rw [derives_iff (Nat.succ_le_succ last), Nat.lt_add_left_iff_pos, Nat.succ_sub_one]
  constructor
  · intro climbs
    induction steps generalizing index with
    | zero =>
        cases climbs
        rfl
    | succ steps ih =>
        cases climbs with
        | up derives climbs =>
            obtain ⟨hafter, rfl⟩ := (hderives last).mp derives
            obtain ⟨before, rfl⟩ := Nat.exists_eq_add_one.mpr hafter
            rw [ih (Nat.le_of_succ_le last) climbs]
  · rintro rfl
    induction steps with
    | zero => exact .here
    | succ steps ih => exact .up ((hderives last).mpr ⟨Nat.succ_pos steps, rfl⟩) (ih (Nat.le_of_succ_le last))

end chainOfClasses

/-- A chain that is as long as the first penalty, and the pointer to its last class. -/
def farClasses : Table := chainOfClasses voidPointerDetail

def farPointer : Descriptor := (Descriptor.ofSymbol ⟨voidPointerDetail + 1⟩).pointer

/-- A base at this distance is no better than void, though both are better than the boolean type. -/
theorem far_base_as_good_as_void :
    farClasses.config.nestingLimit ≠ 0 ∧ farClasses.IsClass ⟨voidPointerDetail + 1⟩ ∧ farClasses.IsClass ⟨1⟩ ∧
      farClasses.AcyclicBases ⟨voidPointerDetail + 1⟩ ∧
      TransGen farClasses.Derives ⟨voidPointerDetail + 1⟩ ⟨1⟩ ∧
      ∃ toBase toVoid toBool,
        Analysis.conversionCost farPointer (Descriptor.ofSymbol ⟨1⟩).pointer false farClasses =
          .ok toBase farClasses ∧
        Analysis.conversionCost farPointer (Descriptor.ofKind .void).pointer false farClasses =
          .ok toVoid farClasses ∧
        Analysis.conversionCost farPointer (.ofKind .bool) false farClasses = .ok toBool farClasses ∧
        toBase.compare toVoid = .eq ∧ toBase.compare toBool = .lt ∧ toVoid.compare toBool = .lt := by
  have hlimit : farClasses.config.nestingLimit ≠ 0 := by
    change 8 ≠ 0
    decide
  have hderived : farClasses.IsClass ⟨voidPointerDetail + 1⟩ :=
    chainOfClasses.isClass (Nat.succ_pos voidPointerDetail) le_rfl
  have hbase : farClasses.IsClass ⟨1⟩ :=
    chainOfClasses.isClass Nat.one_pos (Nat.succ_le_succ (Nat.zero_le voidPointerDetail))
  have hpositive : voidPointerDetail - 1 + 1 = voidPointerDetail := Nat.sub_add_cancel (by decide)
  have hderives : TransGen farClasses.Derives ⟨voidPointerDetail + 1⟩ ⟨1⟩ :=
    Table.transGen_iff_exists_climbs.mpr ⟨voidPointerDetail - 1, (chainOfClasses.climbs_iff le_rfl).mpr hpositive⟩
  obtain ⟨distance, toBase, toVoid, toBool, ⟨-, hclimbs, -⟩, htoBase, htoVoid, htoBool, hvoid, hbool, hlast⟩ :=
    Analysis.pointer_conversions_ranked farClasses hlimit ⟨voidPointerDetail + 1⟩ ⟨1⟩ hderived hbase
      (chainOfClasses.acyclicBases _) hderives farPointer _ hderived.pointsTo hbase.pointsTo false
  rw [(chainOfClasses.climbs_iff le_rfl).mp hclimbs] at hvoid hbool
  exact ⟨hlimit, hderived, hbase, chainOfClasses.acyclicBases _, hderives, toBase, toVoid, toBool, htoBase,
    htoVoid, htoBool, hvoid.trans (by decide), hbool.trans (by decide), hlast⟩

end NameBinding
