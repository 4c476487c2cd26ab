import Mathlib.Algebra.BigOperators.Fin
import Mathlib.Algebra.Order.BigOperators.Group.Finset
import NameBinding.Lookup.Associated
import NameBinding.Proofs.Inheritance.Acyclic
import NameBinding.Proofs.Lookup.Outcome
import NameBinding.Proofs.Operation.Repetition
import NameBinding.Proofs.Table.ForwardDeclarations
import NameBinding.Proofs.Traversal

/-!
# The classes associated with the arguments of a call

A type names an entity by its link and others by its template arguments, at every depth, and typedefs are seen
through at every step on the way.  Where no typedef mentions itself, the way down ends: each step goes to a smaller
part of a type, or into a typedef that was not passed before.  A class is visited once and leads on to the entities
that its bases and the arguments of its instance name, so it does not matter whether bases run in circles.

* `Table.TypedefMentions`: a typedef is spelled with a declaration, perhaps within template arguments.
* `Table.NestedIn`, `wellFounded_nestedIn`: the way down into template arguments, and that it ends.
* `Table.named_eq`: what a type names, without a bound on the depth.
* `Table.AssociatedWith`: the least set of entities that argument types lead to.

The main statement is `associatedClasses_least`.
-/

namespace NameBinding

open Relation

namespace Descriptor

mutual

/-- The declarations that a type is spelled with, in its template arguments too. -/
def spelledWith : Descriptor → List SymbolId
  | ⟨_, _, _, link, args, _, _, _⟩ => link.toList ++ spelledWithAll args

/-- The declarations that a list of types is spelled with. -/
def spelledWithAll : List Descriptor → List SymbolId
  | [] => []
  | type :: rest => spelledWith type ++ spelledWithAll rest

end

variable {use type arg : Descriptor} {args : List Descriptor} {id : SymbolId}

theorem mem_spelledWithAll : id ∈ spelledWithAll args ↔ ∃ arg ∈ args, id ∈ arg.spelledWith := by
  induction args with
  | nil => simp [spelledWithAll]
  | cons first rest ih => simp [spelledWithAll, ih]

theorem mem_spelledWith :
    id ∈ type.spelledWith ↔ type.link = some id ∨ ∃ arg ∈ type.templateArgs, id ∈ arg.spelledWith := by
  obtain ⟨kind, flags, ops, link, args, sort, constant, value⟩ := type
  simp only [spelledWith, List.mem_append, Option.mem_toList, mem_spelledWithAll]

theorem mem_spelledWith_substituteBase : id ∈ (use.substituteBase type).spelledWith ↔ id ∈ type.spelledWith := by
  rw [mem_spelledWith, mem_spelledWith, link_substituteBase, templateArgs_substituteBase]

theorem weight_le_weightAll (member : arg ∈ args) : arg.weight ≤ weightAll args := by
  induction args with
  | nil => cases member
  | cons first rest ih =>
      rw [weightAll]
      rcases List.mem_cons.mp member with rfl | member
      · omega
      · have := ih member
        omega

theorem weight_eq (type : Descriptor) : type.weight = 1 + weightAll type.templateArgs := by
  obtain ⟨kind, flags, ops, link, args, sort, constant, value⟩ := type
  rw [weight]

/-- A template argument is smaller than its type. -/
theorem weight_lt (member : arg ∈ type.templateArgs) : arg.weight < type.weight := by
  have := weight_le_weightAll member
  have := weight_eq type
  omega

end Descriptor

namespace Table

variable {table : Table} {type arg : Descriptor} {args : List Descriptor} {id x y : SymbolId} {depth depth' : Nat}

/-! ## The way down into template arguments -/

/-- A typedef's type is spelled with a declaration of an entity. -/
def TypedefMentions (table : Table) (id next : SymbolId) : Prop :=
  (table.symbol id).type.isTypedef = true ∧
    ∃ link ∈ (table.symbol id).type.spelledWith, table.canonical link = next

/-- A type is a template argument of another one, once the typedefs of that are seen through. -/
def NestedIn (table : Table) (arg type : Descriptor) : Prop := arg ∈ (table.flattenType type).templateArgs

/-- A type is spelled with a typedef, or with one that is spelled with it, and so on. -/
def SpelledThrough (table : Table) (type : Descriptor) (id : SymbolId) : Prop :=
  (table.symbol id).type.isTypedef = true ∧
    ∃ link ∈ type.spelledWith, ReflTransGen table.TypedefMentions (table.canonical link) id

/-- What a type is spelled through within an argument. -/
theorem SpelledThrough.of_arg (member : arg ∈ type.templateArgs) (through : table.SpelledThrough arg id) :
    table.SpelledThrough type id := by
  obtain ⟨typedef, link, spelled, path⟩ := through
  exact ⟨typedef, link, Descriptor.mem_spelledWith.mpr (.inr ⟨arg, member, spelled⟩), path⟩

/-- What a typedef's type is spelled through, the typedef mentions in the end. -/
theorem SpelledThrough.transGen (typedef : (table.symbol x).type.isTypedef = true)
    (through : table.SpelledThrough (table.symbol x).type y) : TransGen table.TypedefMentions x y := by
  obtain ⟨-, link, spelled, path⟩ := through
  exact TransGen.head' ⟨typedef, link, spelled, rfl⟩ path

/-- What a typedef on the way is spelled through, the type is. -/
theorem SpelledThrough.trans (outer : table.SpelledThrough type x)
    (inner : table.SpelledThrough (table.symbol x).type y) : table.SpelledThrough type y := by
  obtain ⟨typedef, link, spelled, path⟩ := outer
  exact ⟨inner.1, link, spelled, path.trans (inner.transGen typedef).to_reflTransGen⟩

/-- The template arguments of a flattened type are its own, or those of a typedef that it is spelled through. -/
theorem templateArgs_flattenSteps (table : Table) (steps : Nat) (type : Descriptor) :
    (table.flattenSteps steps type).templateArgs = type.templateArgs ∨
      ∃ id, table.SpelledThrough type id ∧
        (table.flattenSteps steps type).templateArgs = (table.symbol id).type.templateArgs := by
  induction steps generalizing type with
  | zero => exact .inl rfl
  | succ steps ih =>
      rw [flattenSteps]
      cases hlink : type.link with
      | none => exact .inl rfl
      | some link =>
          dsimp only
          split
          · exact .inl rfl
          · rename_i notNamed
            split
            · exact .inl rfl
            · -- The typedef takes the place of the base, with its template arguments.
              have htypedef : (table.symbol (table.canonical link)).type.isTypedef = true := by simpa using notNamed
              have hthrough : table.SpelledThrough type (table.canonical link) :=
                ⟨htypedef, link, Descriptor.mem_spelledWith.mpr (.inl hlink), .refl⟩
              right
              rcases ih (type.substituteBase (table.symbol (table.canonical link)).type) with hown | ⟨id, hid, hargs⟩
              · exact ⟨_, hthrough, hown.trans (Descriptor.templateArgs_substituteBase _ _)⟩
              · obtain ⟨hnext, other, hspelled, hpath⟩ := hid
                exact ⟨id, hthrough.trans ⟨hnext, other, Descriptor.mem_spelledWith_substituteBase.mp hspelled, hpath⟩,
                  hargs⟩

open Classical in
/-- The typedefs that a type is spelled through. -/
noncomputable def typedefsThrough (table : Table) (type : Descriptor) : Finset (Fin table.size) :=
  Finset.univ.filter fun index => table.SpelledThrough type ⟨index⟩

theorem mem_typedefsThrough {index : Fin table.size} :
    index ∈ table.typedefsThrough type ↔ table.SpelledThrough type ⟨index⟩ := by
  simp [typedefsThrough]

/-- The number of descriptors in the type of a declaration. -/
def typeWeight (table : Table) (index : Fin table.size) : Nat := (table.symbol ⟨index⟩).type.weight

/-- A bound for the way down from a type: its size, and those of the typedefs that it is spelled through. -/
noncomputable def nestingBound (table : Table) (type : Descriptor) : Nat :=
  type.weight + ∑ index ∈ table.typedefsThrough type, table.typeWeight index

theorem weight_eq_sum (table : Table) : table.weight = ∑ index, table.typeWeight index := by
  have hlist : table.symbols.toList.map (·.type.weight) = List.ofFn table.typeWeight := by
    have hlength : (table.symbols.toList.map (·.type.weight)).length = (List.ofFn table.typeWeight).length := by
      rw [List.length_map, Array.length_toList, List.length_ofFn, size]
    refine List.ext_getElem hlength fun index lt _ => ?_
    have hlt : index < table.symbols.size := by simpa using lt
    simp [typeWeight, symbol, Array.getD, hlt]
  rw [weight, ← Array.foldl_toList, ← List.sum_ofFn, ← hlist, List.sum_eq_foldl, List.foldl_map]

theorem nestingBound_le (table : Table) (type : Descriptor) :
    table.nestingBound type ≤ table.weight + type.weight := by
  have hsum := Finset.sum_le_sum_of_subset (f := table.typeWeight) (Finset.subset_univ (table.typedefsThrough type))
  rw [nestingBound, weight_eq_sum]
  omega

theorem nestingBound_pos (table : Table) (type : Descriptor) : 0 < table.nestingBound type := by
  have := Descriptor.weight_eq type
  rw [nestingBound]
  omega

section Acyclic

variable (typedefs : ∀ id, ¬ TransGen table.TypedefMentions id id)

include typedefs

/-- Every step on the way down lowers the bound. -/
theorem nestingBound_lt (nested : table.NestedIn arg type) : table.nestingBound arg < table.nestingBound type := by
  rw [nestingBound, nestingBound]
  rcases table.templateArgs_flattenSteps (table.size + 1) type with hown | ⟨id, hthrough, hargs⟩
  · -- A part of the type itself, which is smaller.
    have hmember : arg ∈ type.templateArgs := hown ▸ nested
    have hsubset : table.typedefsThrough arg ⊆ table.typedefsThrough type := fun index through =>
      mem_typedefsThrough.mpr ((mem_typedefsThrough.mp through).of_arg hmember)
    exact Nat.add_lt_add_of_lt_of_le (Descriptor.weight_lt hmember) (Finset.sum_le_sum_of_subset hsubset)
  · -- A part of the type of a typedef, which does not come up again.
    have hmember : arg ∈ (table.symbol id).type.templateArgs := hargs ▸ nested
    have hlt : id.index < table.size := lt_size_of_symbol (·.type.isTypedef) rfl hthrough.1
    have hpassed : ⟨id.index, hlt⟩ ∈ table.typedefsThrough type := mem_typedefsThrough.mpr hthrough
    have hsubset : table.typedefsThrough arg ⊆ (table.typedefsThrough type).erase ⟨id.index, hlt⟩ := by
      intro index through
      have hinner := (mem_typedefsThrough.mp through).of_arg hmember
      refine Finset.mem_erase.mpr ⟨?_, mem_typedefsThrough.mpr (hthrough.trans hinner)⟩
      rintro rfl
      exact typedefs id (hinner.transGen hthrough.1)
    calc arg.weight + ∑ index ∈ table.typedefsThrough arg, table.typeWeight index
      _ < table.typeWeight ⟨id.index, hlt⟩ +
            ∑ index ∈ (table.typedefsThrough type).erase ⟨id.index, hlt⟩, table.typeWeight index :=
          Nat.add_lt_add_of_lt_of_le (Descriptor.weight_lt hmember) (Finset.sum_le_sum_of_subset hsubset)
      _ = ∑ index ∈ table.typedefsThrough type, table.typeWeight index := Finset.add_sum_erase _ _ hpassed
      _ ≤ type.weight + ∑ index ∈ table.typedefsThrough type, table.typeWeight index := Nat.le_add_left _ _

/-- The way down into template arguments ends. -/
theorem wellFounded_nestedIn : WellFounded table.NestedIn :=
  Subrelation.wf (nestingBound_lt typedefs) (measure table.nestingBound).wf

/-- No depth that is allowed beyond the bound makes a difference. -/
theorem namedWithin_eq (enough : table.nestingBound type ≤ depth) (enough' : table.nestingBound type ≤ depth') :
    table.namedWithin depth type = table.namedWithin depth' type := by
  have hpos := table.nestingBound_pos type
  induction depth generalizing type depth' with
  | zero => omega
  | succ depth ih =>
      cases depth' with
      | zero => omega
      | succ depth' =>
          have hargs : (table.flattenType type).templateArgs.flatMap (table.namedWithin depth) =
              (table.flattenType type).templateArgs.flatMap (table.namedWithin depth') := by
            refine List.flatMap_congr fun arg nested => ?_
            have hlt := nestingBound_lt typedefs nested
            exact ih (by omega) (by omega) (table.nestingBound_pos arg)
          rw [namedWithin, namedWithin, hargs]

/-- What a type names is what the template arguments of the flattened type name, and the class of its link. -/
theorem named_eq (type : Descriptor) :
    table.named type =
      (table.flattenType type).templateArgs.flatMap table.named ++
        ((table.flattenType type).link.map table.classOf).toList := by
  have hargs : (table.flattenType type).templateArgs.flatMap (table.namedWithin (table.weight + type.weight)) =
      (table.flattenType type).templateArgs.flatMap table.named := by
    refine List.flatMap_congr fun arg nested => ?_
    have hlt := nestingBound_lt typedefs nested
    have hle := table.nestingBound_le type
    have hle' := table.nestingBound_le arg
    exact namedWithin_eq typedefs (by omega) (by omega)
  rw [named, namedWithin, hargs]

end Acyclic

/-! ## What argument types lead to -/

/-- A type names an entity: the class of its link once it is flattened, or what one of its template arguments
names. -/
inductive Names (table : Table) : Descriptor → SymbolId → Prop where
  | link {type : Descriptor} {link : SymbolId} (linked : (table.flattenType type).link = some link) :
      Names table type (table.classOf link)
  | nested {type arg : Descriptor} {id : SymbolId} (nested : table.NestedIn arg type) (names : Names table arg id) :
      Names table type id

/-- The least set that argument types lead to.  A class leads on to what the arguments of its instance and its
bases name. -/
inductive AssociatedWith (table : Table) (args : List Descriptor) : SymbolId → Prop where
  | argument {type : Descriptor} {id : SymbolId} (given : type ∈ args) (names : table.Names type id) :
      AssociatedWith table args id
  | origin {cls id : SymbolId} {use : TemplateUse} {type : Descriptor} (before : AssociatedWith table args cls)
      (isClass : (table.symbol cls).type.kind.isClass = true) (made : (table.symbol cls).origin = some use)
      (given : type ∈ use.args) (names : table.Names type id) : AssociatedWith table args id
  | base {cls id : SymbolId} {link : BaseLink} (before : AssociatedWith table args cls)
      (isClass : (table.symbol cls).type.kind.isClass = true) (listed : link ∈ (table.symbol cls).parents)
      (names : table.Names (.ofSymbol link.parent) id) : AssociatedWith table args id

section Acyclic

variable (typedefs : ∀ id, ¬ TransGen table.TypedefMentions id id)

include typedefs

theorem mem_named : id ∈ table.named type ↔ table.Names type id := by
  induction type using (wellFounded_nestedIn typedefs).induction with
  | _ type ih =>
      rw [named_eq typedefs, List.mem_append, List.mem_flatMap, Option.mem_toList, Option.map_eq_some_iff]
      constructor
      · rintro (⟨arg, nested, inside⟩ | ⟨link, linked, rfl⟩)
        · exact .nested nested ((ih arg nested).mp inside)
        · exact .link linked
      · intro names
        cases names with
        | link linked => exact .inr ⟨_, linked, rfl⟩
        | nested nested names => exact .inl ⟨_, nested, (ih _ nested).mpr names⟩

/-- What a class leads on to. -/
theorem mem_associates :
    x ∈ table.associates id ↔ (table.symbol id).type.kind.isClass = true ∧
      ((∃ use, (table.symbol id).origin = some use ∧ ∃ type ∈ use.args, table.Names type x) ∨
        ∃ link ∈ (table.symbol id).parents, table.Names (.ofSymbol link.parent) x) := by
  rw [associates]
  cases hclass : (table.symbol id).type.kind.isClass with
  | false => simp
  | true =>
      cases horigin : (table.symbol id).origin <;> simp [List.mem_flatMap, mem_named typedefs]

theorem associatedWith_of_reachedWithin
    (reached : ReachedWithin table.associates table.ids (args.flatMap table.named) id) :
    table.AssociatedWith args id := by
  induction reached with
  | start given =>
      obtain ⟨type, given, names⟩ := List.mem_flatMap.mp given
      exact .argument given ((mem_named typedefs).mp names)
  | step _ edge _ before =>
      obtain ⟨isClass, ⟨use, made, type, given, names⟩ | ⟨link, listed, names⟩⟩ := (mem_associates typedefs).mp edge
      · exact .origin before isClass made given names
      · exact .base before isClass listed names

/-- Only symbols of the table are classes, so whatever argument types lead to is reached within the table. -/
theorem reachedWithin_of_associatedWith (associated : table.AssociatedWith args id) (lt : id.index < table.size) :
    ReachedWithin table.associates table.ids (args.flatMap table.named) id := by
  have hclass : ∀ {cls : SymbolId}, (table.symbol cls).type.kind.isClass = true → cls.index < table.size :=
    fun isClass => lt_size_of_symbol (·.type.kind.isClass) rfl isClass
  induction associated with
  | argument given names =>
      exact .start (List.mem_flatMap.mpr ⟨_, given, (mem_named typedefs).mpr names⟩) (mem_ids.mpr lt)
  | origin _ isClass made given names before =>
      exact .step (before (hclass isClass))
        ((mem_associates typedefs).mpr ⟨isClass, .inl ⟨_, made, _, given, names⟩⟩) (mem_ids.mpr lt)
  | base _ isClass listed names before =>
      exact .step (before (hclass isClass))
        ((mem_associates typedefs).mpr ⟨isClass, .inr ⟨_, listed, names⟩⟩) (mem_ids.mpr lt)

end Acyclic

/-- The classes that argument types bring in, where no typedef mentions itself.  The way down into template
arguments ends for every type, so that what a type names needs no bound on the depth.  The classes and
enumerations are listed once each, and they are those of the least set that the arguments lead to. -/
theorem associatedClasses_least (table : Table) (typedefs : ∀ id, ¬ TransGen table.TypedefMentions id id)
    (args : List Descriptor) :
    WellFounded table.NestedIn ∧
      (∀ type, table.named type =
        (table.flattenType type).templateArgs.flatMap table.named ++
          ((table.flattenType type).link.map table.classOf).toList) ∧
      (table.associatedClasses args).Nodup ∧
      ∀ id, id ∈ table.associatedClasses args ↔
        table.AssociatedWith args id ∧ (table.symbol id).type.kind.isClassOrEnum = true := by
  refine ⟨wellFounded_nestedIn typedefs, named_eq typedefs, (nodup_depthFirst table.nodup_ids).filter _, fun id => ?_⟩
  rw [associatedClasses, List.mem_filter, mem_depthFirst]
  refine and_congr_left fun isEntity => ⟨associatedWith_of_reachedWithin typedefs, fun associated => ?_⟩
  exact reachedWithin_of_associatedWith typedefs associated (lt_size_of_symbol (·.type.kind.isClassOrEnum) rfl isEntity)

end Table

open Analysis Table

/-! ## A run -/

/-- A class template 1 with the parameter 2 and the class 3, classes 4 and 5 that derive from each other, an
enumeration 6, a typedef 7 of a pointer to the class 5, an instance 8 of the template for this pointer, and a typedef 9
of a pointer to the template applied to the enumeration. -/
def declareCircle : List Action :=
  declareTemplate 1 ⟨17⟩ (.createClass ⟨17⟩ .struct) ++
    [.perform (.createClass ⟨19⟩ .struct), .perform (.createClass ⟨20⟩ .struct),
      .perform (.addParent ⟨5⟩ ⟨4⟩ .pub false), .perform (.addParent ⟨4⟩ ⟨5⟩ .pub false),
      .perform (.createContainer ⟨21⟩ (.ofKind .enumeration)),
      .perform (.createBasic ⟨22⟩ (Descriptor.ofSymbol ⟨5⟩).pointer.asTypedef),
      .perform (.instantiate ⟨1⟩ [.ofSymbol ⟨7⟩]),
      .perform (.createBasic ⟨23⟩ (Descriptor.templateId ⟨1⟩ [.ofSymbol ⟨6⟩]).pointer.asTypedef)]

/-- The table with these declarations. -/
@[irreducible]
def circleTable : Table := (Table.new { nestingLimit := 3 }).ran declareCircle

/-- The typedefs name older declarations only. -/
theorem typedefs_circleTable (id : SymbolId) : ¬ TransGen circleTable.TypedefMentions id id := by
  have holder : ∀ index : Fin circleTable.size, (circleTable.symbol ⟨index⟩).type.isTypedef = true →
      ∀ link ∈ (circleTable.symbol ⟨index⟩).type.spelledWith, (circleTable.canonical link).index < index := by
    decide +kernel
  refine not_transGen_of_rank SymbolId.index (fun x y mentions => ?_) id
  obtain ⟨typedef, link, spelled, rfl⟩ := mentions
  exact holder ⟨x.index, lt_size_of_symbol (·.type.isTypedef) rfl typedef⟩ typedef link spelled

/-- A reference to the instance brings in both classes of the circle, and the pointer to the template-id brings in the
enumeration.  The class of the template itself is not among them. -/
theorem circular_bases_associated :
    let args := [(Descriptor.ofSymbol ⟨8⟩).reference, .ofSymbol ⟨9⟩]
    (∀ id, ¬ TransGen circleTable.TypedefMentions id id) ∧
      circleTable.Derives ⟨4⟩ ⟨5⟩ ∧ circleTable.Derives ⟨5⟩ ⟨4⟩ ∧
      WellFounded circleTable.NestedIn ∧
      circleTable.associatedClasses args = [⟨8⟩, ⟨5⟩, ⟨4⟩, ⟨6⟩] ∧
      circleTable.AssociatedWith args ⟨4⟩ ∧ circleTable.AssociatedWith args ⟨6⟩ ∧
      ¬ circleTable.AssociatedWith args ⟨3⟩ := by
  intro args
  obtain ⟨hends, -, -, hlisted⟩ := associatedClasses_least circleTable typedefs_circleTable args
  have hclasses : circleTable.associatedClasses args = [⟨8⟩, ⟨5⟩, ⟨4⟩, ⟨6⟩] := by
    rw [circleTable]
    cbv
  rw [hclasses] at hlisted
  refine ⟨typedefs_circleTable, ?_, ?_, hends, hclasses, ((hlisted _).mp (by decide)).1,
    ((hlisted _).mp (by decide)).1, fun associated => ?_⟩
  · show _ ∈ circleTable.bases ⟨4⟩
    decide +kernel
  · show _ ∈ circleTable.bases ⟨5⟩
    decide +kernel
  · exact absurd ((hlisted ⟨3⟩).mpr ⟨associated, by decide +kernel⟩) (by decide)

end NameBinding
