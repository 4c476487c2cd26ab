import NameBinding.Proofs.Inheritance.Ways
import NameBinding.Proofs.Lookup.Outward

/-!
# Ambiguous members and ambiguous access

A qualified lookup finds a member of a base class ambiguous if two base subobjects have it, unless it is the
same in all of them.  Its access is ambiguous if several ways lead up to its class, unless the access is the
best one among them.  Each subobject is reached along some way, and ways without a virtual link lead to
subobjects of their own, so that the two mostly agree.

* `Table.IsSubobject`: the base subobjects of a class, and `exists_way_iff`, by which ways lead to these.
* `Table.SoleMember`: a member is the only declaration of its name in a class and its bases.
* `visibility_ambiguous_iff` and `lookup_ambiguous_iff`: both answers in terms of ways.

The main statement is `lookup_and_access_agree`.
-/

namespace NameBinding

open Relation

namespace Table

variable {table : Table} {query : Query} {owner origin id member : SymbolId} {sub : Subobject}

/-! ## Base subobjects -/

/-- A subobject of `origin` is of the class `id`. -/
def IsSubobject (table : Table) (origin : SymbolId) (sub : Subobject) (id : SymbolId) : Prop :=
  Exposed table.classBases (fun _ => []) origin sub id

/-- Nothing but classes has bases at and above `origin`. -/
def ClassesHaveBases (table : Table) (origin : SymbolId) : Prop :=
  ∀ id, ReflTransGen table.Derives origin id → (table.symbol id).parents ≠ [] →
    (table.symbol id).type.kind.isClass = true

/-- Whether only classes have bases is seen from the symbols of the table. -/
theorem ClassesHaveBases.of_size
    (classes : ∀ index < table.size, (table.symbol ⟨index⟩).parents ≠ [] →
      (table.symbol ⟨index⟩).type.kind.isClass = true) (origin : SymbolId) :
    table.ClassesHaveBases origin := by
  intro id _ hasBases
  obtain ⟨link, hlink⟩ := List.exists_mem_of_ne_nil _ hasBases
  have hderives : table.Derives id (table.classOf link.parent) := List.mem_map_of_mem hlink
  exact classes id.index hderives.lt_size hasBases

/-- A class is listed among the bases as often as links lead to it. -/
theorem count_classBases {base : SymbolId × Bool}
    (isClass : (table.symbol base.1).type.kind.isClass = true) (id : SymbolId) :
    (table.classBases id).count base = ((table.symbol id).parents.map table.baseOf).count base := by
  have hbases : ∀ links : List BaseLink, links.filterMap table.classBase? =
      (links.map table.baseOf).filter fun base => (table.symbol base.1).type.kind.isClass := by
    intro links
    induction links with
    | nil => rfl
    | cons link rest ih =>
        rw [List.filterMap_cons, List.map_cons, List.filter_cons, classBase?, baseOf]
        split <;> rename_i hkind <;> split at hkind <;> simp_all
  rw [classBases, hbases]
  exact List.count_filter isClass

theorem isClass_of_mem_classBases {base : SymbolId × Bool} (listed : base ∈ table.classBases id) :
    (table.symbol base.1).type.kind.isClass = true := by
  obtain ⟨link, -, isBase⟩ := List.mem_filterMap.mp listed
  exact (Search.classBase?_eq_some isBase).1

theorem derives_of_listed {base : SymbolId × Bool} {occurrence : Nat}
    (listed : occurrence < (table.classBases id).count base) : table.Derives id base.1 :=
  HasBase.derives ⟨base.2, List.count_pos_iff.mp (Nat.zero_lt_of_lt listed)⟩

theorem parents_ne_nil_of_mem_waysFrom {depth : Nat} {here : Subobject} {path : InheritancePath}
    {way : Subobject × InheritancePath} (member : way ∈ table.waysFrom owner depth here path id) :
    (table.symbol id).parents ≠ [] := by
  cases depth with
  | zero => exact absurd member List.not_mem_nil
  | succ depth =>
      obtain ⟨entry, hentry, -⟩ := List.mem_flatMap.mp member
      exact List.ne_nil_of_mem (mem_of_mem_numbered hentry)

/-- Ways lead to subobjects. -/
theorem isSubobject_of_mem_waysFrom (classes : table.ClassesHaveBases origin)
    (isClass : (table.symbol owner).type.kind.isClass = true) {depth : Nat} {here : Subobject}
    {path : InheritancePath} (above : ReflTransGen table.Derives origin id)
    (part : table.IsSubobject origin here id) :
    ∀ way ∈ table.waysFrom owner depth here path id, table.IsSubobject origin way.1 owner := by
  induction depth generalizing here path id with
  | zero => exact fun way member => absurd member List.not_mem_nil
  | succ depth ih =>
      intro way member
      obtain ⟨entry, hentry, hway⟩ := List.mem_flatMap.mp member
      have hderives : table.Derives id (table.classOf entry.1.parent) :=
        List.mem_map_of_mem (mem_of_mem_numbered hentry)
      have hpart : (table.symbol (table.classOf entry.1.parent)).type.kind.isClass = true →
          table.IsSubobject origin (here.along (table.baseOf entry.1) entry.2)
            (table.classOf entry.1.parent) := by
        intro kind
        have hlisted : entry.2 < (table.classBases id).count (table.baseOf entry.1) := by
          rw [count_classBases kind]
          exact (exists_mem_numbered.mp ⟨entry, hentry, rfl, rfl⟩).2
        exact .base part rfl hlisted
      dsimp only at hway
      split at hway
      · rename_i arrives
        cases List.mem_singleton.mp hway
        have hkind : (table.symbol (table.classOf entry.1.parent)).type.kind.isClass = true :=
          arrives ▸ isClass
        exact arrives ▸ hpart hkind
      · have habove := above.tail hderives
        exact ih habove (hpart (classes _ habove (parents_ne_nil_of_mem_waysFrom hway))) way hway

/-- A way to a subobject of `owner` is found, and so are all that continue the way to another subobject. -/
theorem ways_of_isSubobject (acyclic : table.AcyclicBases origin) (inherited : owner ≠ origin)
    (part : table.IsSubobject origin sub id) (further : ReflTransGen table.Derives id owner) :
    (id = owner → ∃ way ∈ table.ways owner origin, way.1 = sub) ∧
    (id ≠ owner → ∃ depth path visited, CameBy table.Derives visited id ∧
      depth + visited.length = table.size + 1 ∧
      ∀ way ∈ table.waysFrom owner depth sub path id, way ∈ table.ways owner origin) := by
  induction part with
  | whole =>
      refine ⟨fun same => absurd same.symm inherited, fun _ => ?_⟩
      exact ⟨table.size + 1, {}, [], .nil table.Derives origin, rfl, fun way member => member⟩
  | @base sub id link occurrence part _ listed ih =>
      have hderives := derives_of_listed listed
      have hacyclic := acyclic id (derives_of_hasBase (hasBase_of_exposed part))
      -- No way goes on from `owner` and comes back to it.
      have hbefore : id ≠ owner := by
        rintro rfl
        exact hacyclic (.head' hderives further)
      obtain ⟨depth, path, visited, hcame, henough, hways⟩ := (ih (.head hderives further)).2 hbefore
      have hlength := hcame.length_le Derives.lt_size
      have hpositive : depth ≠ 0 := by omega
      obtain ⟨depth, rfl⟩ := Nat.exists_eq_add_one_of_ne_zero hpositive
      have hkind := isClass_of_mem_classBases (List.count_pos_iff.mp (Nat.zero_lt_of_lt listed))
      rw [count_classBases hkind] at listed
      obtain ⟨entry, hentry, hbase, hcount⟩ : ∃ entry ∈ table.numbered [] (table.symbol id).parents,
          table.baseOf entry.1 = link ∧ entry.2 = occurrence :=
        exists_mem_numbered.mpr ⟨Nat.zero_le occurrence, listed⟩
      subst hbase hcount
      have hstep : ∀ way ∈ (if (table.baseOf entry.1).1 = owner then
            [(sub.along (table.baseOf entry.1) entry.2, path.step entry.1)]
          else table.waysFrom owner depth (sub.along (table.baseOf entry.1) entry.2) (path.step entry.1)
            (table.baseOf entry.1).1), way ∈ table.ways owner origin := fun way member =>
        hways way (List.mem_flatMap.mpr ⟨entry, hentry, member⟩)
      constructor
      · intro arrives
        rw [if_pos arrives] at hstep
        exact ⟨_, hstep _ (List.mem_singleton_self _), rfl⟩
      · intro goesOn
        rw [if_neg goesOn] at hstep
        refine ⟨depth, path.step entry.1, id :: visited, hcame.step hacyclic hderives, ?_, hstep⟩
        rw [List.length_cons]
        omega

/-- The ways up to a base lead to its subobjects, and to each of them. -/
theorem exists_way_iff (acyclic : table.AcyclicBases origin) (classes : table.ClassesHaveBases origin)
    (isClass : (table.symbol owner).type.kind.isClass = true) (inherited : owner ≠ origin) :
    (∃ way ∈ table.ways owner origin, way.1 = sub) ↔ table.IsSubobject origin sub owner := by
  constructor
  · rintro ⟨way, member, rfl⟩
    exact isSubobject_of_mem_waysFrom classes isClass .refl .whole way member
  · exact fun part => (ways_of_isSubobject acyclic inherited part .refl).1 rfl

/-- Several ways, one of them without a virtual link, lead to several subobjects; and these take several
ways, one of them without a virtual link, unless all of the subobjects are part of virtual bases. -/
theorem several_subobjects_iff (acyclic : table.AcyclicBases origin)
    (classes : table.ClassesHaveBases origin) (isClass : (table.symbol owner).type.kind.isClass = true)
    (inherited : owner ≠ origin)
    (single : (∀ sub, table.IsSubobject origin sub owner → sub.root ≠ none) →
      ∀ sub other, table.IsSubobject origin sub owner → table.IsSubobject origin other owner → sub = other) :
    (∃ first second, table.IsSubobject origin first owner ∧ table.IsSubobject origin second owner ∧
        first ≠ second) ↔
      1 < (table.ways owner origin).length ∧ ∃ way ∈ table.ways owner origin, way.2.isVirtual = false := by
  have hways : ∀ sub, (∃ way ∈ table.ways owner origin, way.1 = sub) ↔
      table.IsSubobject origin sub owner := fun sub => exists_way_iff acyclic classes isClass inherited
  constructor
  · rintro ⟨first, second, hfirst, hsecond, differ⟩
    constructor
    · obtain ⟨way, hway, rfl⟩ := (hways first).mpr hfirst
      obtain ⟨other, hother, rfl⟩ := (hways second).mpr hsecond
      by_contra few
      have hone : (table.ways owner origin).length = 1 := by
        have hpositive := List.length_pos_of_mem hway
        omega
      obtain ⟨only, honly⟩ := List.length_eq_one_iff.mp hone
      rw [honly, List.mem_singleton] at hway hother
      exact differ (hway ▸ hother ▸ rfl)
    · by_contra virtual
      refine differ (single (fun sub part => ?_) first second hfirst hsecond)
      obtain ⟨way, hway, rfl⟩ := (hways sub).mpr part
      have hroot := isSome_root_of_mem_waysFrom rfl way hway
      have hvirtual : way.2.isVirtual = true := by
        by_contra plain
        exact virtual ⟨way, hway, Bool.eq_false_iff.mpr plain⟩
      exact Option.isSome_iff_ne_none.mp (hroot.trans hvirtual)
  · rintro ⟨several, way, hway, plain⟩
    by_contra none
    -- If there were one subobject only, then any two ways would have a virtual link.
    have hsame : ∀ a ∈ table.ways owner origin, ∀ b ∈ table.ways owner origin, a.1 = b.1 := by
      intro a ha b hb
      by_contra differ
      exact none ⟨a.1, b.1, (hways a.1).mp ⟨a, ha, rfl⟩, (hways b.1).mp ⟨b, hb, rfl⟩, differ⟩
    have hpairwise := table.pairwise_ways owner origin
    cases hlist : table.ways owner origin with
    | nil => simp [hlist] at several
    | cons first rest =>
        rw [hlist] at hsame hway hpairwise several
        obtain ⟨hfirst, -⟩ := List.pairwise_cons.mp hpairwise
        have hvirtual : ∀ other ∈ rest, first.2.isVirtual = true ∧ other.2.isVirtual = true :=
          fun other member => hfirst other member
            (hsame first List.mem_cons_self other (List.mem_cons_of_mem first member))
        rcases List.mem_cons.mp hway with rfl | later
        · obtain ⟨other, hother⟩ := List.exists_mem_of_length_pos (by simpa using several)
          rw [(hvirtual other hother).1] at plain
          cases plain
        · rw [(hvirtual way later).2] at plain
          cases plain

/-! ## A single declaration -/

/-- The class `owner` has the only declaration of the name at and above `origin`, which is no friend. -/
structure SoleMember (table : Table) (query : Query) (origin owner member : SymbolId) : Prop where
  inherited : owner ≠ origin
  isClass : (table.symbol owner).type.kind.isClass = true
  declares : table.answers query owner = [member]
  sole : ∀ id, ReflTransGen table.HasBase origin id → id ≠ owner → table.answers query id = []
  scope : ∃ scope, (table.symbol member).scope = some scope ∧ table.classOf scope = owner
  visible : (table.symbol (table.canonical member)).type.isFriend = false

namespace SoleMember

/-- Whether a declaration is the only one is seen from a list of classes that has all of their bases. -/
theorem of_closed (above : List SymbolId) (inherited : owner ≠ origin)
    (isClass : (table.symbol owner).type.kind.isClass = true)
    (declares : table.answers query owner = [member])
    (closed : origin ∈ above ∧ ∀ id ∈ above, ∀ base ∈ table.bases id, base ∈ above)
    (sole : ∀ id ∈ above, id ≠ owner → table.answers query id = [])
    (scope : ∃ scope, (table.symbol member).scope = some scope ∧ table.classOf scope = owner)
    (visible : (table.symbol (table.canonical member)).type.isFriend = false) :
    table.SoleMember query origin owner member where
  inherited := inherited
  isClass := isClass
  declares := declares
  sole := by
    intro id habove
    refine sole id ?_
    induction habove with
    | refl => exact closed.1
    | tail _ hasBase ih => exact closed.2 _ ih _ hasBase.derives
  scope := scope
  visible := visible

variable (soleMember : table.SoleMember query origin owner member)

include soleMember

theorem settle_owner :
    table.settle query.name (table.answers query owner) = .ok [table.canonical member] := by
  rw [soleMember.declares]
  exact settle_of_forall_eq _ (List.cons_ne_nil _ _) (fun id hid => List.mem_singleton.mp hid)
    soleMember.visible

theorem settles_owner : table.Settles query owner := by
  have hsettle := soleMember.settle_owner
  unfold settle at hsettle
  split at hsettle
  · cases hsettle
  · rename_i clear
    exact Bool.eq_false_iff.mpr clear

theorem supply_owner : table.supply query owner = [table.canonical member] :=
  Except.ok.inj (soleMember.settles_owner.settle_eq.symm.trans soleMember.settle_owner)

theorem supply_other (above : ReflTransGen table.HasBase origin id) (differs : id ≠ owner) :
    table.supply query id = [] := by
  rw [supply, soleMember.sole id above differs]
  rfl

theorem cleanBases (acyclic : table.AcyclicBases origin) : table.CleanBases query origin := by
  refine ⟨acyclic, fun id above => ?_⟩
  by_cases same : id = owner
  · exact same ▸ soleMember.settles_owner
  · rw [soleMember.sole id above same]
    rfl

/-- The subobjects that count are those of the class that has the declaration. -/
theorem isHit_iff (acyclic : table.AcyclicBases origin) :
    table.IsHit query origin sub id ↔ id = owner ∧ table.IsSubobject origin sub id := by
  constructor
  · rintro ⟨exposed, supplies⟩
    refine ⟨?_, ?_⟩
    · by_contra differs
      exact supplies (soleMember.supply_other (hasBase_of_exposed exposed) differs)
    · clear supplies
      induction exposed with
      | whole => exact .whole
      | base _ _ listed ih => exact .base ih rfl listed
  · rintro ⟨rfl, part⟩
    refine ⟨?_, by simp [soleMember.supply_owner]⟩
    -- Whatever stands before the class on the path is another one, and supplies nothing.
    have hexposed : ∀ {sub other}, table.IsSubobject origin sub other →
        ReflTransGen table.Derives other id → Exposed table.classBases (table.supply query) origin sub other := by
      intro sub other part
      induction part with
      | whole => exact fun _ => .whole
      | @base sub before link occurrence part _ listed ih =>
          intro further
          have hderives := derives_of_listed listed
          have habove := hasBase_of_exposed part
          refine .base (ih (.head hderives further)) (soleMember.supply_other habove ?_) listed
          rintro rfl
          exact acyclic before (derives_of_hasBase habove) (.head' hderives further)
    exact hexposed part .refl

/-- Subobjects disagree about the declaration if there are two of them and it depends on the path. -/
theorem conflict_iff (acyclic : table.AcyclicBases origin) :
    table.Conflict query origin ↔ table.isPathIndependent (table.canonical member) = false ∧
      ∃ first second, table.IsSubobject origin first owner ∧ table.IsSubobject origin second owner ∧
        first ≠ second := by
  have hagree : table.Agree (table.supply query owner) (table.supply query owner) ↔
      table.isPathIndependent (table.canonical member) = true := by
    rw [soleMember.supply_owner]
    simp [Agree]
  simp only [Conflict, soleMember.isHit_iff acyclic]
  constructor
  · rintro ⟨first, second, _, _, ⟨rfl, hfirst⟩, ⟨rfl, hsecond⟩, differ, disagree⟩
    exact ⟨Bool.eq_false_iff.mpr (mt hagree.mpr disagree), first, second, hfirst, hsecond, differ⟩
  · rintro ⟨depends, first, second, hfirst, hsecond, differ⟩
    refine ⟨first, second, owner, owner, ⟨rfl, hfirst⟩, ⟨rfl, hsecond⟩, differ, fun agree => ?_⟩
    rw [hagree.mp agree] at depends
    cases depends

end SoleMember

/-! ## Access -/

/-- A class stands for itself. -/
theorem resolveNamespace_of_isClass {start : SymbolId}
    (isClass : (table.symbol (table.canonical start)).type.kind.isClass = true) :
    table.resolveNamespace start = table.canonical start := by
  have hkind : (table.symbol (table.canonical start)).type.kind ≠ .nspace := by
    intro same
    rw [same] at isClass
    cases isClass
  unfold resolveNamespace
  cases hsize : table.size with
  | zero => rw [canonical, hsize]; rfl
  | succ size =>
      simp only [resolveNamespaceSteps, hkind, false_and, if_false]
      split <;> rfl

theorem classOf_of_not_typedef {start : SymbolId}
    (named : (table.symbol (table.canonical start)).type.isTypedef = false) :
    table.classOf start = table.canonical start := by
  simp [classOf, named]

/-- The access of the member is ambiguous if there are several ways to its class, of which one has no virtual
link, and the member is neither static nor an enumerator. -/
theorem SoleMember.visibility_ambiguous_iff (soleMember : table.SoleMember query origin owner member)
    (acyclic : table.AcyclicBases origin) {start : SymbolId} (named : table.classOf start = origin) :
    table.visibility member start = .error (.ambiguous (table.symbol member).name) ↔
      (table.symbol member).isSharedMember = false ∧ 1 < (table.ways owner origin).length ∧
        ∃ way ∈ table.ways owner origin, way.2.isVirtual = false := by
  obtain ⟨scope, hscope, hclass⟩ := soleMember.scope
  have hpaths := inheritancePathsFrom_eq owner acyclic (.nil table.Derives origin) rfl {} {}
  rw [show table.waysFrom owner (table.size + 1) {} {} origin = table.ways owner origin from rfl] at hpaths
  simp only [visibility, hscope, hclass, named, if_neg soleMember.inherited, hpaths, bind, Except.bind]
  cases hways : table.ways owner origin with
  | nil => simp
  | cons first rest =>
      cases rest with
      | nil => simp [pure, Except.pure]
      | cons second rest =>
          have hplain : ((first :: second :: rest).map (·.2)).all (·.isVirtual) = false ↔
              ∃ way ∈ first :: second :: rest, way.2.isVirtual = false := by
            rw [List.all_map, List.all_eq_false]
            simp only [Function.comp_apply, Bool.not_eq_true]
          rw [← hplain]
          show (if (table.symbol member).isSharedMember ||
              ((first :: second :: rest).map (·.2)).all (·.isVirtual) then _ else _) = _ ↔ _
          cases (table.symbol member).isSharedMember <;>
            cases ((first :: second :: rest).map (·.2)).all (·.isVirtual) <;>
              simp [pure, Except.pure]

end Table

/-! ## The lookup -/

namespace Analysis

open Table

variable {table : Table} {start origin owner member : SymbolId} {name : Name} {options : LookupOptions}

/-- A name is ambiguous in a class that does not supply it if two base subobjects do not agree on it. -/
theorem lookup_ambiguous_iff_conflict (exact : options.IsExact) (qualified : options.qualified = true)
    (resolved : table.resolveNamespace start = origin)
    (isClass : (table.symbol origin).type.kind.isClass = true)
    (clean : table.CleanBases (table.query name options) origin)
    (silent : table.supply (table.query name options) origin = []) :
    lookup start name options table = .error (.error (.ambiguous name)) table ↔
      table.Conflict (table.query name options) origin := by
  obtain ⟨hits, hnodup, hmet, hlookup⟩ := lookup_of_silent_class exact qualified resolved isClass clean silent
  have hcompatible := compatible_iff hnodup hmet
  rw [hlookup]
  by_cases conflict : table.Conflict (table.query name options) origin
  · rw [collated_of_not_compatible (mt hcompatible.mp (not_not_intro conflict))]
    exact iff_of_true rfl conflict
  · rw [collated_of_compatible (hcompatible.mpr conflict)]
    exact iff_of_false (fun impossible => nomatch impossible) conflict

/-- In a class that inherits the only declaration of a name, the name is ambiguous exactly if the declaration
depends on the path and two base subobjects have it. -/
theorem lookup_ambiguous_iff (exact : options.IsExact) (qualified : options.qualified = true)
    (isClass : (table.symbol (table.canonical start)).type.kind.isClass = true)
    (acyclic : table.AcyclicBases (table.canonical start))
    (soleMember : table.SoleMember (table.query name options) (table.canonical start) owner member) :
    lookup start name options table = .error (.error (.ambiguous name)) table ↔
      table.isPathIndependent (table.canonical member) = false ∧
        ∃ first second, table.IsSubobject (table.canonical start) first owner ∧
          table.IsSubobject (table.canonical start) second owner ∧ first ≠ second :=
  (lookup_ambiguous_iff_conflict exact qualified (resolveNamespace_of_isClass isClass) isClass
    (soleMember.cleanBases acyclic) (soleMember.supply_other .refl soleMember.inherited.symm)).trans
      (soleMember.conflict_iff acyclic)

/-- A qualified lookup and access agree on whether an inherited member is ambiguous.  Let inheritance be
acyclic above a class, and let a member of one of its bases be the only declaration of its name, and either
be static or an enumerator like the entity it stands for, or stand for an entity that is neither of them and
no type.  Then the lookup of the name in the class is ambiguous exactly if the access of the member is, unless
all base subobjects that have the member are part of virtual bases and there are several of them.  A static
member, an enumerator or a type is never ambiguous for the lookup. -/
theorem lookup_and_access_agree (exact : options.IsExact) (qualified : options.qualified = true)
    (isClass : (table.symbol (table.canonical start)).type.kind.isClass = true)
    (named : (table.symbol (table.canonical start)).type.isTypedef = false)
    (acyclic : table.AcyclicBases (table.canonical start))
    (classes : table.ClassesHaveBases (table.canonical start))
    (soleMember : table.SoleMember (table.query name options) (table.canonical start) owner member) :
    (table.isPathIndependent (table.canonical member) = true →
      lookup start name options table ≠ .error (.error (.ambiguous name)) table) ∧
    (table.isPathIndependent (table.canonical member) = (table.symbol member).isSharedMember →
      ((∀ sub, table.IsSubobject (table.canonical start) sub owner → sub.root ≠ none) →
        ∀ sub other, table.IsSubobject (table.canonical start) sub owner →
          table.IsSubobject (table.canonical start) other owner → sub = other) →
      (lookup start name options table = .error (.error (.ambiguous name)) table ↔
        table.visibility member start = .error (.ambiguous (table.symbol member).name))) := by
  have hlookup := lookup_ambiguous_iff exact qualified isClass acyclic soleMember
  have haccess := soleMember.visibility_ambiguous_iff acyclic (classOf_of_not_typedef named)
  constructor
  · intro independent ambiguous
    rw [(hlookup.mp ambiguous).1] at independent
    cases independent
  · intro alike single
    rw [hlookup, haccess, alike,
      several_subobjects_iff acyclic classes soleMember.isClass soleMember.inherited single]

/-- The object of the first class has one declaration.  In the last class, which has two subobjects of the
first one, both its name and its access are ambiguous. -/
theorem diamond_object_denied :
    diamondTable.SoleMember (diamondTable.query ⟨17⟩ { qualified := true }) ⟨5⟩ ⟨1⟩ ⟨2⟩ ∧
      lookup ⟨5⟩ ⟨17⟩ { qualified := true } diamondTable = .error (.error (.ambiguous ⟨17⟩)) diamondTable ∧
      diamondTable.visibility ⟨2⟩ ⟨5⟩ = .error (.ambiguous ⟨17⟩) := by
  have hcanonical : diamondTable.canonical ⟨5⟩ = ⟨5⟩ := by decide +kernel
  have hsole : diamondTable.SoleMember (diamondTable.query ⟨17⟩ { qualified := true }) ⟨5⟩ ⟨1⟩ ⟨2⟩ :=
    .of_closed [⟨5⟩, ⟨4⟩, ⟨3⟩, ⟨1⟩] (by decide) (by decide +kernel) (by decide +kernel) (by decide +kernel)
      (by decide +kernel) ⟨⟨1⟩, by decide +kernel, by decide +kernel⟩ (by decide +kernel)
  have haccess : diamondTable.visibility ⟨2⟩ ⟨5⟩ = .error (.ambiguous ⟨17⟩) := by decide +kernel
  -- No subobject is part of a virtual base.
  have hplain : ∀ sub id, diamondTable.IsSubobject ⟨5⟩ sub id → sub.root = none := by
    intro sub id part
    induction part with
    | whole => rfl
    | @base sub id link occurrence part silent listed ih =>
        have hlinks : ∀ index < diamondTable.size, ∀ base ∈ diamondTable.classBases ⟨index⟩,
            base.2 = false := by decide +kernel
        have hlink := hlinks id.index (derives_of_listed listed).lt_size link
          (List.count_pos_iff.mp (Nat.zero_lt_of_lt listed))
        simpa [Subobject.along, hlink] using ih
  refine ⟨hsole, ?_, haccess⟩
  have hagree := (@lookup_and_access_agree diamondTable ⟨5⟩ ⟨1⟩ ⟨2⟩ ⟨17⟩ { qualified := true }
    ⟨rfl, rfl⟩ rfl (by decide +kernel) (by decide +kernel)
    (hcanonical ▸ (diamond_cleanBases ⟨5⟩).acyclic) (.of_size (by decide +kernel) _)
    (hcanonical ▸ hsole)).2 (by decide +kernel)
  rw [hcanonical] at hagree
  refine (hagree fun virtual sub _ part _ => absurd (hplain sub ⟨1⟩ part) (virtual sub part)).mpr ?_
  exact haccess

/-- Exactly one of the lookup of a name in a class and the access of its only declaration is ambiguous. -/
structure Disagree (table : Table) (start owner member : SymbolId) (name : Name) : Prop where
  acyclic : table.AcyclicBases start
  isClass : (table.symbol start).type.kind.isClass = true
  soleMember : table.SoleMember (table.query name { qualified := true }) start owner member
  differ : ¬ (lookup start name { qualified := true } table = .error (.error (.ambiguous name)) table ↔
    table.visibility member start = .error (.ambiguous name))

theorem Disagree.of_denied (acyclic : table.AcyclicBases start)
    (isClass : (table.symbol start).type.kind.isClass = true)
    (soleMember : table.SoleMember (table.query name { qualified := true }) start owner member)
    (denied : table.visibility member start = .error (.ambiguous name))
    (found : (match lookup start name { qualified := true } table with
      | .ok _ _ => true
      | .error _ _ => false) = true) : Disagree table start owner member name where
  acyclic := acyclic
  isClass := isClass
  soleMember := soleMember
  differ := by
    intro agree
    rw [agree.mpr denied] at found
    cases found

/-- Two classes that derive from `top`, the second one of the given kind, and a class that derives from
both. -/
def deriveTwice (top : SymbolId) (kind : BaseKind) : Analysis SymbolId := do
  let left ← createClass ⟨19⟩ .cls
  addParent left top .pub false
  let right ← createClass ⟨20⟩ kind
  addParent right top .pub false
  let bottom ← createClass ⟨21⟩ .cls
  addParent bottom left .pub false
  addParent bottom right .pub false
  pure bottom

/-- A class inherits a nested class along two ways. -/
def nestedClassTable : Table :=
  finalTable (Table.new {}) do
    let top ← createClass ⟨18⟩ .cls
    let nested ← createClass ⟨17⟩ .cls
    addSymbol top nested
    deriveTwice top .cls

/-- A class inherits an object along two ways, one of them through a template parameter that has bases. -/
def dependentBaseTable : Table :=
  finalTable (Table.new {}) do
    let top ← createClass ⟨18⟩ .cls
    let object ← createBasic ⟨17⟩ (.ofKind .int)
    addSymbol top object
    deriveTwice top .templateParameter

/-- A class inherits a using-declaration along two ways, of an object that turns static later. -/
def laterStaticTable : Table :=
  finalTable (Table.new {}) do
    let source ← createClass ⟨22⟩ .cls
    let object ← createBasic ⟨17⟩ (.ofKind .int)
    addSymbol source object
    let top ← createClass ⟨18⟩ .cls
    let _ ← addUsingDeclaration top ⟨17⟩ source
    let bottom ← deriveTwice top .cls
    addFlags object { specifiers := { isStatic := true } }
    pure bottom

/-- The base that inherits an object along two ways is virtual. -/
def virtualJointTable : Table :=
  finalTable (Table.new {}) do
    let top ← createClass ⟨18⟩ .cls
    let object ← createBasic ⟨17⟩ (.ofKind .int)
    addSymbol top object
    let joint ← deriveTwice top .cls
    let last ← createClass ⟨22⟩ .cls
    addParent last joint .pub true

/-- The access is ambiguous, but not the lookup, of a nested class, of a member that is inherited through a
template parameter, and of a member that is not static like the entity it stands for.  The lookup is
ambiguous, but not the access, of a member in two base subobjects which are part of one virtual base. -/
theorem lookup_and_access_disagree :
    Disagree nestedClassTable ⟨5⟩ ⟨1⟩ ⟨2⟩ ⟨17⟩ ∧ Disagree dependentBaseTable ⟨5⟩ ⟨1⟩ ⟨2⟩ ⟨17⟩ ∧
      Disagree laterStaticTable ⟨7⟩ ⟨3⟩ ⟨4⟩ ⟨17⟩ ∧ Disagree virtualJointTable ⟨6⟩ ⟨1⟩ ⟨2⟩ ⟨17⟩ := by
  refine ⟨?_, ?_, ?_, ?_⟩
  · exact .of_denied (.of_older (by decide +kernel) ⟨5⟩) (by decide +kernel)
      (.of_closed [⟨5⟩, ⟨4⟩, ⟨3⟩, ⟨1⟩] (by decide) (by decide +kernel) (by decide +kernel)
        (by decide +kernel) (by decide +kernel) ⟨⟨1⟩, by decide +kernel, by decide +kernel⟩ (by decide +kernel))
      (by decide +kernel) (by decide +kernel)
  · exact .of_denied (.of_older (by decide +kernel) ⟨5⟩) (by decide +kernel)
      (.of_closed [⟨5⟩, ⟨4⟩, ⟨3⟩, ⟨1⟩] (by decide) (by decide +kernel) (by decide +kernel)
        (by decide +kernel) (by decide +kernel) ⟨⟨1⟩, by decide +kernel, by decide +kernel⟩ (by decide +kernel))
      (by decide +kernel) (by decide +kernel)
  · exact .of_denied (.of_older (by decide +kernel) ⟨7⟩) (by decide +kernel)
      (.of_closed [⟨7⟩, ⟨6⟩, ⟨5⟩, ⟨3⟩] (by decide) (by decide +kernel) (by decide +kernel)
        (by decide +kernel) (by decide +kernel) ⟨⟨3⟩, by decide +kernel, by decide +kernel⟩ (by decide +kernel))
      (by decide +kernel) (by decide +kernel)
  · have hacyclic : virtualJointTable.AcyclicBases ⟨6⟩ := .of_older (by decide +kernel) ⟨6⟩
    have hisClass : (virtualJointTable.symbol ⟨6⟩).type.kind.isClass = true := by decide +kernel
    have hsole : virtualJointTable.SoleMember (virtualJointTable.query ⟨17⟩ { qualified := true })
        ⟨6⟩ ⟨1⟩ ⟨2⟩ :=
      .of_closed [⟨6⟩, ⟨5⟩, ⟨4⟩, ⟨3⟩, ⟨1⟩] (by decide) (by decide +kernel) (by decide +kernel)
        (by decide +kernel) (by decide +kernel) ⟨⟨1⟩, by decide +kernel, by decide +kernel⟩ (by decide +kernel)
    have hcanonical : virtualJointTable.canonical ⟨6⟩ = ⟨6⟩ := by decide +kernel
    -- The top class is a base of either side of the virtual base.
    have hpart : ∀ side : SymbolId, side = ⟨3⟩ ∨ side = ⟨4⟩ →
        virtualJointTable.IsSubobject ⟨6⟩ { root := some ⟨5⟩, links := [(side, 0), (⟨1⟩, 0)] } ⟨1⟩ := by
      intro side hside
      have hjoint : 0 < (virtualJointTable.classBases ⟨6⟩).count (⟨5⟩, true) := by decide +kernel
      have hsides : 0 < (virtualJointTable.classBases ⟨5⟩).count (side, false) := by
        rcases hside with rfl | rfl <;> decide +kernel
      have htop : 0 < (virtualJointTable.classBases side).count (⟨1⟩, false) := by
        rcases hside with rfl | rfl <;> decide +kernel
      exact .base (.base (.base .whole rfl hjoint) rfl hsides) rfl htop
    have hambiguous := (@lookup_ambiguous_iff virtualJointTable ⟨6⟩ ⟨1⟩ ⟨2⟩ ⟨17⟩ { qualified := true }
      ⟨rfl, rfl⟩ rfl (hcanonical ▸ hisClass) (hcanonical ▸ hacyclic) (hcanonical ▸ hsole)).mpr
        ⟨by decide +kernel, _, _, hcanonical ▸ hpart ⟨3⟩ (.inl rfl), hcanonical ▸ hpart ⟨4⟩ (.inr rfl), by decide⟩
    refine ⟨hacyclic, hisClass, hsole, fun agree => ?_⟩
    have hallowed : virtualJointTable.visibility ⟨2⟩ ⟨6⟩ = .ok .pub := by decide +kernel
    cases hallowed.symm.trans (agree.mp hambiguous)

end Analysis

end NameBinding
