import NameBinding.Proofs.Inheritance.Circles
import NameBinding.Proofs.Lookup.Inherited
import NameBinding.Proofs.Lookup.Nominated
import NameBinding.Proofs.Table.Asking
import NameBinding.Proofs.Template.Failures

/-!
# Circular inheritance in lookups

A lookup in a class checks the inheritance of the class before it searches the bases.  The check fails
exactly if there is a circle above the class, and after it the search of the bases never meets one.  The
instances that a lookup makes add symbols to the table; as long as chains of links end, the bases of the
classes that were there before stay the same.

* `Table.BasesStay`: a lookup leaves the bases above a class as they are.
* `Table.Holds`: the invariant of such a lookup.
* `Search.Spares`: a step keeps the invariant, and does not report circular inheritance.

The main statement is `circular_inheritance_found_exactly`.
-/

namespace NameBinding

open Relation

/-! ## The bases of a growing table -/

/-- What can be reached from `a` depends on nothing but the links of what can be reached. -/
theorem reflTransGen_congr {α : Type} {leads leads' : α → α → Prop} {a : α}
    (same : ∀ x, ReflTransGen leads a x → ∀ y, leads' x y ↔ leads x y) (x : α) :
    ReflTransGen leads' a x ↔ ReflTransGen leads a x := by
  constructor
  · intro path
    induction path with
    | refl => exact .refl
    | tail _ link ih => exact ih.tail ((same _ ih _).mp link)
  · intro path
    induction path with
    | refl => exact .refl
    | tail before link ih => exact ih.tail ((same _ before _).mpr link)

namespace Table

variable {before after table : Table} {origin id : SymbolId}

/-- The tables agree on the base links of the classes at and above `origin`, and on what these lead to. -/
structure SameBases (before after : Table) (origin : SymbolId) : Prop where
  parents : ∀ id, ReflTransGen before.Derives origin id →
    (after.symbol id).parents = (before.symbol id).parents
  classOf : ∀ id, ReflTransGen before.Derives origin id → ∀ link ∈ (before.symbol id).parents,
    after.classOf link.parent = before.classOf link.parent

namespace SameBases

theorem refl (table : Table) (origin : SymbolId) : table.SameBases table origin :=
  ⟨fun _ _ => rfl, fun _ _ _ _ => rfl⟩

variable (same : before.SameBases after origin)

include same

theorem bases_eq (above : ReflTransGen before.Derives origin id) : after.bases id = before.bases id := by
  rw [bases, bases, same.parents id above]
  exact List.map_congr_left fun link member => same.classOf id above link member

/-- There is a circle in the one table if there is one in the other. -/
theorem circularAbove_iff : after.CircularAbove origin ↔ before.CircularAbove origin := by
  have hderives : ∀ id, ReflTransGen before.Derives origin id → ∀ base,
      after.Derives id base ↔ before.Derives id base := by
    intro id above base
    rw [Derives, Derives, same.bases_eq above]
  have habove := reflTransGen_congr hderives
  have hcircle : ∀ id, ReflTransGen before.Derives origin id →
      (TransGen after.Derives id id ↔ TransGen before.Derives id id) := by
    intro id above
    rw [TransGen.head'_iff, TransGen.head'_iff]
    refine exists_congr fun base => ?_
    rw [hderives id above base]
    refine and_congr_right fun derives => ?_
    exact reflTransGen_congr (fun x further => hderives x ((above.tail derives).trans further)) id
  constructor
  · rintro ⟨id, above, circle⟩
    have hid := (habove id).mp above
    exact ⟨id, hid, (hcircle id hid).mp circle⟩
  · rintro ⟨id, above, circle⟩
    exact ⟨id, (habove id).mpr above, (hcircle id above).mpr circle⟩

end SameBases

theorem Grows.parents_eq (grows : before.Grows after) (lt : id.index < before.size) :
    (after.symbol id).parents = (before.symbol id).parents := by
  refine (grows.symbols id lt).read Symbol.parents ?_
  rintro ⟨name, scope, type, inTemplate, access, target, named, origin, link, payload⟩
  cases payload <;> rfl

theorem Grows.classOf_eq (grows : before.Grows after) (calm : before.Calm)
    (typedefs : before.TypedefsEnd) (lt : id.index < before.size) :
    after.classOf id = before.classOf id := by
  have hcanonical := grows.canonical_eq calm lt
  have hlt := calm.represented.canonical_lt lt
  have hbelow := calm.represented.type_below (before.canonical id)
  have htype := (grows.symbols _ hlt).type
  simp only [classOf, hcanonical, htype, grows.flattenType_eq calm typedefs hbelow]
  split
  · cases hlink : (before.flattenType (before.symbol (before.canonical id)).type).link with
    | none => rfl
    | some link =>
        have hflat := calm.represented.flattenType_below hbelow
        exact grows.canonical_eq calm (hflat.link hlink)
  · rfl

/-- A class derives from classes of the table only. -/
theorem Represented.lt_of_above (represented : table.Represented) (lt : origin.index < table.size)
    (above : ReflTransGen table.Derives origin id) : id.index < table.size := by
  induction above with
  | refl => exact lt
  | @tail derived base _ derives ih =>
      obtain ⟨link, hlink, rfl⟩ := List.mem_map.mp derives
      have hwithin := Symbol.parents_within (represented.within derived)
      exact represented.classOf_lt (hwithin link.parent (List.mem_map_of_mem hlink))

/-- A table that has grown has the same bases. -/
theorem Grows.sameBases (grows : before.Grows after) (calm : before.Calm) (typedefs : before.TypedefsEnd)
    (lt : origin.index < before.size) : before.SameBases after origin where
  parents := fun _ above => grows.parents_eq (calm.represented.lt_of_above lt above)
  classOf := by
    intro id above link member
    have hwithin := Symbol.parents_within (calm.represented.within id)
    exact grows.classOf_eq calm typedefs (hwithin link.parent (List.mem_map_of_mem member))

/-! ## What stays during a lookup -/

/-- The lookup makes no instances, or all chains of links of the table end: either way the bases above
`origin` stay as they are. -/
def BasesStay (table : Table) (options : LookupOptions) (origin : SymbolId) : Prop :=
  (options.arguments = none ∨ options.keepTemplates = true) ∨
    (table.Calm ∧ table.TypedefsEnd ∧ origin.index < table.size)

/-- The invariant holds at the beginning and for the instances that a lookup makes, and leaves the bases
above `origin` as they are. -/
structure Holds (table : Table) (options : LookupOptions) (origin : SymbolId) (inv : Table → Prop) :
    Prop where
  start : inv table
  bases : ∀ after, inv after → table.SameBases after origin
  size_le : ∀ after, inv after → table.size ≤ after.size
  folds : ∀ templates, Analysis.Keeps inv (Analysis.foldTemplates options templates)

theorem BasesStay.holds {options : LookupOptions} (stay : table.BasesStay options origin) :
    ∃ inv, table.Holds options origin inv := by
  rcases stay with quiet | ⟨calm, typedefs, lt⟩
  · refine ⟨fun after => after = table, rfl, fun after same => same ▸ .refl table origin,
      fun after same => same ▸ Nat.le_refl _, fun templates => ?_⟩
    rw [Analysis.foldTemplates_eq_pure quiet]
    exact Analysis.Yields.pure trivial
  · exact ⟨Growth table, ⟨calm.idle, .refl table⟩,
      fun after growth => growth.grows.sameBases calm typedefs lt, fun after growth => growth.grows.size_le,
      fun templates => Analysis.keeps_foldTemplates Growth.instantiationKeeps options templates⟩

end Table

/-! ## Steps that report no circle -/

namespace Search

variable {inv : Table → Prop} {α β : Type}

/-- The step ends with the invariant, and with the same classes proved free of circles, or with an error
other than circular inheritance. -/
def SparesAt (inv : Table → Prop) (search : Search α) (trail : Trail) (table : Table) : Prop :=
  match search trail table with
  | .ok found after => inv after ∧ found.2.acyclic = trail.acyclic
  | .error (.error error) _ => error.code ≠ .circularInheritance
  | .error (.fault _) _ => True

/-- From a table that satisfies the invariant, the step keeps it, and reports no circular inheritance. -/
def Spares (inv : Table → Prop) (search : Search α) : Prop :=
  ∀ trail table, inv table → SparesAt inv search trail table

/-- Remembering something else first. -/
theorem SparesAt.set {next : PUnit → Search α} {trail after : Trail} {table : Table}
    (same : after.acyclic = trail.acyclic) (second : SparesAt inv (next ⟨⟩) after table) :
    SparesAt inv (MonadStateOf.set after >>= next) trail table := by
  unfold SparesAt at second ⊢
  rw [same] at second
  exact second

namespace Spares

theorem pure (value : α) : Spares inv (Pure.pure value : Search α) := fun _ _ holds => ⟨holds, rfl⟩

theorem fail {error : SemanticError} (other : error.code ≠ .circularInheritance) :
    Spares inv (liftM (Analysis.fail error : Analysis α) : Search α) := fun _ _ _ => other

theorem bind {search : Search α} {next : α → Search β} (first : Spares inv search)
    (second : ∀ value, Spares inv (next value)) : Spares inv (search >>= next) := by
  intro trail table holds
  have hfirst := first trail table holds
  unfold SparesAt at hfirst ⊢
  cases hsearch : search trail table with
  | ok found after =>
      rw [hsearch] at hfirst
      have hbind : (search >>= next) trail table = next found.1 found.2 after := Analysis.bind_ok hsearch
      have hsecond := second found.1 found.2 after hfirst.1
      unfold SparesAt at hsecond
      rw [hbind]
      cases hnext : next found.1 found.2 after with
      | ok last final =>
          rw [hnext] at hsecond
          exact ⟨hsecond.1, hsecond.2.trans hfirst.2⟩
      | error interrupt final =>
          rw [hnext] at hsecond
          cases interrupt with
          | error => exact hsecond
          | fault => trivial
  | error interrupt after =>
      rw [hsearch] at hfirst
      have hbind : (search >>= next) trail table = .error interrupt after := Analysis.bind_error hsearch
      rw [hbind]
      cases interrupt with
      | error => exact hfirst
      | fault => trivial

/-- Going on with the table that was read. -/
theorem read {next : Table → Search α} (second : ∀ table, inv table → Spares inv (next table)) :
    Spares inv (Search.table >>= next) :=
  fun trail table holds => second table holds trail table holds

/-- Going on with what the lookup remembers. -/
theorem get {next : Trail → Search α}
    (second : ∀ trail table, inv table → SparesAt inv (next trail) trail table) :
    Spares inv (MonadState.get >>= next) :=
  second

/-- Remembering something else. -/
theorem modify {change : Trail → Trail} (same : ∀ trail, (change trail).acyclic = trail.acyclic) :
    Spares inv (modify change : Search PUnit) :=
  fun trail _ holds => ⟨holds, same trail⟩

/-- A step that has no part in what the lookup remembers. -/
theorem lift {step : Analysis α} (keeps : Analysis.Keeps inv step)
    (fails : Analysis.FailsOfTemplates step) : Spares inv (liftM step : Search α) := by
  intro trail table holds
  have hends := (keeps table holds).1
  let hold : α → Analysis (α × Trail) := fun value => Pure.pure (value, trail)
  unfold SparesAt
  cases hstep : step table with
  | ok value after =>
      rw [hstep] at hends
      have hlift : (step >>= hold) table = .ok (value, trail) after := Analysis.bind_ok hstep
      rw [show (liftM step : Search α) trail = step >>= hold from rfl, hlift]
      exact ⟨hends.1, rfl⟩
  | error interrupt after =>
      rw [show (liftM step : Search α) trail = step >>= hold from rfl, Analysis.bind_error hstep]
      cases interrupt with
      | error error =>
          have hallowed := fails table error after hstep
          dsimp only
          cases error <;> first | exact hallowed.elim | exact fun same => nomatch same
      | fault => trivial

theorem foldlM {list : List α} {step : β → α → Search β}
    (each : ∀ state, ∀ element ∈ list, Spares inv (step state element)) (start : β) :
    Spares inv (list.foldlM step start) := by
  induction list generalizing start with
  | nil => exact pure start
  | cons first rest ih =>
      rw [List.foldlM_cons]
      exact (each start first List.mem_cons_self).bind fun next =>
        ih (fun state element member => each state element (List.mem_cons_of_mem first member)) next

end Spares

variable {query : Query}

theorem spares_ambiguity (query : Query) (name : Name) : Spares inv (ambiguity query name) := by
  unfold ambiguity
  split
  · refine .modify fun trail => ?_
    split <;> rfl
  · exact .fail fun same => nomatch same

section Steps

variable (folds : ∀ templates, Analysis.Keeps inv (Analysis.foldTemplates query.options templates))

theorem spares_mergeSibling (merged found : Found) : Spares inv (mergeSibling query merged found) := by
  refine .foldlM (fun merged entry _ => .read fun table _ => ?_) _
  split
  · exact .pure _
  · split
    · exact .pure _
    · exact (spares_ambiguity query _).bind fun _ => .pure _

include folds

theorem spares_collectLevel (hits : List Hit) : Spares inv (collectLevel query hits) := by
  have hfails : ∀ templates, Analysis.FailsOfTemplates (Analysis.foldTemplates query.options templates) := by
    intro templates
    unfold Analysis.foldTemplates
    split
    · exact .pure _
    · split
      · exact .pure _
      · refine .foldlM (fun folded template _ => ?_) _
        refine (Analysis.failsOnly_deducedInstance? template _).bind fun made => ?_
        cases made <;> exact .pure _
  refine .foldlM (fun collected entry _ => Spares.bind (.read fun table _ => ?_) fun ids => .pure _) _
  dsimp only
  split
  · exact (spares_ambiguity query _).bind fun _ => .pure _
  · split
    · exact .pure _
    · exact (Spares.lift (folds _) (hfails _)).bind fun _ => .pure _

theorem spares_searchBase {deeper : SymbolId → Search Found} {parent : SymbolId}
    (searches : Spares inv (deeper parent)) : Spares inv (searchBase query deeper parent) := by
  refine .read fun table _ => (spares_collectLevel folds _).bind fun found => .read fun table _ => ?_
  split
  · exact .pure _
  · exact searches.bind fun _ => .pure _

end Steps

/-! ## The search of the bases -/

section Bases

open Table

variable {table now : Table} {origin id : SymbolId} {path : List SymbolId}
  (holds : table.Holds query.options origin inv) (acyclic : table.AcyclicBases origin)

include holds acyclic

/-- With enough depth left for the path to grow as long as it can, the search of bases without circles
reports none. -/
theorem spares_searchParents {depth : Nat} (above : ReflTransGen table.Derives origin id)
    (came : CameBy table.Derives path id) (enough : table.size + 1 ≤ depth + path.length) :
    Spares inv (searchParents query depth (id :: path) id) := by
  induction depth generalizing path id with
  | zero =>
      have hlength := came.length_le Derives.lt_size
      omega
  | succ depth ih =>
      rw [searchParents_succ]
      refine .read fun now hnow => .foldlM (fun merged link listed => ?_) _
      rw [(holds.bases now hnow).parents id above] at listed
      refine .read fun later hlater => .get fun trail table' holds' => ?_
      -- The link still leads to where it led at the beginning.
      have hparent := (holds.bases later hlater).classOf id above link listed
      have hderives : table.Derives id (later.classOf link.parent) := by
        rw [hparent]
        exact List.mem_map_of_mem listed
      have habove := above.tail hderives
      have hcame := came.step (acyclic id above) hderives
      have hbase : Spares inv (do
          let found ← searchBase query (fun base => searchParents query depth (base :: id :: path) base)
            (later.classOf link.parent)
          mergeSibling query merged found) := by
        refine (spares_searchBase holds.folds (ih habove hcame ?_)).bind fun found =>
          spares_mergeSibling merged found
        rw [List.length_cons]
        omega
      dsimp only
      split
      · exact Spares.pure _ trail table' holds'
      · rw [if_neg (hcame.not_mem (acyclic _ habove))]
        split
        · exact Spares.pure _ trail table' holds'
        · split
          · exact .set rfl (hbase _ table' holds')
          · exact hbase trail table' holds'

theorem spares_lookupInParents : Spares inv (lookupInParents query origin) := by
  refine .read fun now hnow => ?_
  have hsize := holds.size_le now hnow
  exact spares_searchParents holds acyclic .refl (.nil table.Derives origin) (by simpa using hsize)

end Bases

/-! ## The check and the search -/

section Check

open Table

variable {table now : Table} {origin id : SymbolId} {trail : Trail}

/-- The check reports a class on a circle, if there is one. -/
theorem ends_checkInheritance_circular (isProved : now.Proved trail.acyclic)
    (circular : now.CircularAbove id) :
    ∃ on, ReflTransGen now.Derives id on ∧ TransGen now.Derives on on ∧
      (checkInheritance id).Ends now trail (.error (now.circular on)) := by
  rcases isProved.checkAcyclic_cases id with ⟨acyclic, -⟩ | ⟨on, above, circle, hfailed⟩
  · exact absurd circular (not_circularAbove_iff.mpr acyclic)
  · refine ⟨on, above, circle, .read (.get ?_)⟩
    rw [hfailed]
    rfl

/-- Bases are not even searched if there is a circle above the class. -/
theorem ends_addInherited_circular (isProved : now.Proved trail.acyclic) (circular : now.CircularAbove id)
    (collected : Found) :
    ∃ on, ReflTransGen now.Derives id on ∧ TransGen now.Derives on on ∧
      (addInherited query id collected).Ends now trail (.error (now.circular on)) := by
  obtain ⟨on, above, circle, hcheck⟩ := ends_checkInheritance_circular isProved circular
  have hparents : ¬ (now.symbol id).parents.isEmpty = true := by
    -- Either a base of the class is above it, or it lies on the circle itself.
    have hbase : ∃ base, now.Derives id base := by
      rcases ReflTransGen.cases_head above with rfl | ⟨base, derives, -⟩
      · obtain ⟨base, derives, -⟩ := TransGen.head'_iff.mp circle
        exact ⟨base, derives⟩
      · exact ⟨base, derives⟩
    obtain ⟨base, derives⟩ := hbase
    obtain ⟨link, listed, -⟩ := List.mem_map.mp derives
    intro none
    rw [List.isEmpty_iff.mp none] at listed
    exact absurd listed List.not_mem_nil
  refine ⟨on, above, circle, .read ?_⟩
  rw [if_neg hparents]
  exact hcheck.bind_error _

/-- Without circles the bases are searched, if there are any and the class did not supply enough. -/
theorem addInherited_of_acyclic (acyclic : now.AcyclicBases id) (collected : Found) (trail : Trail) :
    addInherited query id collected trail now = .ok (collected, trail) now ∨
      ∃ proved, addInherited query id collected trail now =
        (if query.isSatisfied collected then Pure.pure collected
          else do
            let inherited ← lookupInParents query id
            Pure.pure (collected.fill inherited) : Search Found) { trail with acyclic := proved } now := by
  obtain ⟨proved, hcheck⟩ := ends_checkInheritance acyclic trail
  by_cases parentless : (now.symbol id).parents.isEmpty = true
  · left
    show (if (now.symbol id).parents.isEmpty then _ else _ : Search Found) trail now = _
    rw [if_pos parentless]
    rfl
  · right
    refine ⟨proved, ?_⟩
    show (if (now.symbol id).parents.isEmpty then _ else _ : Search Found) trail now = _
    rw [if_neg parentless]
    exact hcheck.bind_apply _

section Stay

variable (holds : table.Holds query.options origin inv)

include holds

/-- Without circles, completing what a class supplies reports none. -/
theorem addInherited_uncircular (acyclic : table.AcyclicBases origin) (hnow : inv now) {collected : Found}
    {error : SemanticError} {after : Table}
    (failed : addInherited query origin collected trail now = .error (.error error) after) :
    error.code ≠ .circularInheritance := by
  have hacyclic : now.AcyclicBases origin := by
    rw [← not_circularAbove_iff, (holds.bases now hnow).circularAbove_iff, not_circularAbove_iff]
    exact acyclic
  have hspares : Spares inv (if query.isSatisfied collected then Pure.pure collected
      else do
        let inherited ← lookupInParents query origin
        Pure.pure (collected.fill inherited)) := by
    split
    · exact .pure _
    · exact (spares_lookupInParents holds acyclic).bind fun _ => .pure _
  rcases addInherited_of_acyclic hacyclic collected trail with hdone | ⟨proved, hrest⟩
  · rw [hdone] at failed
    cases failed
  · have hends := hspares { trail with acyclic := proved } now hnow
    rw [SparesAt, ← hrest, failed] at hends
    exact hends

/-- A search in one scope without circles above it reports none. -/
theorem lookupIn_uncircular (acyclic : table.AcyclicBases origin) {error : SemanticError} {after : Table}
    (failed : lookupIn query origin trail table = .error (.error error) after) :
    error.code ≠ .circularInheritance := by
  obtain ⟨hits, hsearch⟩ := lookupIn_hits query table origin trail
  have hcollect := spares_collectLevel holds.folds hits trail table holds.start
  unfold SparesAt at hcollect
  rw [hsearch] at failed
  cases hlevel : collectLevel query hits trail table with
  | ok found now =>
      rw [hlevel] at hcollect
      have hbind : (collectLevel query hits >>= addInherited query origin) trail table =
          addInherited query origin found.1 found.2 now := Analysis.bind_ok hlevel
      exact addInherited_uncircular holds acyclic hcollect.1 (hbind ▸ failed)
  | error interrupt now =>
      rw [hlevel] at hcollect
      have hbind : (collectLevel query hits >>= addInherited query origin) trail table =
          .error interrupt now := Analysis.bind_error hlevel
      rw [hbind] at failed
      cases failed
      exact hcollect

/-- A search in one scope with a circle above it does not succeed. -/
theorem lookupIn_circular (circular : table.CircularAbove origin) (begins : trail.acyclic = [])
    (found : Found × Trail) (after : Table) : lookupIn query origin trail table ≠ .ok found after := by
  intro succeeded
  obtain ⟨hits, hsearch⟩ := lookupIn_hits query table origin trail
  have hcollect := spares_collectLevel holds.folds hits trail table holds.start
  unfold SparesAt at hcollect
  rw [hsearch] at succeeded
  cases hlevel : collectLevel query hits trail table with
  | ok collected now =>
      rw [hlevel] at hcollect
      have hbind : (collectLevel query hits >>= addInherited query origin) trail table =
          addInherited query origin collected.1 collected.2 now := Analysis.bind_ok hlevel
      have hproved : now.Proved collected.2.acyclic := by
        rw [hcollect.2, begins]
        exact .nil now
      have hcircular := (holds.bases now hcollect.1).circularAbove_iff.mpr circular
      obtain ⟨on, -, -, hends⟩ := ends_addInherited_circular hproved hcircular collected.1
      have hfailed : addInherited query origin collected.1 collected.2 now = .error _ now := hends
      rw [hbind, hfailed] at succeeded
      cases succeeded
  | error interrupt now =>
      have hbind : (collectLevel query hits >>= addInherited query origin) trail table =
          .error interrupt now := Analysis.bind_error hlevel
      rw [hbind] at succeeded
      cases succeeded

end Stay

/-- A class that settles its own declarations passes on the circle above it. -/
theorem ends_lookupIn_circular (exact : query.IsExact)
    (isClass : (table.symbol origin).type.kind.isClass = true) (settles : table.Settles query origin)
    (circular : table.CircularAbove origin) (isProved : table.Proved trail.acyclic) :
    ∃ on, ReflTransGen table.Derives origin on ∧ TransGen table.Derives on on ∧
      (lookupIn query origin).Ends table trail (.error (table.circular on)) := by
  have hkind : ((table.symbol origin).type.kind == .nspace) = false := by
    rw [beq_eq_false_iff_ne]
    intro same
    rw [same] at isClass
    cases isClass
  have hlevel := ends_collectLevel exact table trail (table.scopeHits_named exact origin)
  rw [show table.settle query.name ((table.scopeHits query origin).map (·.2)) = _ from
    settles.settle_eq] at hlevel
  obtain ⟨on, above, circle, hends⟩ := ends_addInherited_circular isProved circular
    (Found.under query.name (table.supply query origin))
  refine ⟨on, above, circle, Ends.congr (hlevel.bind_ok hends) (lookupIn_alone ?_ trail)⟩
  rw [hkind, Bool.false_and]

end Check

end Search

/-! ## The lookup -/

namespace Analysis

open Table

variable {table : Table} {start origin : SymbolId} {name : Name} {options : LookupOptions}

/-- Circular inheritance is found exactly.  Whatever classes the earlier checks of a lookup have proved free
of circles, the check of a class succeeds or reports circular inheritance, and it reports it exactly if a
circle can be reached from the class; once it has succeeded, the search of the bases does not report it.  So
a qualified lookup in a class with a circle above it fails, even if the class supplies the name itself; if
it makes no instances and the declarations of the class do not exclude each other, then with circular
inheritance.  Without a circle a qualified lookup never reports one. -/
theorem circular_inheritance_found_exactly (table : Table) (origin : SymbolId) :
    (∀ earlier known : List SymbolId, earlier.foldlM table.checkAcyclic [] = .ok known →
      ((∃ name, table.checkAcyclic known origin = .error (.circularInheritance name)) ↔
        table.CircularAbove origin) ∧
      ((∃ proved, table.checkAcyclic known origin = .ok proved) ↔ ¬ table.CircularAbove origin) ∧
      ∀ query : Query, table.BasesStay query.options origin →
        (∃ proved, table.checkAcyclic known origin = .ok proved) →
          ∀ trail name after, Search.lookupInParents query origin trail table ≠
            .error (.error (.circularInheritance name)) after) ∧
    ∀ start name options, options.qualified = true → table.resolveNamespace start = origin →
      table.BasesStay options origin →
      (table.CircularAbove origin →
        (∀ result after, lookup start name options table ≠ .ok result after) ∧
        (options.IsExact → (table.symbol origin).type.kind.isClass = true →
          table.Settles (table.query name options) origin →
            ∃ other, lookup start name options table = .error (.error (.circularInheritance other)) table)) ∧
      (¬ table.CircularAbove origin → ∀ other after,
        lookup start name options table ≠ .error (.error (.circularInheritance other)) after) := by
  refine ⟨fun earlier known checked => ?_, ?_⟩
  · have hproved := (Proved.nil table).checks checked
    refine ⟨hproved.checkAcyclic_error_iff origin, hproved.checkAcyclic_ok_iff origin, ?_⟩
    rintro query stay succeeded trail name after failed
    obtain ⟨inv, holds⟩ := stay.holds
    have hacyclic := not_circularAbove_iff.mp ((hproved.checkAcyclic_ok_iff origin).mp succeeded)
    have hends := Search.spares_lookupInParents holds hacyclic trail table holds.start
    rw [Search.SparesAt, failed] at hends
    exact hends rfl
  · rintro start name options qualified rfl stay
    obtain ⟨inv, holds⟩ := stay.holds
    refine ⟨fun circular => ⟨fun result after succeeded => ?_, fun exact isClass settles => ?_⟩, ?_⟩
    · obtain ⟨found, hanswer, -⟩ := answer_of_lookup_ok succeeded
      rw [answer_qualified qualified] at hanswer
      exact Search.lookupIn_circular holds circular rfl found after hanswer
    · have hbegins : table.Proved ({ fresh := table.ids } : Trail).acyclic := .nil table
      obtain ⟨on, -, -, hends⟩ := Search.ends_lookupIn_circular (exact.query table name) isClass settles
        circular hbegins
      exact ⟨_, lookup_of_error exact (hends.congr (answer_qualified qualified _))⟩
    · intro acyclic other after failed
      have hanswer := answer_of_lookup_error failed
      rw [answer_qualified qualified] at hanswer
      exact Search.lookupIn_uncircular holds (not_circularAbove_iff.mp acyclic) hanswer rfl

/-- The class 1, which has an object, and the class 3 derive from each other, through the typedef 4 of the
first one.  The class 7 derives from the class 5 in two ways. -/
def circleTable : Table :=
  finalTable (Table.new {}) do
    let first ← createClass ⟨18⟩ .cls
    let object ← createBasic ⟨17⟩ (.ofKind .int)
    addSymbol first object
    let second ← createClass ⟨19⟩ .cls
    let synonym ← createBasic ⟨20⟩
      ((Descriptor.ofSymbol first).withFlags { specifiers := { isTypedef := true } })
    addParent second synonym .pub false
    addParent first second .pub false
    let top ← createClass ⟨21⟩ .cls
    let side ← createClass ⟨22⟩ .cls
    addParent side top .pub false
    let bottom ← createClass ⟨23⟩ .cls
    addParent bottom top .pub false
    addParent bottom side .pub false

/-- The check of the last class remembers three classes and does not hide the circle.  The lookup of the
object fails in the first class, which has it; in the last class no circle is reported. -/
theorem circle_found_beside_diamond :
    [(⟨7⟩ : SymbolId)].foldlM circleTable.checkAcyclic [] = .ok [⟨7⟩, ⟨6⟩, ⟨5⟩] ∧
      (∃ name, circleTable.checkAcyclic [⟨7⟩, ⟨6⟩, ⟨5⟩] ⟨1⟩ = .error (.circularInheritance name)) ∧
      (∃ other, lookup ⟨1⟩ ⟨17⟩ { qualified := true } circleTable =
        .error (.error (.circularInheritance other)) circleTable) ∧
      ∀ other after, lookup ⟨7⟩ ⟨17⟩ { qualified := true } circleTable ≠
        .error (.error (.circularInheritance other)) after := by
  have hchecked : [(⟨7⟩ : SymbolId)].foldlM circleTable.checkAcyclic [] = .ok [⟨7⟩, ⟨6⟩, ⟨5⟩] := by
    cbv
  have hcircular : circleTable.CircularAbove ⟨1⟩ := by
    have hlinks : circleTable.Derives ⟨1⟩ ⟨3⟩ ∧ circleTable.Derives ⟨3⟩ ⟨1⟩ := by
      unfold Table.Derives
      decide +kernel
    exact ⟨⟨1⟩, .refl, .tail (.single hlinks.1) hlinks.2⟩
  have hacyclic : ¬ circleTable.CircularAbove ⟨7⟩ :=
    ((Proved.nil circleTable).checkAcyclic_ok_iff ⟨7⟩).mp ⟨[⟨7⟩, ⟨6⟩, ⟨5⟩], by cbv⟩
  have hresolved : ∀ id : SymbolId, id = ⟨1⟩ ∨ id = ⟨7⟩ → circleTable.resolveNamespace id = id := by
    rintro id (rfl | rfl) <;> decide +kernel
  have hexact : LookupOptions.IsExact { qualified := true } := ⟨rfl, rfl⟩
  have hstay : ∀ origin, circleTable.BasesStay { qualified := true } origin := fun _ => .inl (.inl rfl)
  have hfirst := circular_inheritance_found_exactly circleTable ⟨1⟩
  have hlast := circular_inheritance_found_exactly circleTable ⟨7⟩
  refine ⟨hchecked, (hfirst.1 [⟨7⟩] _ hchecked).1.mpr hcircular, ?_, ?_⟩
  · exact ((hfirst.2 ⟨1⟩ ⟨17⟩ _ rfl (hresolved _ (.inl rfl)) (hstay _)).1 hcircular).2 hexact
      (by decide +kernel) (by decide +kernel)
  · exact (hlast.2 ⟨7⟩ ⟨17⟩ _ rfl (hresolved _ (.inr rfl)) (hstay _)).2 hacyclic

end Analysis

end NameBinding
