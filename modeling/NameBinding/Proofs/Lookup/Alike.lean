import NameBinding.Proofs.Lookup.Inherited
import NameBinding.Proofs.Lookup.Merging

/-!
# Two lookups side by side

A lookup is made in two tables that differ in the order of using-directives.  Step by step the two searches
end alike, with related values or with the same error.

* `Table.ReordersDirectives`: the tables differ in the order of using-directives at most.
* `Found.Alike`: the same names are found, with the same entities in perhaps another order.
* `Search.Alike`: from their tables and trails, two steps end alike.
* `Trail.Along`: the values are related, and the searches remember the same, apart from the directives that
  wait, which the step leaves alone.

The main statement is `alike_addInherited`: base classes contribute the same in both tables, whatever the
inheritance graph.
-/

namespace NameBinding

/-- The tables differ in the order of using-directives at most. -/
structure Table.ReordersDirectives (table other : Table) : Prop where
  skeleton : table.SameSkeleton other
  parents : ∀ id, (other.symbol id).parents = (table.symbol id).parents
  directives : ∀ id, (table.symbol id).directives.Perm (other.symbol id).directives

/-- What the searches remember differs in the directives that wait: `pending` on one side and `pending'` on
the other. -/
structure Trail.Beside (fresh : List SymbolId) (pending pending' : List (SymbolId × SymbolId))
    (trail trail' : Trail) : Prop where
  fresh : trail.fresh = fresh
  pending : trail.pending = pending
  others : trail' = { trail with pending := pending' }

/-- The searches found related values, and remember the same apart from the directives that wait. -/
def Trail.Along {α : Type} (fresh : List SymbolId) (pending pending' : List (SymbolId × SymbolId))
    (values : α → α → Prop) (found found' : α × Trail) : Prop :=
  values found.1 found'.1 ∧ Beside fresh pending pending' found.2 found'.2

/-! ## Found alike -/

namespace Found

/-- The same names are found, each with the same entities in perhaps another order. -/
def Alike : Found → Found → Prop :=
  List.Forall₂ fun entry entry' => entry.1 = entry'.1 ∧ entry.2.Perm entry'.2

variable {found found' inherited : Found} {ids ids' : List SymbolId}

theorem Alike.refl (found : Found) : found.Alike found :=
  List.forall₂_same.mpr fun _ _ => ⟨rfl, .refl _⟩

theorem alike_under (name : Name) (perm : ids.Perm ids') : (under name ids).Alike (under name ids') := by
  cases ids with
  | nil => rw [perm.symm.eq_nil]; exact .nil
  | cons id rest =>
      have hnonempty : ids' ≠ [] := fun none => List.cons_ne_nil id rest (none ▸ perm).eq_nil
      rw [under_of_ne_nil (List.cons_ne_nil id rest), under_of_ne_nil hnonempty]
      exact .cons ⟨rfl, perm⟩ .nil

theorem Alike.isSome_lookup (alike : found.Alike found') (name : Name) :
    (found'.lookup name).isSome = (found.lookup name).isSome := by
  induction alike with
  | nil => rfl
  | @cons entry entry' rest rest' same _ ih =>
      rw [List.lookup_cons, List.lookup_cons, same.1]
      split
      · rfl
      · exact ih

theorem Alike.isSatisfied_eq (alike : found.Alike found') (query : Query) :
    query.isSatisfied found' = query.isSatisfied found := by
  rw [Query.isSatisfied, Query.isSatisfied, alike.isSome_lookup]

/-- The first name is found with the same entities. -/
theorem Alike.mem_symbols (alike : found.Alike found') (ambiguous ambiguous' : List Name) (id : SymbolId) :
    id ∈ LookupResult.symbols ⟨found, ambiguous⟩ ↔ id ∈ LookupResult.symbols ⟨found', ambiguous'⟩ := by
  cases alike with
  | nil => rfl
  | cons same _ => exact same.2.mem_iff

/-- What is filled in is the same. -/
theorem Alike.fill {other other' : Found} (alike : found.Alike found') (more : other.Alike other') :
    (found.fill other).Alike (found'.fill other') := by
  have hmissing : ∀ name, (found'.lookup name).isNone = (found.lookup name).isNone := by
    intro name
    rw [← Option.not_isSome, ← Option.not_isSome, alike.isSome_lookup]
  refine List.rel_append alike ?_
  induction more with
  | nil => exact .nil
  | @cons entry entry' rest rest' same _ ih =>
      rw [List.filter_cons, List.filter_cons, ← same.1, hmissing]
      split
      · exact .cons same ih
      · exact ih

end Found

/-! ## Steps in general -/

namespace Search

variable {table other : Table} {α β : Type} {trail trail' : Trail}

/-- From their tables and trails the two steps end alike. -/
def Alike (table other : Table) (related : α × Trail → α × Trail → Prop) (search search' : Search α)
    (trail trail' : Trail) : Prop :=
  ∃ outcome outcome', search.Ends table trail outcome ∧ search'.Ends other trail' outcome' ∧
    EndAlike related outcome outcome'

namespace Alike

variable {related : α × Trail → α × Trail → Prop} {search search' : Search α}

theorem pure {value value' : α} (relates : related (value, trail) (value', trail')) :
    Alike table other related (Pure.pure value) (Pure.pure value') trail trail' :=
  ⟨_, _, .pure value, .pure value', .ok relates⟩

theorem fail (error : SemanticError) : Alike table other related
    (liftM (Analysis.fail error : Analysis α)) (liftM (Analysis.fail error : Analysis α)) trail trail' :=
  ⟨_, _, .fail error, .fail error, .error error⟩

theorem mono {weaker : α × Trail → α × Trail → Prop}
    (alike : Alike table other related search search' trail trail')
    (weaken : ∀ found found', related found found' → weaker found found') :
    Alike table other weaker search search' trail trail' := by
  obtain ⟨outcome, outcome', hends, hends', halike⟩ := alike
  refine ⟨outcome, outcome', hends, hends', ?_⟩
  cases halike with
  | ok relates => exact .ok (weaken _ _ relates)
  | error error => exact .error error

/-- Each step may be replaced by one that comes to the same. -/
theorem congr {same same' : Search α} (alike : Alike table other related same same' trail trail')
    (first : search trail table = same trail table) (second : search' trail' other = same' trail' other) :
    Alike table other related search search' trail trail' := by
  obtain ⟨outcome, outcome', hends, hends', halike⟩ := alike
  exact ⟨outcome, outcome', hends.congr first, hends'.congr second, halike⟩

/-- Nothing comes after a failure. -/
theorem fail_bind {after : β × Trail → β × Trail → Prop} {next next' : α → Search β}
    (error : SemanticError) : Alike table other after
      (liftM (Analysis.fail error : Analysis α) >>= next)
      (liftM (Analysis.fail error : Analysis α) >>= next') trail trail' :=
  ⟨.error error, .error error, rfl, rfl, .error error⟩

/-- Going on after steps that end alike. -/
theorem bind {after : β × Trail → β × Trail → Prop} {next next' : α → Search β}
    (first : Alike table other related search search' trail trail')
    (second : ∀ found found', related found found' →
      Alike table other after (next found.1) (next' found'.1) found.2 found'.2) :
    Alike table other after (search >>= next) (search' >>= next') trail trail' := by
  obtain ⟨outcome, outcome', hends, hends', halike⟩ := first
  cases halike with
  | error error =>
      have hfirst : search trail table = .error (.error error) table := hends
      have hfirst' : search' trail' other = .error (.error error) other := hends'
      exact ⟨.error error, .error error, Analysis.bind_error hfirst, Analysis.bind_error hfirst',
        .error error⟩
  | ok relates =>
      obtain ⟨last, last', hlast, hlast', hafter⟩ := second _ _ relates
      exact ⟨last, last', hends.bind_ok hlast, hends'.bind_ok hlast', hafter⟩

/-- Going on with the tables that were read. -/
theorem read {next next' : Table → Search α}
    (second : Alike table other related (next table) (next' other) trail trail') :
    Alike table other related (Search.table >>= next) (Search.table >>= next') trail trail' := by
  obtain ⟨outcome, outcome', hends, hends', halike⟩ := second
  exact ⟨outcome, outcome', .read hends, .read hends', halike⟩

/-- Going on with the trails that were read. -/
theorem get {next next' : Trail → Search α}
    (second : Alike table other related (next trail) (next' trail') trail trail') :
    Alike table other related (MonadState.get >>= next) (MonadState.get >>= next') trail trail' := by
  obtain ⟨outcome, outcome', hends, hends', halike⟩ := second
  exact ⟨outcome, outcome', .get hends, .get hends', halike⟩

/-- Going on after the trails were replaced. -/
theorem set {next next' : PUnit → Search α} {after after' : Trail}
    (second : Alike table other related (next ⟨⟩) (next' ⟨⟩) after after') :
    Alike table other related (MonadStateOf.set after >>= next) (MonadStateOf.set after' >>= next')
      trail trail' := by
  obtain ⟨outcome, outcome', hends, hends', halike⟩ := second
  exact ⟨outcome, outcome', .set hends, .set hends', halike⟩

/-- Two loops over one list, every round of which ends alike. -/
theorem foldlM {list : List β} {step step' : α → β → Search α} {value value' : α}
    (each : ∀ element ∈ list, ∀ found found', related found found' →
      Alike table other related (step found.1 element) (step' found'.1 element) found.2 found'.2)
    (start : related (value, trail) (value', trail')) :
    Alike table other related (list.foldlM step value) (list.foldlM step' value') trail trail' := by
  induction list generalizing value value' trail trail' with
  | nil => exact .pure start
  | cons element rest ih =>
      rw [List.foldlM_cons, List.foldlM_cons]
      refine (each element List.mem_cons_self (value, trail) (value', trail') start).bind ?_
      intro found found' relates
      exact ih (fun later member => each later (List.mem_cons_of_mem element member)) relates

end Alike

end Search

/-! ## Base classes -/

namespace Table.ReordersDirectives

variable {table other : Table} (reorders : table.ReordersDirectives other)

include reorders

theorem bases_eq (id : SymbolId) : other.bases id = table.bases id := by
  simp only [bases, reorders.parents, reorders.skeleton.classOf_eq]

theorem circular_eq (id : SymbolId) : other.circular id = table.circular id := by
  rw [circular, circular, reorders.skeleton.name_eq]

theorem checkAcyclic_eq (acyclic : List SymbolId) (id : SymbolId) :
    other.checkAcyclic acyclic id = table.checkAcyclic acyclic id := by
  have hfrom : ∀ depth, other.checkAcyclicFrom depth = table.checkAcyclicFrom depth := by
    intro depth
    induction depth with
    | zero =>
        funext path acyclic id
        rw [checkAcyclicFrom, checkAcyclicFrom, reorders.circular_eq]
    | succ depth ih =>
        funext path acyclic id
        simp only [checkAcyclicFrom, reorders.circular_eq, reorders.bases_eq, ih]
  rw [checkAcyclic, checkAcyclic, reorders.skeleton.size, hfrom]

end Table.ReordersDirectives

namespace Search

variable {table other : Table} {query : Query} {fresh : List SymbolId}
  {pending pending' : List (SymbolId × SymbolId)} {trail trail' : Trail}

/-- Levels whose declarations amount to related entities end alike. -/
theorem alike_collectLevel (exact : query.IsExact) {hits hits' : List Hit}
    {related : Found × Trail → Found × Trail → Prop} {entities : List SymbolId → List SymbolId → Prop}
    (named : ∀ hit ∈ hits, hit.1 = query.name) (named' : ∀ hit ∈ hits', hit.1 = query.name)
    (settled : EndAlike entities (table.settle query.name (hits.map (·.2)))
      (other.settle query.name (hits'.map (·.2))))
    (relates : ∀ ids ids', entities ids ids' →
      related (Found.under query.name ids, trail) (Found.under query.name ids', trail')) :
    Alike table other related (collectLevel query hits) (collectLevel query hits') trail trail' := by
  have hends := ends_collectLevel exact table trail named
  have hends' := ends_collectLevel exact other trail' named'
  generalize table.settle query.name (hits.map (·.2)) = ended at hends settled
  generalize other.settle query.name (hits'.map (·.2)) = ended' at hends' settled
  cases settled with
  | ok alike => exact ⟨_, _, hends, hends', .ok (relates _ _ alike)⟩
  | error error => exact ⟨_, _, hends, hends', .error error⟩

section Bases

variable (reorders : table.ReordersDirectives other)

include reorders

theorem alike_checkInheritance (id : SymbolId)
    (beside : Trail.Beside fresh pending pending' trail trail') :
    Alike table other (Trail.Along fresh pending pending' Eq) (checkInheritance id)
      (checkInheritance id) trail trail' := by
  refine .read (.get ?_)
  rw [beside.others]
  dsimp only
  rw [reorders.checkAcyclic_eq]
  cases table.checkAcyclic trail.acyclic id with
  | error error => exact .fail_bind error
  | ok acyclic => exact ⟨_, _, .set (.pure _), .set (.pure _), .ok ⟨rfl, beside.fresh, beside.pending, rfl⟩⟩

variable (exact : query.IsExact)

include exact

theorem alike_mergeSibling (merged found : Found)
    (beside : Trail.Beside fresh pending pending' trail trail') :
    Alike table other (Trail.Along fresh pending pending' Eq) (mergeSibling query merged found)
      (mergeSibling query merged found) trail trail' := by
  refine .foldlM ?_ ⟨rfl, beside⟩
  rintro entry - ⟨merged, trail⟩ ⟨merged', trail'⟩ ⟨rfl, beside⟩
  refine .read ?_
  have hshared : (entry.2.all other.isPathIndependent) = entry.2.all table.isPathIndependent :=
    congrArg entry.2.all (funext reorders.skeleton.isPathIndependent_eq)
  rw [hshared]
  cases merged.lookup entry.1 with
  | none => exact .pure ⟨rfl, beside⟩
  | some known =>
      dsimp only
      split
      · exact .pure ⟨rfl, beside⟩
      · rw [ambiguity, exact.not_completing]
        exact .fail_bind _

variable (agrees : query.options.filter.Agrees table other)

include agrees

/-- What a base supplies itself is the same. -/
theorem alike_scopeHits (parent : SymbolId) (beside : Trail.Beside fresh pending pending' trail trail') :
    Alike table other (Trail.Along fresh pending pending' Eq)
      (collectLevel query (table.scopeHits query parent))
      (collectLevel query (other.scopeHits query parent)) trail trail' := by
  rw [reorders.skeleton.scopeHits_eq exact agrees]
  have hnamed := table.scopeHits_named exact parent
  have hsettle : EndAlike Eq (table.settle query.name ((table.scopeHits query parent).map (·.2)))
      (other.settle query.name ((table.scopeHits query parent).map (·.2))) := by
    rw [reorders.skeleton.settle_eq]
    exact .refl (fun _ => rfl) _
  exact alike_collectLevel exact hnamed hnamed hsettle fun ids ids' same =>
    ⟨congrArg (Found.under query.name) same, beside⟩

theorem alike_searchBase {deeper : SymbolId → Search Found} {parent : SymbolId}
    (below : ∀ trail trail', Trail.Beside fresh pending pending' trail trail' →
      Alike table other (Trail.Along fresh pending pending' Eq) (deeper parent) (deeper parent) trail trail')
    (beside : Trail.Beside fresh pending pending' trail trail') :
    Alike table other (Trail.Along fresh pending pending' Eq) (searchBase query deeper parent)
      (searchBase query deeper parent) trail trail' := by
  refine .read ((alike_scopeHits reorders exact agrees parent beside).bind ?_)
  rintro ⟨found, trail⟩ ⟨found', trail'⟩ ⟨rfl, beside⟩
  refine .read ?_
  rw [reorders.parents]
  split
  · exact .pure ⟨rfl, beside⟩
  · refine (below trail trail' beside).bind ?_
    rintro ⟨inherited, trail⟩ ⟨inherited', trail'⟩ ⟨rfl, beside⟩
    exact .pure ⟨rfl, beside⟩

theorem alike_followLink {deeper : SymbolId → Search Found} {path : List SymbolId} (merged : Found)
    (link : BaseLink)
    (below : ∀ parent trail trail', Trail.Beside fresh pending pending' trail trail' →
      Alike table other (Trail.Along fresh pending pending' Eq) (deeper parent) (deeper parent) trail trail')
    (beside : Trail.Beside fresh pending pending' trail trail') :
    Alike table other (Trail.Along fresh pending pending' Eq) (followLink query deeper path merged link)
      (followLink query deeper path merged link) trail trail' := by
  refine .read (.get ?_)
  have hvirtual : trail'.virtualBases = trail.virtualBases := by rw [beside.others]
  dsimp only
  rw [reorders.skeleton.classOf_eq, reorders.skeleton.type_eq, reorders.circular_eq, hvirtual]
  have hbase : ∀ trail trail', Trail.Beside fresh pending pending' trail trail' →
      Alike table other (Trail.Along fresh pending pending' Eq)
        (searchBase query deeper (table.classOf link.parent) >>= mergeSibling query merged)
        (searchBase query deeper (table.classOf link.parent) >>= mergeSibling query merged)
        trail trail' := by
    intro trail trail' beside
    refine (alike_searchBase reorders exact agrees (below _) beside).bind ?_
    rintro ⟨found, trail⟩ ⟨found', trail'⟩ ⟨rfl, beside⟩
    exact alike_mergeSibling reorders exact merged found beside
  split
  · exact .pure ⟨rfl, beside⟩
  · split
    · exact .fail _
    · split
      · exact .pure ⟨rfl, beside⟩
      · cases link.isVirtual with
        | false => exact hbase trail trail' beside
        | true =>
            refine .set (hbase _ _ ⟨beside.fresh, beside.pending, ?_⟩)
            rw [beside.others]

theorem alike_searchParents {depth : Nat} {path : List SymbolId} {id : SymbolId}
    (beside : Trail.Beside fresh pending pending' trail trail') :
    Alike table other (Trail.Along fresh pending pending' Eq) (searchParents query depth path id)
      (searchParents query depth path id) trail trail' := by
  -- Both searches come along the same path, so that they run out of depth together.
  induction depth generalizing path id trail trail' with
  | zero =>
      refine .read ?_
      rw [reorders.circular_eq]
      exact .fail _
  | succ depth ih =>
      rw [searchParents_succ]
      refine .read ?_
      rw [reorders.parents]
      refine .foldlM ?_ ⟨rfl, beside⟩
      rintro link - ⟨merged, trail⟩ ⟨merged', trail'⟩ ⟨rfl, beside⟩
      exact alike_followLink reorders exact agrees merged link (fun _ _ _ => ih) beside

theorem alike_lookupInParents (id : SymbolId)
    (beside : Trail.Beside fresh pending pending' trail trail') :
    Alike table other (Trail.Along fresh pending pending' Eq) (lookupInParents query id)
      (lookupInParents query id) trail trail' := by
  refine .read ?_
  rw [reorders.skeleton.size]
  exact alike_searchParents reorders exact agrees beside

/-- Base classes contribute the same to levels that found alike. -/
theorem alike_addInherited (scope : SymbolId) {collected collected' : Found}
    (alike : collected.Alike collected') (beside : Trail.Beside fresh pending pending' trail trail') :
    Alike table other (Trail.Along fresh pending pending' Found.Alike)
      (addInherited query scope collected) (addInherited query scope collected') trail trail' := by
  refine .read ?_
  rw [reorders.parents]
  split
  · exact .pure ⟨alike, beside⟩
  · refine (alike_checkInheritance reorders scope beside).bind ?_
    rintro ⟨_, trail⟩ ⟨_, trail'⟩ ⟨-, beside⟩
    dsimp only
    rw [alike.isSatisfied_eq]
    split
    · exact .pure ⟨alike, beside⟩
    · refine (alike_lookupInParents reorders exact agrees scope beside).bind ?_
      rintro ⟨inherited, trail⟩ ⟨inherited', trail'⟩ ⟨rfl, beside⟩
      exact .pure ⟨alike.fill (.refl inherited), beside⟩

end Bases

end Search

end NameBinding
