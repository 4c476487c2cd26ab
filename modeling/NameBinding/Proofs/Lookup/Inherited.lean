import NameBinding.Proofs.Inheritance.Acyclic
import NameBinding.Proofs.Inheritance.Surveys
import NameBinding.Proofs.Table.Skeleton

/-!
# Inherited lookup counts base subobjects

When a class does not supply a name itself, what counts are the base subobjects that supply it and that
are not hidden behind a class that supplies it too.  Several of them agree if they supply the same
entities and these do not depend on the path, as static members and types.

* `Table.classBases`: the direct bases of a class without the dependent ones.
* `Table.supply`: the entities that a class itself has for a query.
* `Table.IsHit`: the base subobjects that count, and `Table.Conflict`, that two of them do not agree.
* `Table.CleanBases`: there is no circular inheritance, and no class declares the name ambiguously.
* `Search.ends_searchParents`: the search collates the subobjects that an exploration of the bases meets.

The main statement is `inherited_lookup_counts_subobjects`.
-/

namespace NameBinding

open Relation

namespace Table

variable {table : Table} {query : Query} {origin id base : SymbolId}

/-- The base that a link leads to, and whether the link is virtual; nothing for a dependent base. -/
def classBase? (table : Table) (link : BaseLink) : Option (SymbolId × Bool) :=
  if (table.symbol (table.classOf link.parent)).type.kind.isClass then
    some (table.classOf link.parent, link.isVirtual)
  else none

/-- The direct bases of a class without the dependent ones, each with whether it is virtual. -/
def classBases (table : Table) (id : SymbolId) : List (SymbolId × Bool) :=
  (table.symbol id).parents.filterMap table.classBase?

/-- The entities that a class itself has for a query. -/
def supply (table : Table) (query : Query) (id : SymbolId) : List SymbolId :=
  table.entities (table.answers query id)

theorem nodup_supply (table : Table) (query : Query) (id : SymbolId) : (table.supply query id).Nodup :=
  table.nodup_entities _

/-- The declarations that a class itself has for a query do not exclude each other. -/
def Settles (table : Table) (query : Query) (id : SymbolId) : Prop :=
  (table.classify (table.answers query id)).isAmbiguous = false

instance (table : Table) (query : Query) (id : SymbolId) : Decidable (table.Settles query id) :=
  inferInstanceAs (Decidable (_ = false))

/-- A class settles its own declarations. -/
theorem Settles.settle_eq (settles : table.Settles query id) :
    table.settle query.name (table.answers query id) = .ok (table.supply query id) := by
  rw [settle, settles]
  rfl

/-- Declarations that exclude each other do not all hide each other. -/
theorem supply_ne_nil_of_not_settles (unsettled : ¬ table.Settles query id) :
    table.supply query id ≠ [] :=
  Candidates.entities_ne_nil_of_isAmbiguous (by simpa [Settles] using unsettled)

/-- The subobject of `origin` is of a class that supplies what the query looks for, and a path leads to it
along which no earlier class does. -/
def IsHit (table : Table) (query : Query) (origin : SymbolId) (sub : Subobject) (id : SymbolId) : Prop :=
  Exposed table.classBases (table.supply query) origin sub id ∧ table.supply query id ≠ []

/-- What two subobjects supply is the same set of entities, none of which depends on the path. -/
def Agree (table : Table) (some others : List SymbolId) : Prop :=
  (some ⊆ others ∧ others ⊆ some) ∧ ∀ id ∈ some, table.isPathIndependent id = true

instance (table : Table) (some others : List SymbolId) : Decidable (table.Agree some others) :=
  inferInstanceAs (Decidable ((some ⊆ others ∧ others ⊆ some) ∧ _))

/-- Two different subobjects that count do not agree. -/
def Conflict (table : Table) (query : Query) (origin : SymbolId) : Prop :=
  ∃ first second id other, table.IsHit query origin first id ∧ table.IsHit query origin second other ∧
    first ≠ second ∧ ¬ table.Agree (table.supply query id) (table.supply query other)

/-- A class has another one as a direct base that is not dependent. -/
def HasBase (table : Table) (derived base : SymbolId) : Prop :=
  ∃ isVirtual, (base, isVirtual) ∈ table.classBases derived

theorem HasBase.derives (hasBase : table.HasBase id base) : table.Derives id base := by
  obtain ⟨isVirtual, listed⟩ := hasBase
  obtain ⟨link, hlink, isBase⟩ := List.mem_filterMap.mp listed
  unfold classBase? at isBase
  split at isBase
  · cases isBase
    exact List.mem_map.mpr ⟨link, hlink, rfl⟩
  · cases isBase

theorem derives_of_hasBase (above : ReflTransGen table.HasBase origin id) :
    ReflTransGen table.Derives origin id :=
  above.lift (fun other => other) fun _ _ => HasBase.derives

/-- Above a class without circles there are none either. -/
theorem AcyclicBases.of_hasBase (acyclic : table.AcyclicBases origin)
    (above : ReflTransGen table.HasBase origin id) : table.AcyclicBases id :=
  fun other further => acyclic other ((derives_of_hasBase above).trans further)

/-- Subobjects are of classes above the class that they are part of. -/
theorem hasBase_of_exposed {supply : SymbolId → List SymbolId} {sub : Subobject}
    (exposed : Exposed table.classBases supply origin sub id) : ReflTransGen table.HasBase origin id := by
  induction exposed with
  | whole => exact .refl
  | base _ _ listed ih =>
      exact ih.tail ⟨_, List.count_pos_iff.mp (Nat.zero_lt_of_lt listed)⟩

/-- There is no circular inheritance above a class, and no class above it has declarations of its own that
exclude each other. -/
structure CleanBases (table : Table) (query : Query) (origin : SymbolId) : Prop where
  acyclic : table.AcyclicBases origin
  unambiguous : ∀ id, ReflTransGen table.HasBase origin id →
    (table.classify (table.answers query id)).isAmbiguous = false

namespace CleanBases

theorem settles (clean : table.CleanBases query id) : table.Settles query id :=
  clean.unambiguous id .refl

end CleanBases

namespace Agree

variable {a b c : List SymbolId}

theorem symm (agree : table.Agree a b) : table.Agree b a :=
  ⟨agree.1.symm, fun id member => agree.2 id (agree.1.2 member)⟩

theorem trans (first : table.Agree a b) (second : table.Agree b c) : table.Agree a c :=
  ⟨⟨fun _ member => second.1.1 (first.1.1 member), fun _ member => first.1.2 (second.1.2 member)⟩,
    first.2⟩

/-- The search compares lists without duplicates by their lengths and one inclusion. -/
theorem iff_compared (table : Table) (nodup : a.Nodup) (nodup' : b.Nodup) :
    (a.length == b.length && b.all (· ∈ a) && b.all table.isPathIndependent) = true ↔
      table.Agree a b := by
  simp only [Bool.and_eq_true, beq_iff_eq, List.all_eq_true, decide_eq_true_eq]
  constructor
  · rintro ⟨⟨hlength, hsub⟩, hindependent⟩
    have hperm : b.Perm a := (List.subperm_of_subset nodup' hsub).perm_of_length_le hlength.le
    exact ⟨⟨hperm.symm.subset, hsub⟩, fun id member => hindependent id (hperm.symm.subset member)⟩
  · rintro ⟨⟨hsub, hsub'⟩, hindependent⟩
    have hperm : a.Perm b := (List.perm_ext_iff_of_nodup nodup nodup').mpr fun id =>
      ⟨fun member => hsub member, fun member => hsub' member⟩
    exact ⟨⟨hperm.length_eq, hsub'⟩, fun id member => hindependent id (hsub' member)⟩

end Agree

/-! ## Collating what was met -/

/-- Any two of the subobjects agree. -/
def Compatible (table : Table) (query : Query) (hits : List (Subobject × SymbolId)) : Prop :=
  hits.Pairwise fun a b => table.Agree (table.supply query a.2) (table.supply query b.2)

/-- The order of the subobjects does not matter. -/
theorem Compatible.agree {table : Table} {query : Query} {hits : List (Subobject × SymbolId)}
    (compatible : table.Compatible query hits) {a b : Subobject × SymbolId} (ha : a ∈ hits) (hb : b ∈ hits)
    (differ : a ≠ b) : table.Agree (table.supply query a.2) (table.supply query b.2) := by
  induction hits with
  | nil => exact absurd ha List.not_mem_nil
  | cons first rest ih =>
      obtain ⟨hfirst, hrest⟩ := List.pairwise_cons.mp compatible
      rcases List.mem_cons.mp ha with rfl | hlaterA <;> rcases List.mem_cons.mp hb with rfl | hlaterB
      · exact absurd rfl differ
      · exact hfirst b hlaterB
      · exact (hfirst a hlaterA).symm
      · exact ih hrest hlaterA hlaterB

instance (table : Table) (query : Query) (hits : List (Subobject × SymbolId)) :
    Decidable (table.Compatible query hits) :=
  inferInstanceAs (Decidable (hits.Pairwise _))

/-- What the first of the subobjects supplies. -/
def firstSupply (table : Table) (query : Query) : List (Subobject × SymbolId) → List SymbolId
  | [] => []
  | hit :: _ => table.supply query hit.2

/-- What subobjects supply together. -/
def collated (table : Table) (query : Query) (hits : List (Subobject × SymbolId)) :
    Except SemanticError Found :=
  if table.Compatible query hits then .ok (Found.under query.name (table.firstSupply query hits))
  else .error (.ambiguous query.name)

variable {earlier new hits : List (Subobject × SymbolId)}

theorem Compatible.left (compatible : table.Compatible query (earlier ++ new)) :
    table.Compatible query earlier :=
  (List.pairwise_append.mp compatible).1

theorem Compatible.right (compatible : table.Compatible query (earlier ++ new)) :
    table.Compatible query new :=
  (List.pairwise_append.mp compatible).2.1

theorem collated_of_not_compatible (incompatible : ¬ table.Compatible query hits) :
    table.collated query hits = .error (.ambiguous query.name) :=
  if_neg incompatible

theorem collated_of_compatible (compatible : table.Compatible query hits) :
    table.collated query hits = .ok (Found.under query.name (table.firstSupply query hits)) :=
  if_pos compatible

/-- The classes of the subobjects settle their own declarations, and any two of the subobjects agree. -/
def Concordant (table : Table) (query : Query) (hits : List (Subobject × SymbolId)) : Prop :=
  (∀ hit ∈ hits, table.Settles query hit.2) ∧ table.Compatible query hits

instance (table : Table) (query : Query) (hits : List (Subobject × SymbolId)) :
    Decidable (table.Concordant query hits) :=
  inferInstanceAs (Decidable (_ ∧ _))

/-- What a search reports that meets the subobjects. -/
def reported (table : Table) (query : Query) (hits : List (Subobject × SymbolId)) :
    Except SemanticError Found :=
  if table.Concordant query hits then .ok (Found.under query.name (table.firstSupply query hits))
  else .error (.ambiguous query.name)

theorem reported_of_not_concordant (discordant : ¬ table.Concordant query hits) :
    table.reported query hits = .error (.ambiguous query.name) :=
  if_neg discordant

theorem reported_of_concordant (concordant : table.Concordant query hits) :
    table.reported query hits = .ok (Found.under query.name (table.firstSupply query hits)) :=
  if_pos concordant

/-- Among classes that settle their own declarations, only the subobjects count. -/
theorem reported_eq_collated (settles : ∀ hit ∈ hits, table.Settles query hit.2) :
    table.reported query hits = table.collated query hits :=
  if_congr ⟨fun concordant => concordant.2, fun compatible => ⟨settles, compatible⟩⟩ rfl rfl

namespace Concordant

theorem nil (table : Table) (query : Query) : table.Concordant query [] :=
  ⟨fun _ member => absurd member List.not_mem_nil, .nil⟩

theorem singleton {hit : Subobject × SymbolId} (settles : table.Settles query hit.2) :
    table.Concordant query [hit] :=
  ⟨List.forall_mem_singleton.mpr settles, List.pairwise_singleton _ _⟩

theorem left (concordant : table.Concordant query (earlier ++ new)) : table.Concordant query earlier :=
  ⟨(List.forall_mem_append.mp concordant.1).1, concordant.2.left⟩

theorem right (concordant : table.Concordant query (earlier ++ new)) : table.Concordant query new :=
  ⟨(List.forall_mem_append.mp concordant.1).2, concordant.2.right⟩

/-- What settles apart, settles together if it is compatible. -/
theorem append_iff (concordant : table.Concordant query earlier)
    (concordant' : table.Concordant query new) :
    table.Concordant query (earlier ++ new) ↔ table.Compatible query (earlier ++ new) :=
  ⟨fun all => all.2, fun all => ⟨List.forall_mem_append.mpr ⟨concordant.1, concordant'.1⟩, all⟩⟩

end Concordant

/-- Two compatible lists are compatible with each other if their first subobjects agree. -/
theorem Compatible.append {first second : Subobject × SymbolId}
    (compatible : table.Compatible query (first :: earlier))
    (compatible' : table.Compatible query (second :: new)) :
    table.Compatible query (first :: earlier ++ second :: new) ↔
      table.Agree (table.supply query first.2) (table.supply query second.2) := by
  constructor
  · exact fun all => (List.pairwise_append.mp all).2.2 first List.mem_cons_self second List.mem_cons_self
  · intro agree
    have hfirst := List.pairwise_cons.mp compatible
    have hsecond := List.pairwise_cons.mp compatible'
    refine List.pairwise_append.mpr ⟨compatible, compatible', fun a ha b hb => ?_⟩
    have hleft : table.Agree (table.supply query a.2) (table.supply query second.2) := by
      rcases List.mem_cons.mp ha with rfl | later
      · exact agree
      · exact (hfirst.1 a later).symm.trans agree
    rcases List.mem_cons.mp hb with rfl | later
    · exact hleft
    · exact hleft.trans (hsecond.1 b later)

end Table

namespace Explores

variable {bases : SymbolId → List (SymbolId × Bool)} {supply : SymbolId → List SymbolId}
  {here : Subobject} {before rest : List (SymbolId × Bool)} {visited after : List SymbolId}
  {hits : List (Subobject × SymbolId)}

/-- Only classes that supply something are met. -/
theorem supplied (run : Explores bases supply here before rest visited hits after) :
    ∀ hit ∈ hits, supply hit.2 ≠ [] := by
  induction run with
  | done => exact fun hit member => absurd member List.not_mem_nil
  | again _ _ ih => exact ih
  | supplies _ found _ ih => exact List.forall_mem_cons.mpr ⟨found, ih⟩
  | silent _ _ _ _ ihDeeper ih => exact List.forall_mem_append.mpr ⟨ihDeeper, ih⟩

end Explores

namespace Search

variable {table : Table} {query : Query} {trail : Trail} {id : SymbolId} {link : BaseLink}
  {path : List SymbolId} {merged : Found} {deeper : SymbolId → Search Found}

/-! ## One link -/

/-- Merging two lists of entities under one name. -/
theorem ends_mergeEntry (exact : query.IsExact) (table : Table) (trail : Trail) {known ids : List SymbolId}
    (nodup : known.Nodup) (nodup' : ids.Nodup) :
    (mergeEntry query [(query.name, known)] (query.name, ids)).Ends table trail
      (if table.Agree known ids then .ok ([(query.name, known)], trail)
        else .error (.ambiguous query.name)) := by
  have hlookup : [(query.name, known)].lookup query.name = some known := by simp
  have hcompared := Table.Agree.iff_compared table nodup nodup'
  refine .read ?_
  dsimp only
  rw [hlookup]
  dsimp only
  by_cases agree : table.Agree known ids
  · rw [if_pos (hcompared.mpr agree), if_pos agree]
    exact .pure _
  · rw [if_neg (mt hcompared.mp agree), if_neg agree]
    refine (ends_ambiguity exact table trail query.name).bind (fun found => .ok ([], found.2)) ?_
    exact fun _ impossible => nomatch impossible

/-- Merging what new subobjects supply into what earlier ones do. -/
theorem ends_mergeSibling (exact : query.IsExact) (trail : Trail)
    {earlier new : List (Subobject × SymbolId)} (concordant : table.Concordant query earlier)
    (concordant' : table.Concordant query new)
    (supplied : ∀ hit ∈ earlier ++ new, table.supply query hit.2 ≠ []) :
    (mergeSibling query (Found.under query.name (table.firstSupply query earlier))
      (Found.under query.name (table.firstSupply query new))).Ends table trail
        ((table.reported query (earlier ++ new)).map fun found => (found, trail)) := by
  cases new with
  | nil =>
      rw [List.append_nil, Table.reported_of_concordant concordant]
      exact .pure _
  | cons second new =>
      have hfound : Found.under query.name (table.firstSupply query (second :: new)) =
          [(query.name, table.supply query second.2)] :=
        Found.under_of_ne_nil (supplied second (by simp))
      cases earlier with
      | nil =>
          rw [List.nil_append, Table.reported_of_concordant concordant', hfound]
          exact .pure _
      | cons first earlier =>
          have hmerged : ∀ rest, Found.under query.name (table.firstSupply query (first :: rest)) =
              [(query.name, table.supply query first.2)] :=
            fun _ => Found.under_of_ne_nil (supplied first (by simp))
          have hentry := ends_mergeEntry exact table trail (table.nodup_supply query first.2)
            (table.nodup_supply query second.2)
          have hiff := (concordant.append_iff concordant').trans (concordant.2.append concordant'.2)
          rw [hmerged, hfound, mergeSibling, List.foldlM_cons]
          by_cases agree : table.Agree (table.supply query first.2) (table.supply query second.2)
          · rw [if_pos agree] at hentry
            rw [Table.reported_of_concordant (hiff.mpr agree), List.cons_append, hmerged]
            exact hentry.bind .ok fun found _ => .pure found.1
          · rw [if_neg agree] at hentry
            rw [Table.reported_of_not_concordant (mt hiff.mp agree)]
            exact hentry.bind .ok fun found _ => .pure found.1

/-! ## The links of a class -/

/-- What the search does at a link: it merges what the base supplies into what its siblings supply. -/
def followLink (query : Query) (deeper : SymbolId → Search Found) (path : List SymbolId)
    (merged : Found) (link : BaseLink) : Search Found := do
  let table ← Search.table
  let trail ← get
  let parent := table.classOf link.parent
  if !(table.symbol parent).type.kind.isClass then pure merged
  else if parent ∈ path then Analysis.fail (table.circular parent)
  else if link.isVirtual && trail.virtualBases.contains parent then pure merged
  else do
    if link.isVirtual then
      set { trail with virtualBases := parent :: trail.virtualBases }
    let found ← searchBase query deeper parent
    mergeSibling query merged found

theorem searchParents_succ (query : Query) (depth : Nat) (path : List SymbolId) (id : SymbolId) :
    searchParents query (depth + 1) path id =
      (Search.table >>= fun table => (table.symbol id).parents.foldlM
        (followLink query (fun base => searchParents query depth (base :: path) base) path) []) :=
  rfl

/-- A dependent base is passed over. -/
theorem ends_followLink_dependent (dependent : table.classBase? link = none) :
    (followLink query deeper path merged link).Ends table trail (.ok (merged, trail)) := by
  have hkind : (table.symbol (table.classOf link.parent)).type.kind.isClass = false := by
    simpa [Table.classBase?] using dependent
  refine .read (.get ?_)
  dsimp only
  rw [hkind]
  exact .pure merged

section Base

variable {base : SymbolId × Bool}

theorem classBase?_eq_some (isBase : table.classBase? link = some base) :
    (table.symbol base.1).type.kind.isClass = true ∧ base = (table.classOf link.parent, link.isVirtual) := by
  unfold Table.classBase? at isBase
  split at isBase
  · rename_i hkind
    cases isBase
    exact ⟨hkind, rfl⟩
  · cases isBase

/-- A virtual base is not searched again. -/
theorem ends_followLink_again (isBase : table.classBase? link = some base) (off : base.1 ∉ path)
    (old : base.2 = true ∧ base.1 ∈ trail.virtualBases) :
    (followLink query deeper path merged link).Ends table trail (.ok (merged, trail)) := by
  obtain ⟨hkind, rfl⟩ := classBase?_eq_some isBase
  have hagain : (link.isVirtual && trail.virtualBases.contains (table.classOf link.parent)) = true := by
    simpa using old
  refine .read (.get ?_)
  dsimp only
  rw [hkind, if_neg off, if_pos hagain]
  exact .pure merged

/-- Any other base is searched, and what it supplies is merged. -/
theorem followLink_apply (isBase : table.classBase? link = some base) (off : base.1 ∉ path)
    (isNew : ¬ (base.2 = true ∧ base.1 ∈ trail.virtualBases)) :
    followLink query deeper path merged link trail table =
      (searchBase query deeper base.1 >>= mergeSibling query merged)
        { trail with virtualBases := entered base trail.virtualBases } table := by
  obtain ⟨hkind, rfl⟩ := classBase?_eq_some isBase
  have hnew : ¬ (link.isVirtual && trail.virtualBases.contains (table.classOf link.parent)) = true := by
    simpa using isNew
  show (if !(table.symbol (table.classOf link.parent)).type.kind.isClass then _ else _ :
    Search Found) trail table = _
  rw [hkind, if_neg (by simp), if_neg off, if_neg hnew]
  cases link.isVirtual <;> rfl

end Base

/-- A search of the bases of a class meets subobjects, and reports what they supply together. -/
def Collates (table : Table) (query : Query) (search : Search Found) (id : SymbolId) : Prop :=
  ∀ (here : Subobject) (trail : Trail), ∃ hits after,
    Explores table.classBases (table.supply query) here [] (table.classBases id) trail.virtualBases hits
        after ∧
      search.Ends table trail
        ((table.reported query hits).map fun found => (found, { trail with virtualBases := after }))

/-- One more link adds what its base supplies to what the earlier ones do. -/
theorem ends_followLink (exact : query.IsExact) {link : BaseLink} {base : SymbolId × Bool}
    (isBase : table.classBase? link = some base) (off : base.1 ∉ path)
    (isNew : ¬ (base.2 = true ∧ base.1 ∈ trail.virtualBases))
    {earlier new : List (Subobject × SymbolId)} {after : List SymbolId}
    (supplied : ∀ hit ∈ earlier ++ new, table.supply query hit.2 ≠ [])
    (concordant : table.Concordant query earlier)
    (search : (searchBase query deeper base.1).Ends table
      { trail with virtualBases := entered base trail.virtualBases }
      ((table.reported query new).map fun found => (found, { trail with virtualBases := after }))) :
    (followLink query deeper path (Found.under query.name (table.firstSupply query earlier)) link).Ends
      table trail
      ((table.reported query (earlier ++ new)).map fun found =>
        (found, { trail with virtualBases := after })) := by
  refine Ends.congr ?_ (followLink_apply isBase off isNew)
  by_cases concordant' : table.Concordant query new
  · rw [Table.reported_of_concordant concordant'] at search
    exact search.bind_ok (ends_mergeSibling exact _ concordant concordant' supplied)
  · rw [Table.reported_of_not_concordant concordant'] at search
    rw [Table.reported_of_not_concordant (mt Table.Concordant.right concordant')]
    exact search.bind_error _

/-- A base either supplies something itself, or its own bases are searched. -/
theorem ends_searchBase (exact : query.IsExact) {id : SymbolId}
    (collates : Collates table query (deeper id) id) (here : Subobject) (trail : Trail) :
    ∃ new after,
      ((table.supply query id ≠ [] ∧ new = [(here, id)] ∧ after = trail.virtualBases) ∨
        (table.supply query id = [] ∧ Explores table.classBases (table.supply query) here []
          (table.classBases id) trail.virtualBases new after)) ∧
        (searchBase query deeper id).Ends table trail
          ((table.reported query new).map fun found => (found, { trail with virtualBases := after })) := by
  have hlevel : (collectLevel query (table.scopeHits query id)).Ends table trail
      ((table.settle query.name (table.answers query id)).map fun ids =>
        (Found.under query.name ids, trail)) :=
    ends_collectLevel exact table trail (table.scopeHits_named exact id)
  by_cases settles : table.Settles query id
  · rw [settles.settle_eq] at hlevel
    by_cases hsupply : table.supply query id = []
    · rw [hsupply] at hlevel
      by_cases hparents : (table.symbol id).parents = []
      · have hrun : Explores table.classBases (table.supply query) here [] (table.classBases id)
            trail.virtualBases [] trail.virtualBases := by
          rw [Table.classBases, hparents]
          exact .done
        refine ⟨[], trail.virtualBases, .inr ⟨hsupply, hrun⟩, .read (hlevel.bind_ok (.read ?_))⟩
        rw [hparents]
        simp only [List.isEmpty_nil, Bool.or_true, if_true]
        exact .pure _
      · obtain ⟨hits, after, hrun, hends⟩ := collates here trail
        refine ⟨hits, after, .inr ⟨hsupply, hrun⟩, .read (hlevel.bind_ok (.read ?_))⟩
        have hdeeper : ¬ (query.isSatisfied [] || (table.symbol id).parents.isEmpty) = true := by
          simp [hparents]
        refine hends.congr (congrFun (congrFun ((if_neg hdeeper).trans ?_) _) _)
        simp only [Found.under_nil, Found.nil_fill, bind_pure]
    · have hsatisfied : query.isSatisfied (Found.under query.name (table.supply query id)) = true := by
        simp [Found.isSatisfied_under exact, hsupply]
      have hconcordant : table.Concordant query [(here, id)] := .singleton settles
      refine ⟨[(here, id)], trail.virtualBases, .inl ⟨hsupply, rfl, rfl⟩, .read (hlevel.bind_ok (.read ?_))⟩
      dsimp only
      rw [hsatisfied, Table.reported_of_concordant hconcordant]
      exact .pure _
  · -- Declarations of the base exclude each other, which ends the search.
    have hsettle : table.settle query.name (table.answers query id) = .error (.ambiguous query.name) :=
      if_pos (by simpa [Table.Settles] using settles)
    rw [hsettle] at hlevel
    have hreported : table.reported query [(here, id)] = .error (.ambiguous query.name) :=
      Table.reported_of_not_concordant fun concordant =>
        settles (concordant.1 (here, id) List.mem_cons_self)
    refine ⟨[(here, id)], trail.virtualBases,
      .inl ⟨table.supply_ne_nil_of_not_settles settles, rfl, rfl⟩, ?_⟩
    rw [hreported]
    exact .read (hlevel.bind_error _)

/-- Following the remaining links of a class completes what the earlier ones supply. -/
theorem ends_foldlM_followLink (exact : query.IsExact)
    (offs : ∀ base, table.HasBase id base → base ∉ path)
    (collates : ∀ base, table.HasBase id base → Collates table query (deeper base) base)
    (here : Subobject) (links : List BaseLink) (listed : ∀ link ∈ links, link ∈ (table.symbol id).parents)
    (before : List (SymbolId × Bool)) (earlier : List (Subobject × SymbolId))
    (supplied : ∀ hit ∈ earlier, table.supply query hit.2 ≠ []) (trail : Trail) :
    ∃ hits after,
      Explores table.classBases (table.supply query) here before (links.filterMap table.classBase?)
          trail.virtualBases hits after ∧
        (table.Concordant query earlier →
          (links.foldlM (followLink query deeper path)
            (Found.under query.name (table.firstSupply query earlier))).Ends table trail
              ((table.reported query (earlier ++ hits)).map fun found =>
                (found, { trail with virtualBases := after }))) := by
  induction links generalizing before earlier trail with
  | nil =>
      refine ⟨[], trail.virtualBases, .done, fun concordant => ?_⟩
      rw [List.append_nil, Table.reported_of_concordant concordant]
      exact .pure _
  | cons link rest ih =>
      have hrest := ih fun other member => listed other (List.mem_cons_of_mem link member)
      cases hbase : table.classBase? link with
      | none =>
          -- A dependent base, which is no link of the class.
          obtain ⟨hits, after, hrun, hends⟩ := hrest before earlier supplied trail
          refine ⟨hits, after, by rwa [List.filterMap_cons_none hbase], fun concordant => ?_⟩
          rw [List.foldlM_cons]
          exact (ends_followLink_dependent hbase).bind_ok (hends concordant)
      | some base =>
          have hhas : table.HasBase id base.1 :=
            ⟨base.2, List.mem_filterMap.mpr ⟨link, listed link List.mem_cons_self, hbase⟩⟩
          rw [List.filterMap_cons_some hbase]
          by_cases old : base.2 = true ∧ base.1 ∈ trail.virtualBases
          · -- A virtual base that has been searched already.
            obtain ⟨hits, after, hrun, hends⟩ := hrest (before ++ [base]) earlier supplied trail
            refine ⟨hits, after, .again old hrun, fun concordant => ?_⟩
            rw [List.foldlM_cons]
            exact (ends_followLink_again hbase (offs _ hhas) old).bind_ok (hends concordant)
          · obtain ⟨new, between, hmet, hsearch⟩ := ends_searchBase exact
              (collates base.1 hhas) (here.along base (before.count base))
              { trail with virtualBases := entered base trail.virtualBases }
            have hsupplied : ∀ hit ∈ earlier ++ new, table.supply query hit.2 ≠ [] := by
              refine List.forall_mem_append.mpr ⟨supplied, ?_⟩
              rcases hmet with ⟨hsupply, rfl, -⟩ | ⟨-, hrun⟩
              · exact List.forall_mem_singleton.mpr hsupply
              · exact hrun.supplied
            obtain ⟨hits, after, hrun, hends⟩ := hrest (before ++ [base]) (earlier ++ new) hsupplied
              { trail with virtualBases := between }
            refine ⟨new ++ hits, after, ?_, fun concordant => ?_⟩
            · rcases hmet with ⟨hsupply, rfl, rfl⟩ | ⟨hsilent, hdeeper⟩
              · exact .supplies old hsupply hrun
              · exact .silent old hsilent hdeeper hrun
            · have hlink := ends_followLink exact hbase (offs _ hhas) old hsupplied concordant hsearch
              rw [List.foldlM_cons, ← List.append_assoc]
              -- If this base conflicts with an earlier one, the fold ends here, and so does the rest of it.
              by_cases concordant' : table.Concordant query (earlier ++ new)
              · rw [Table.reported_of_concordant concordant'] at hlink
                exact hlink.bind_ok (hends concordant')
              · rw [Table.reported_of_not_concordant concordant'] at hlink
                rw [Table.reported_of_not_concordant (mt Table.Concordant.left concordant')]
                exact hlink.bind_error _

/-- The search of bases without circles meets subobjects, and reports what they supply together. -/
theorem collates_searchParents (exact : query.IsExact) {depth : Nat} (acyclic : table.AcyclicBases id)
    (came : CameBy table.Derives path id) (enough : depth + path.length = table.size + 1) :
    Collates table query (searchParents query depth (id :: path) id) id := by
  induction depth generalizing path id with
  | zero =>
      have hlength := came.length_le Table.Derives.lt_size
      omega
  | succ depth ih =>
      intro here trail
      have hcame : ∀ {base}, table.HasBase id base → CameBy table.Derives (id :: path) base :=
        fun hasBase => came.step (acyclic id .refl) hasBase.derives
      have hcollates : ∀ base, table.HasBase id base →
          Collates table query (searchParents query depth (base :: id :: path) base) base := by
        intro base hasBase
        refine ih (acyclic.of_derives hasBase.derives) (hcame hasBase) ?_
        rw [List.length_cons]
        omega
      have hoffs : ∀ base, table.HasBase id base → base ∉ id :: path := fun base hasBase =>
        (hcame hasBase).not_mem (acyclic.of_derives hasBase.derives base .refl)
      obtain ⟨hits, after, hrun, hends⟩ := ends_foldlM_followLink exact hoffs hcollates here
        (table.symbol id).parents (fun _ listed => listed) [] []
        (fun _ member => absurd member List.not_mem_nil) trail
      refine ⟨hits, after, hrun, ?_⟩
      rw [searchParents_succ]
      exact .read (hends (.nil table query))

/-! ## The lookup -/

theorem ends_checkInheritance (acyclic : table.AcyclicBases id) (trail : Trail) :
    ∃ proved, (checkInheritance id).Ends table trail (.ok (⟨⟩, { trail with acyclic := proved })) := by
  obtain ⟨proved, hproved⟩ := acyclic.checkAcyclic_ok trail.acyclic
  refine ⟨proved, .read (.get ?_)⟩
  rw [hproved]
  exact .set (.pure _)

/-- What a class that supplies nothing itself inherits. -/
theorem ends_addInherited (exact : query.IsExact) (acyclic : table.AcyclicBases id) (trail : Trail) :
    ∃ hits visited proved,
      Explores table.classBases (table.supply query) {} [] (table.classBases id) trail.virtualBases hits
          visited ∧
        (addInherited query id []).Ends table trail
          ((table.reported query hits).map fun found =>
            (found, { trail with virtualBases := visited, acyclic := proved })) := by
  by_cases hparents : (table.symbol id).parents = []
  · have hrun : Explores table.classBases (table.supply query) {} [] (table.classBases id)
        trail.virtualBases [] trail.virtualBases := by
      rw [Table.classBases, hparents]
      exact .done
    exact ⟨[], trail.virtualBases, trail.acyclic, hrun,
      ends_addInherited_of_parentless hparents query trail []⟩
  · obtain ⟨proved, hcheck⟩ := ends_checkInheritance acyclic trail
    obtain ⟨hits, visited, hrun, hends⟩ := collates_searchParents exact acyclic (.nil table.Derives id) rfl {}
      { trail with acyclic := proved }
    refine ⟨hits, visited, proved, hrun, .read ?_⟩
    rw [if_neg (by simpa using hparents)]
    refine hcheck.bind_ok ?_
    simp only [Found.isSatisfied_nil, Found.nil_fill, bind_pure, Bool.false_eq_true, if_false]
    exact .read hends

/-- A qualified search in a class that supplies nothing itself ends with what its bases supply. -/
theorem ends_answer_class (exact : query.IsExact) (qualified : query.options.qualified = true)
    (isClass : (table.symbol id).type.kind.isClass = true) (clean : table.CleanBases query id)
    (silent : table.supply query id = []) (trail : Trail) :
    ∃ hits visited proved,
      Explores table.classBases (table.supply query) {} [] (table.classBases id) trail.virtualBases hits
          visited ∧
        (answer query id).Ends table trail
          ((table.collated query hits).map fun found =>
            (found, { trail with virtualBases := visited, acyclic := proved })) := by
  have hkind : ((table.symbol id).type.kind == .nspace) = false := by
    rw [beq_eq_false_iff_ne]
    intro same
    rw [same] at isClass
    cases isClass
  have hlevel := ends_collectLevel exact table trail (table.scopeHits_named exact id)
  rw [show table.settle query.name ((table.scopeHits query id).map (·.2)) = _ from
    clean.settles.settle_eq, silent] at hlevel
  obtain ⟨hits, visited, proved, hrun, hends⟩ := ends_addInherited exact clean.acyclic trail
  rw [Table.reported_eq_collated fun hit member =>
    clean.unambiguous hit.2 (Table.hasBase_of_exposed (hrun.sound .whole silent rfl hit member).1)] at hends
  refine ⟨hits, visited, proved, hrun, .read ?_⟩
  rw [if_pos qualified]
  refine .read ((ends_followsDirectives query table trail).bind_ok ?_)
  simp only [hkind, Bool.false_and, Bool.false_eq_true, if_false, pure_bind]
  exact hlevel.bind_ok hends

end Search

namespace Table

variable {table other : Table} {query : Query} {origin : SymbolId}

/-- The tables differ in using-directives and in the order in which classes list their bases. -/
structure RearrangesBases (table other : Table) : Prop where
  skeleton : table.SameSkeleton other
  parents : ∀ id, (table.symbol id).parents.Perm (other.symbol id).parents

namespace RearrangesBases

variable (rearranges : table.RearrangesBases other)

include rearranges

theorem symm : other.RearrangesBases table :=
  ⟨rearranges.skeleton.symm, fun id => (rearranges.parents id).symm⟩

theorem count_classBases (id : SymbolId) (link : SymbolId × Bool) :
    (other.classBases id).count link = (table.classBases id).count link := by
  have hbase : other.classBase? = table.classBase? := by
    funext link
    simp only [classBase?, rearranges.skeleton.type_eq, rearranges.skeleton.classOf_eq]
  rw [classBases, classBases, hbase]
  exact ((rearranges.parents id).symm.filterMap _).count_eq link

theorem derives_eq : other.Derives = table.Derives := by
  funext derived base
  simp only [Derives, bases, List.mem_map, rearranges.skeleton.classOf_eq,
    (rearranges.parents derived).mem_iff]

theorem hasBase_eq : other.HasBase = table.HasBase := by
  funext derived base
  refine propext (exists_congr fun isVirtual => ?_)
  rw [← List.count_pos_iff, ← List.count_pos_iff, rearranges.count_classBases]

variable (exact : query.IsExact) (agrees : query.options.filter.Agrees table other)

include exact agrees

theorem supply_eq (id : SymbolId) : other.supply query id = table.supply query id := by
  rw [supply, supply, rearranges.skeleton.answers_eq exact agrees, rearranges.skeleton.entities_eq]

theorem cleanBases (clean : table.CleanBases query origin) : other.CleanBases query origin := by
  refine ⟨?_, fun id above => ?_⟩
  · unfold AcyclicBases
    rw [rearranges.derives_eq]
    exact clean.acyclic
  · rw [rearranges.skeleton.classify_eq, rearranges.skeleton.answers_eq exact agrees]
    exact clean.unambiguous id (rearranges.hasBase_eq ▸ above)

/-- The same subobjects count. -/
theorem isHit_iff (origin : SymbolId) (sub : Subobject) (id : SymbolId) :
    other.IsHit query origin sub id ↔ table.IsHit query origin sub id := by
  have hsupply := rearranges.supply_eq exact agrees
  unfold IsHit
  rw [hsupply]
  refine and_congr_left fun _ => ⟨fun exposed => ?_, fun exposed => ?_⟩
  · exact exposed.congr rearranges.count_classBases hsupply
  · exact exposed.congr (fun id link => (rearranges.count_classBases id link).symm) fun id =>
      (hsupply id).symm

theorem conflict_iff (origin : SymbolId) : other.Conflict query origin ↔ table.Conflict query origin := by
  simp only [Conflict, Agree, rearranges.isHit_iff exact agrees, rearranges.supply_eq exact agrees,
    rearranges.skeleton.isPathIndependent_eq]

end RearrangesBases

/-- A search meets compatible subobjects unless two that count do not agree. -/
theorem compatible_iff {hits : List (Subobject × SymbolId)} (nodup : (hits.map (·.1)).Nodup)
    (met : ∀ hit, hit ∈ hits ↔ table.IsHit query origin hit.1 hit.2) :
    table.Compatible query hits ↔ ¬ table.Conflict query origin := by
  constructor
  · rintro compatible ⟨first, second, id, other, hfirst, hsecond, differ, disagree⟩
    have hagree := compatible.agree ((met (first, id)).mpr hfirst) ((met (second, other)).mpr hsecond)
      fun same => differ (congrArg Prod.fst same)
    exact disagree hagree
  · intro peaceful
    refine (List.Nodup.of_map _ nodup).pairwise_of_forall_ne fun a ha b hb differ => ?_
    by_contra disagree
    refine peaceful ⟨a.1, b.1, a.2, b.2, (met a).mp ha, (met b).mp hb, fun same => differ ?_, disagree⟩
    exact List.inj_on_of_nodup_map nodup ha hb same

end Table

namespace Analysis

open Table

variable {table : Table} {start origin : SymbolId} {name : Name} {options : LookupOptions}

/-- How a qualified lookup ends in a class that does not supply the name itself. -/
theorem lookup_of_silent_class (exact : options.IsExact) (qualified : options.qualified = true)
    (resolved : table.resolveNamespace start = origin)
    (isClass : (table.symbol origin).type.kind.isClass = true)
    (clean : table.CleanBases (table.query name options) origin)
    (silent : table.supply (table.query name options) origin = []) :
    ∃ hits : List (Subobject × SymbolId), (hits.map (·.1)).Nodup ∧
      (∀ hit, hit ∈ hits ↔ table.IsHit (table.query name options) origin hit.1 hit.2) ∧
      lookup start name options table =
        match table.collated (table.query name options) hits with
        | .ok found => .ok { entries := found } table
        | .error error => .error (.error error) table := by
  subst resolved
  have hexact := exact.query table name
  obtain ⟨hits, visited, proved, hrun, hends⟩ := Search.ends_answer_class hexact qualified isClass clean
    silent { fresh := table.ids }
  refine ⟨hits, hrun.nodup fun root impossible => (nomatch impossible), hrun.mem_iff silent, ?_⟩
  cases hcollated : table.collated (table.query name options) hits with
  | error error =>
      rw [hcollated] at hends
      exact lookup_of_error exact hends
  | ok found =>
      rw [hcollated] at hends
      exact lookup_of_found exact hends rfl

section Classes

variable (exact : options.IsExact) (qualified : options.qualified = true)
  (resolved : table.resolveNamespace start = origin)
  (isClass : (table.symbol origin).type.kind.isClass = true)
  (clean : table.CleanBases (table.query name options) origin)
  (silent : table.supply (table.query name options) origin = [])

include exact qualified resolved isClass clean silent

theorem inherited_lookup_empty (none : ∀ sub id, ¬ table.IsHit (table.query name options) origin sub id) :
    lookup start name options table = .ok {} table := by
  obtain ⟨hits, -, hmet, hlookup⟩ := lookup_of_silent_class exact qualified resolved isClass clean silent
  have hempty : hits = [] := List.eq_nil_iff_forall_not_mem.mpr fun hit member =>
    none hit.1 hit.2 ((hmet hit).mp member)
  rw [hlookup, hempty]
  rfl

theorem inherited_lookup_ambiguous (conflict : table.Conflict (table.query name options) origin) :
    lookup start name options table = .error (.error (.ambiguous name)) table := by
  obtain ⟨hits, hnodup, hmet, hlookup⟩ :=
    lookup_of_silent_class exact qualified resolved isClass clean silent
  have hincompatible := mt (compatible_iff hnodup hmet).mp (not_not_intro conflict)
  rw [hlookup, collated_of_not_compatible hincompatible]
  rfl

theorem inherited_lookup_found {sub : Subobject} {id : SymbolId}
    (hit : table.IsHit (table.query name options) origin sub id)
    (peaceful : ¬ table.Conflict (table.query name options) origin) :
    ∃ ids : List SymbolId, ids ≠ [] ∧
      lookup start name options table = .ok { entries := [(name, ids)] } table ∧
      ∀ entity, entity ∈ ids ↔ ∃ sub id, table.IsHit (table.query name options) origin sub id ∧
        entity ∈ table.supply (table.query name options) id := by
  obtain ⟨hits, hnodup, hmet, hlookup⟩ :=
    lookup_of_silent_class exact qualified resolved isClass clean silent
  have hcompatible := (compatible_iff hnodup hmet).mpr peaceful
  cases hits with
  | nil => exact absurd ((hmet (sub, id)).mpr hit) List.not_mem_nil
  | cons first rest =>
      have hfirst := (hmet first).mp List.mem_cons_self
      refine ⟨table.supply (table.query name options) first.2, hfirst.2, ?_, fun entity => ⟨fun member =>
        ⟨first.1, first.2, hfirst, member⟩, ?_⟩⟩
      · rw [hlookup, collated_of_compatible hcompatible, firstSupply, Found.under_of_ne_nil hfirst.2]
        rfl
      · rintro ⟨sub, id, hother, member⟩
        rcases List.mem_cons.mp ((hmet (sub, id)).mpr hother) with rfl | later
        · exact member
        · exact ((List.pairwise_cons.mp hcompatible).1 (sub, id) later).1.2 member

/-- The order in which classes list their bases does not matter. -/
theorem inherited_lookup_rearranged {other : Table} (rearranges : table.RearrangesBases other)
    (agrees : options.filter.Agrees table other) :
    FindAlike (lookup start name options table) (lookup start name options other) := by
  have hexact := exact.query table name
  have hquery := exact.query_eq table other name
  have hsupply := rearranges.supply_eq hexact agrees
  have hisHit := rearranges.isHit_iff hexact agrees origin
  have hconflict := rearranges.conflict_iff hexact agrees origin
  -- What the lookup relies on holds of the other table as well.
  have hresolved := (rearranges.skeleton.resolveNamespace_eq start).trans resolved
  have hisClass : (other.symbol origin).type.kind.isClass = true := by
    rw [rearranges.skeleton.type_eq]
    exact isClass
  have hclean : other.CleanBases (other.query name options) origin := by
    rw [hquery]
    exact rearranges.cleanBases hexact agrees clean
  have hsilent : other.supply (other.query name options) origin = [] := by
    rw [hquery, hsupply]
    exact silent
  by_cases conflict : table.Conflict (table.query name options) origin
  · rw [inherited_lookup_ambiguous exact qualified resolved isClass clean silent conflict,
      inherited_lookup_ambiguous exact qualified hresolved hisClass hclean hsilent
        (hquery.symm ▸ hconflict.mpr conflict)]
    exact .failed _
  · by_cases found : ∃ sub id, table.IsHit (table.query name options) origin sub id
    · obtain ⟨sub, id, hit⟩ := found
      obtain ⟨ids, -, hends, hids⟩ :=
        inherited_lookup_found exact qualified resolved isClass clean silent hit conflict
      obtain ⟨ids', -, hends', hids'⟩ :=
        inherited_lookup_found exact qualified hresolved hisClass hclean hsilent
          (hquery.symm ▸ (hisHit sub id).mpr hit) (hquery.symm ▸ mt hconflict.mp conflict)
      rw [hends, hends']
      refine .found fun entity => ?_
      rw [hquery] at hids'
      show entity ∈ ids ↔ entity ∈ ids'
      simp only [hids, hids', hisHit, hsupply]
    · have hnone : ∀ sub id, ¬ table.IsHit (table.query name options) origin sub id :=
        fun sub id hit => found ⟨sub, id, hit⟩
      have hnone' : ∀ sub id, ¬ other.IsHit (other.query name options) origin sub id := by
        intro sub id
        rw [hquery, hisHit]
        exact hnone sub id
      rw [inherited_lookup_empty exact qualified resolved isClass clean silent hnone,
        inherited_lookup_empty exact qualified hresolved hisClass hclean hsilent hnone']
      exact .found fun _ => Iff.rfl

/-- A qualified lookup in a class that does not supply the name itself counts the base subobjects that
supply it and that a path leads to along which no earlier class does.  Without one nothing is found.  The
name is ambiguous if two of them supply different sets of entities, or one that depends on the path.
Otherwise the lookup finds what they supply.  In which order classes list their bases does not matter. -/
theorem inherited_lookup_counts_subobjects :
    (lookup start name options table = .ok {} table ↔
      ∀ sub id, ¬ table.IsHit (table.query name options) origin sub id) ∧
    (lookup start name options table = .error (.error (.ambiguous name)) table ↔
      table.Conflict (table.query name options) origin) ∧
    ((∃ sub id, table.IsHit (table.query name options) origin sub id) →
      ¬ table.Conflict (table.query name options) origin →
      ∃ ids : List SymbolId, lookup start name options table = .ok { entries := [(name, ids)] } table ∧
        ∀ entity, entity ∈ ids ↔ ∃ sub id, table.IsHit (table.query name options) origin sub id ∧
          entity ∈ table.supply (table.query name options) id) ∧
    ∀ other : Table, table.RearrangesBases other → options.filter.Agrees table other →
      FindAlike (lookup start name options table) (lookup start name options other) := by
  have hempty := inherited_lookup_empty exact qualified resolved isClass clean silent
  have hambiguous := inherited_lookup_ambiguous exact qualified resolved isClass clean silent
  have hfound := @inherited_lookup_found table start origin name options exact qualified resolved isClass
    clean silent
  refine ⟨⟨fun ends sub id hit => ?_, hempty⟩, ⟨fun ends => ?_, hambiguous⟩, ?_, ?_⟩
  · by_cases conflict : table.Conflict (table.query name options) origin
    · rw [hambiguous conflict] at ends
      cases ends
    · obtain ⟨ids, -, hends, -⟩ := hfound hit conflict
      rw [hends] at ends
      cases ends
  · by_contra peaceful
    by_cases found : ∃ sub id, table.IsHit (table.query name options) origin sub id
    · obtain ⟨sub, id, hit⟩ := found
      obtain ⟨ids, -, hends, -⟩ := hfound hit peaceful
      rw [hends] at ends
      cases ends
    · rw [hempty fun sub id hit => found ⟨sub, id, hit⟩] at ends
      cases ends
  · rintro ⟨sub, id, hit⟩ peaceful
    obtain ⟨ids, -, hends, hids⟩ := hfound hit peaceful
    exact ⟨ids, hends, hids⟩
  · exact fun other rearranges agrees =>
      inherited_lookup_rearranged exact qualified resolved isClass clean silent rearranges agrees

end Classes

/-- Two classes that derive from the first one, which has an object, and a class that derives from both. -/
def diamondTable : Table :=
  finalTable (Table.new {}) do
    let top ← createClass ⟨18⟩ .cls
    let object ← createBasic ⟨17⟩ (.ofKind .int)
    addSymbol top object
    let left ← createClass ⟨19⟩ .cls
    addParent left top .pub false
    let right ← createClass ⟨20⟩ .cls
    addParent right top .pub false
    let bottom ← createClass ⟨21⟩ .cls
    addParent bottom left .pub false
    addParent bottom right .pub false

/-- Bases are older than the classes that list them. -/
theorem diamond_cleanBases (id : SymbolId) :
    diamondTable.CleanBases (diamondTable.query ⟨17⟩ { qualified := true }) id where
  acyclic := .of_older (by decide +kernel) id
  unambiguous := by
    intro id _
    have hclear : ∀ index < diamondTable.size, (diamondTable.classify (diamondTable.answers
        (diamondTable.query ⟨17⟩ { qualified := true }) ⟨index⟩)).isAmbiguous = false := by
      decide +kernel
    by_cases answer : diamondTable.scopeHits (diamondTable.query ⟨17⟩ { qualified := true }) id = []
    · rw [answers, answer]
      rfl
    · exact hclear id.index (lt_size_of_answers answer)

/-- The object is ambiguous in the last class, which has two subobjects of the first one. -/
theorem diamond_object_ambiguous :
    LookupOptions.IsExact { qualified := true } ∧ diamondTable.resolveNamespace ⟨5⟩ = ⟨5⟩ ∧
      (diamondTable.symbol ⟨5⟩).type.kind.isClass = true ∧
      diamondTable.CleanBases (diamondTable.query ⟨17⟩ { qualified := true }) ⟨5⟩ ∧
      diamondTable.supply (diamondTable.query ⟨17⟩ { qualified := true }) ⟨5⟩ = [] ∧
      lookup ⟨5⟩ ⟨17⟩ { qualified := true } diamondTable =
        .error (.error (.ambiguous ⟨17⟩)) diamondTable := by
  have hexact : LookupOptions.IsExact { qualified := true } := ⟨rfl, rfl⟩
  have hresolved : diamondTable.resolveNamespace ⟨5⟩ = ⟨5⟩ := by decide +kernel
  have hisClass : (diamondTable.symbol ⟨5⟩).type.kind.isClass = true := by decide +kernel
  have hsilent : ∀ id : SymbolId, id = ⟨3⟩ ∨ id = ⟨4⟩ ∨ id = ⟨5⟩ →
      diamondTable.supply (diamondTable.query ⟨17⟩ { qualified := true }) id = [] := by
    rintro id (rfl | rfl | rfl) <;> decide +kernel
  have hhit : ∀ side : SymbolId, side = ⟨3⟩ ∨ side = ⟨4⟩ →
      diamondTable.IsHit (diamondTable.query ⟨17⟩ { qualified := true }) ⟨5⟩
        { links := [(side, 0), (⟨1⟩, 0)] } ⟨1⟩ := by
    intro side hside
    have hfirst : 0 < (diamondTable.classBases ⟨5⟩).count (side, false) := by
      rcases hside with rfl | rfl <;> decide +kernel
    have hsecond : 0 < (diamondTable.classBases side).count (⟨1⟩, false) := by
      rcases hside with rfl | rfl <;> decide +kernel
    exact ⟨.base (.base .whole (hsilent ⟨5⟩ (by simp)) hfirst)
      (hsilent side (hside.imp_right .inl)) hsecond, by decide +kernel⟩
  have hconflict : diamondTable.Conflict (diamondTable.query ⟨17⟩ { qualified := true }) ⟨5⟩ :=
    ⟨_, _, ⟨1⟩, ⟨1⟩, hhit ⟨3⟩ (.inl rfl), hhit ⟨4⟩ (.inr rfl), by decide, by decide +kernel⟩
  refine ⟨hexact, hresolved, hisClass, diamond_cleanBases ⟨5⟩, hsilent ⟨5⟩ (by simp), ?_⟩
  exact (inherited_lookup_counts_subobjects hexact rfl hresolved hisClass (diamond_cleanBases ⟨5⟩)
    (hsilent ⟨5⟩ (by simp))).2.1.mpr hconflict

end Analysis

end NameBinding
