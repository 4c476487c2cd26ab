import NameBinding.Inheritance.Visibility
import NameBinding.Proofs.Analysis.Tracks
import NameBinding.Proofs.Inheritance.Acyclic
import NameBinding.Table.Attach
import NameBinding.Table.Redeclaration

/-!
# The access of an inherited member

A member of a base class is reached along every way up to that class, where a way ends as soon as it arrives.
Links that a class lists twice make up different ways.  The access of the member is the worst one along a way,
and the best one of these among several ways.

* `Table.Arrives`: a way up to a base, and `Table.arrivals`, which lists the ways.
* `Table.CircularBefore`: a circle is reached without going through the base.
* `inheritancePathsFrom_reports` and `inheritancePathsFrom_ok`: how the search for the ways ends.

The main statement is `visibility_of_inherited`.
-/

namespace NameBinding

open Relation

/-! ## Steps for the elements of a list -/

/-- If a step gave results for all elements of a list, then it gave one for each element. -/
theorem exists_of_mapM_ok {α β error : Type} [Inhabited β] {step : α → Except error β} {list : List α}
    {results : List β} (all : list.mapM step = .ok results) :
    ∃ each : α → β, results = list.map each ∧ ∀ element ∈ list, step element = .ok (each element) := by
  refine ⟨fun element => (step element).toOption.getD default, ?_⟩
  induction list generalizing results with
  | nil =>
      cases all
      exact ⟨rfl, fun element member => absurd member List.not_mem_nil⟩
  | cons first rest ih =>
      rw [List.mapM_cons] at all
      cases hfirst : step first with
      | error failure =>
          rw [hfirst] at all
          cases all
      | ok result =>
          cases hrest : rest.mapM step with
          | error failure =>
              rw [hfirst, hrest] at all
              cases all
          | ok others =>
              rw [hfirst, hrest] at all
              cases all
              obtain ⟨hothers, heach⟩ := ih hrest
              refine ⟨?_, List.forall_mem_cons.mpr ⟨?_, heach⟩⟩
              · rw [List.map_cons, ← hothers, hfirst]
                rfl
              · dsimp only
                rw [hfirst]
                rfl

/-- If a step failed on a list, then it failed on an element. -/
theorem exists_of_mapM_error {α β error : Type} {step : α → Except error β} {list : List α} {failure : error}
    (failed : list.mapM step = .error failure) : ∃ element ∈ list, step element = .error failure := by
  induction list with
  | nil => cases failed
  | cons first rest ih =>
      rw [List.mapM_cons] at failed
      cases hfirst : step first with
      | error other =>
          rw [hfirst] at failed
          cases failed
          exact ⟨first, List.mem_cons_self, hfirst⟩
      | ok result =>
          cases hrest : rest.mapM step with
          | error other =>
              rw [hfirst, hrest] at failed
              cases failed
              obtain ⟨element, member, hfailed⟩ := ih hrest
              exact ⟨element, List.mem_cons_of_mem first member, hfailed⟩
          | ok others =>
              rw [hfirst, hrest] at failed
              cases failed

/-! ## Access -/

namespace Access

theorem rank_through (member link : Access) : (member.through link).rank = max member.rank link.rank := by
  unfold through
  split <;> omega

theorem rank_best (a b : Access) : (a.best b).rank = min a.rank b.rank := by
  unfold best
  split <;> omega

theorem foldl_best (accesses : List Access) (start : Access) :
    accesses.foldl best start ∈ start :: accesses ∧
      ∀ access ∈ start :: accesses, (accesses.foldl best start).rank ≤ access.rank := by
  induction accesses generalizing start with
  | nil => simp
  | cons first rest ih =>
      obtain ⟨hmember, hleast⟩ := ih (start.best first)
      have hbest := start.rank_best first
      rw [List.foldl_cons]
      constructor
      · rcases List.mem_cons.mp hmember with hsame | hlater
        · rw [hsame]
          unfold best
          split <;> simp
        · simp [hlater]
      · have hfold := hleast _ List.mem_cons_self
        rintro access (_ | ⟨_, _ | ⟨_, later⟩⟩)
        · omega
        · omega
        · exact hleast access (List.mem_cons_of_mem _ later)

/-- The best of several accesses is one of them, and none is better. -/
theorem foldl_best_priv {accesses : List Access} (some : accesses ≠ []) :
    accesses.foldl best .priv ∈ accesses ∧
      ∀ access ∈ accesses, (accesses.foldl best .priv).rank ≤ access.rank := by
  obtain ⟨hmember, hleast⟩ := foldl_best accesses .priv
  have hall : ∀ access ∈ accesses, (accesses.foldl best .priv).rank ≤ access.rank := fun access member =>
    hleast access (List.mem_cons_of_mem _ member)
  refine ⟨?_, hall⟩
  rcases List.mem_cons.mp hmember with hpriv | hlisted
  · -- Nothing is worse than private, so that all of them are private.
    obtain ⟨access, member⟩ := List.exists_mem_of_ne_nil _ some
    have hrank := hpriv ▸ hall access member
    have hsame : access = .priv := by cases access <;> simp_all [rank]
    exact hpriv.trans hsame.symm ▸ member
  · exact hlisted

end Access

namespace InheritancePath

/-- The path continued along a way. -/
def along (path : InheritancePath) (way : List (BaseLink × Nat)) : InheritancePath :=
  way.foldl (fun path entry => path.step entry.1) path

@[simp]
theorem along_nil (path : InheritancePath) : path.along [] = path := rfl

@[simp]
theorem along_cons (path : InheritancePath) (entry : BaseLink × Nat) (way : List (BaseLink × Nat)) :
    path.along (entry :: way) = (path.step entry.1).along way := rfl

theorem isVirtual_along (path : InheritancePath) (way : List (BaseLink × Nat)) :
    (path.along way).isVirtual = true ↔ path.isVirtual = true ∨ ∃ entry ∈ way, entry.1.isVirtual = true := by
  induction way generalizing path with
  | nil => simp
  | cons entry way ih =>
      rw [along_cons, ih]
      simp [step, or_assoc]

theorem rank_along (path : InheritancePath) (way : List (BaseLink × Nat)) :
    (path.along way).access.rank =
      way.foldl (fun rank entry => max rank entry.1.access.rank) path.access.rank := by
  induction way generalizing path with
  | nil => rfl
  | cons entry way ih => rw [along_cons, ih, List.foldl_cons, step, Access.rank_through]

end InheritancePath

namespace Table

variable {table : Table} {owner origin id : SymbolId} {way : List (BaseLink × Nat)}

/-! ## Ways up to a base -/

/-- Links, each with its position in the list of its class, that lead from a class up to `owner` and do not
arrive there before the last one. -/
inductive Arrives (table : Table) (owner : SymbolId) : SymbolId → List (BaseLink × Nat) → Prop where
  | last {id : SymbolId} {entry : BaseLink × Nat} (listed : entry ∈ (table.symbol id).parents.zipIdx)
      (arrives : table.classOf entry.1.parent = owner) : Arrives table owner id [entry]
  | step {id : SymbolId} {entry : BaseLink × Nat} {rest : List (BaseLink × Nat)}
      (listed : entry ∈ (table.symbol id).parents.zipIdx) (before : table.classOf entry.1.parent ≠ owner)
      (further : Arrives table owner (table.classOf entry.1.parent) rest) :
      Arrives table owner id (entry :: rest)

/-- The ways of at most `depth` links from a class up to `owner`. -/
def arrivals (table : Table) (owner : SymbolId) : Nat → SymbolId → List (List (BaseLink × Nat))
  | 0, _ => []
  | depth + 1, id =>
      (table.symbol id).parents.zipIdx.flatMap fun entry =>
        if table.classOf entry.1.parent = owner then [[entry]]
        else (arrivals table owner depth (table.classOf entry.1.parent)).map (entry :: ·)

theorem arrives_of_mem_arrivals {depth : Nat} (member : way ∈ table.arrivals owner depth id) :
    table.Arrives owner id way := by
  induction depth generalizing id way with
  | zero => exact absurd member List.not_mem_nil
  | succ depth ih =>
      obtain ⟨entry, listed, hway⟩ := List.mem_flatMap.mp member
      split at hway
      · rename_i arrives
        cases List.mem_singleton.mp hway
        exact .last listed arrives
      · rename_i before
        obtain ⟨rest, hrest, rfl⟩ := List.mem_map.mp hway
        exact .step listed before (ih hrest)

/-- No way is listed twice. -/
theorem nodup_arrivals (table : Table) (owner : SymbolId) (depth : Nat) (id : SymbolId) :
    (table.arrivals owner depth id).Nodup := by
  induction depth generalizing id with
  | zero => exact List.nodup_nil
  | succ depth ih =>
      have hfirst : ∀ {entry : BaseLink × Nat} {way : List (BaseLink × Nat)},
          way ∈ (if table.classOf entry.1.parent = owner then [[entry]]
            else (table.arrivals owner depth (table.classOf entry.1.parent)).map (entry :: ·)) →
          way.head? = some entry := by
        intro entry way member
        split at member
        · rw [List.mem_singleton.mp member]
          rfl
        · obtain ⟨rest, -, rfl⟩ := List.mem_map.mp member
          rfl
      refine List.nodup_flatMap.mpr ⟨fun entry _ => ?_, ?_⟩
      · split
        · exact List.nodup_singleton _
        · exact (ih _).map fun _ _ same => (List.cons.inj same).2
      · have hentries : (table.symbol id).parents.zipIdx.Nodup := by
          refine List.Nodup.of_map (·.2) ?_
          rw [List.zipIdx_map_snd]
          exact List.nodup_range'
        refine hentries.imp fun {a b} differ way hwayA hwayB => ?_
        exact differ (Option.some.inj ((hfirst hwayA).symm.trans (hfirst hwayB)))

/-! ## The search for the ways -/

/-- What one link gives in a search that succeeds. -/
theorem inheritancePathsFrom_inv {depth : Nat} {visited : List SymbolId} {path : InheritancePath}
    {found : List InheritancePath}
    (ok : table.inheritancePathsFrom owner depth visited path id = .ok found) :
    ∃ less, depth = less + 1 ∧ ∃ each : BaseLink → List InheritancePath,
      found = ((table.symbol id).parents.map each).flatten ∧
      ∀ link ∈ (table.symbol id).parents,
        (table.classOf link.parent = owner → each link = [path.step link]) ∧
        (table.classOf link.parent ≠ owner → table.classOf link.parent ∉ visited ∧
          table.inheritancePathsFrom owner less (table.classOf link.parent :: visited) (path.step link)
            (table.classOf link.parent) = .ok (each link)) := by
  cases depth with
  | zero => cases ok
  | succ depth =>
      simp only [inheritancePathsFrom, bind, Except.bind] at ok
      split at ok
      · cases ok
      · rename_i results hresults
        cases ok
        obtain ⟨each, rfl, heach⟩ := exists_of_mapM_ok hresults
        refine ⟨depth, rfl, each, rfl, fun link listed => ⟨fun arrives => ?_, fun before => ?_⟩⟩
        · have hlink := heach link listed
          rw [if_pos arrives] at hlink
          exact (Except.ok.inj hlink).symm
        · have hlink := heach link listed
          rw [if_neg before] at hlink
          split at hlink
          · cases hlink
          · rename_i off
            exact ⟨off, hlink⟩

/-- The search finds the ways, with the accesses and virtual links along them. -/
theorem inheritancePathsFrom_ok {depth : Nat} {visited : List SymbolId} {path : InheritancePath}
    {found : List InheritancePath}
    (ok : table.inheritancePathsFrom owner depth visited path id = .ok found) :
    found = (table.arrivals owner depth id).map path.along := by
  induction depth generalizing visited path id found with
  | zero => cases ok
  | succ depth ih =>
      obtain ⟨less, hless, each, rfl, heach⟩ := inheritancePathsFrom_inv ok
      cases hless
      have hentry : ∀ entry ∈ (table.symbol id).parents.zipIdx, each entry.1 =
          (if table.classOf entry.1.parent = owner then [[entry]]
            else (table.arrivals owner depth (table.classOf entry.1.parent)).map (entry :: ·)).map
              path.along := by
        intro entry listed
        obtain ⟨harrives, hbefore⟩ := heach entry.1 (List.fst_mem_of_mem_zipIdx listed)
        split
        · rename_i arrives
          exact harrives arrives
        · rename_i before
          rw [ih (hbefore before).2, List.map_map]
          rfl
      rw [arrivals, List.map_flatMap, ← List.flatMap_def]
      conv_lhs => rw [← List.zipIdx_map_fst 0 (table.symbol id).parents, List.flatMap_map]
      exact List.flatMap_congr hentry

/-- A search that succeeds goes deep enough for every way. -/
theorem mem_arrivals_of_arrives {depth : Nat} {visited : List SymbolId} {path : InheritancePath}
    {found : List InheritancePath}
    (ok : table.inheritancePathsFrom owner depth visited path id = .ok found)
    (arrives : table.Arrives owner id way) : way ∈ table.arrivals owner depth id := by
  induction arrives generalizing depth visited path found with
  | last listed arrives =>
      obtain ⟨depth, rfl, -⟩ := inheritancePathsFrom_inv ok
      exact List.mem_flatMap.mpr ⟨_, listed, by simp [arrives]⟩
  | @step id entry rest listed before further ih =>
      obtain ⟨depth, rfl, each, -, heach⟩ := inheritancePathsFrom_inv ok
      have hrest := ih ((heach entry.1 (List.fst_mem_of_mem_zipIdx listed)).2 before).2
      refine List.mem_flatMap.mpr ⟨_, listed, ?_⟩
      rw [if_neg before]
      exact List.mem_map_of_mem hrest

/-! ## Circles before the base -/

/-- A class lists a base that is not `owner`. -/
def Passes (table : Table) (owner derived base : SymbolId) : Prop :=
  table.Derives derived base ∧ base ≠ owner

/-- A class that is reached from `origin` without going through `owner` derives from itself without going
through `owner`. -/
def CircularBefore (table : Table) (owner origin : SymbolId) : Prop :=
  ∃ id, ReflTransGen (table.Passes owner) origin id ∧ TransGen (table.Passes owner) id id

/-- A circle that is reached from a class begins with, or is reached from, one of its bases. -/
theorem CircularBefore.exists_base (circular : table.CircularBefore owner id) :
    ∃ base, table.Passes owner id base ∧ table.CircularBefore owner base := by
  obtain ⟨on, above, circle⟩ := circular
  rcases ReflTransGen.cases_head above with rfl | ⟨base, passes, further⟩
  · obtain ⟨base, passes, back⟩ := TransGen.head'_iff.mp circle
    exact ⟨base, passes, id, back, circle⟩
  · exact ⟨base, passes, on, further, circle⟩

/-- Where inheritance is acyclic, no circle is reached. -/
theorem AcyclicBases.not_circularBefore (acyclic : table.AcyclicBases origin) (owner : SymbolId) :
    ¬ table.CircularBefore owner origin := by
  rintro ⟨on, above, circle⟩
  have hderives : table.Passes owner ≤ table.Derives := fun _ _ passes => passes.1
  exact acyclic on (ReflTransGen.mono hderives _ _ above) (TransGen.mono hderives _ _ circle)

/-- A search that succeeds meets no circle. -/
theorem not_circularBefore_of_ok {depth : Nat} {visited : List SymbolId} {path : InheritancePath}
    {found : List InheritancePath}
    (ok : table.inheritancePathsFrom owner depth visited path id = .ok found) :
    ¬ table.CircularBefore owner id := by
  induction depth generalizing visited path id found with
  | zero => cases ok
  | succ depth ih =>
      intro circular
      obtain ⟨less, hless, each, -, heach⟩ := inheritancePathsFrom_inv ok
      cases hless
      obtain ⟨base, ⟨derives, before⟩, further⟩ := circular.exists_base
      obtain ⟨link, listed, rfl⟩ := List.mem_map.mp derives
      exact ih ((heach link listed).2 before).2 further

/-- With enough depth left for the path to grow as long as it can, a search that fails reports a class on a
circle. -/
theorem inheritancePathsFrom_reports {depth : Nat} {visited : List SymbolId} {path : InheritancePath}
    {error : SemanticError} (came : CameBy (table.Passes owner) visited id) (off : id ∉ visited)
    (enough : depth + visited.length = table.size + 1)
    (failed : table.inheritancePathsFrom owner depth (id :: visited) path id = .error error) :
    ∃ on, ReflTransGen (table.Passes owner) id on ∧ TransGen (table.Passes owner) on on ∧
      error = table.circular on := by
  induction depth generalizing visited path id with
  | zero =>
      have hlength := came.length_le fun passes => passes.1.lt_size
      omega
  | succ depth ih =>
      simp only [inheritancePathsFrom, bind, Except.bind] at failed
      split at failed
      · rename_i hfailed
        cases failed
        obtain ⟨link, listed, hlink⟩ := exists_of_mapM_error hfailed
        have hderives : table.Derives id (table.classOf link.parent) := List.mem_map_of_mem listed
        split at hlink
        · cases hlink
        · rename_i before
          have hcame := came.step_off off ⟨hderives, before⟩
          split at hlink
          · rename_i onPath
            cases hlink
            exact ⟨_, .single ⟨hderives, before⟩, hcame.leadsOn _ onPath, rfl⟩
          · rename_i offPath
            obtain ⟨on, above, circle, hname⟩ := ih hcame offPath (by rw [List.length_cons]; omega) hlink
            exact ⟨on, .head ⟨hderives, before⟩ above, circle, hname⟩
      · cases failed

/-! ## The access of a member -/

/-- How restrictive a member is along a way: as its own access or that of a link, whichever is worse. -/
def worstRank (member : Access) (way : List (BaseLink × Nat)) : Nat :=
  way.foldl (fun rank entry => max rank entry.1.access.rank) member.rank

theorem rank_through_along (member : Access) (way : List (BaseLink × Nat)) :
    (member.through (({} : InheritancePath).along way).access).rank = worstRank member way := by
  have hmax : ∀ a b : Nat, way.foldl (fun rank entry => max rank entry.1.access.rank) (max a b) =
      max a (way.foldl (fun rank entry => max rank entry.1.access.rank) b) := by
    intro a b
    induction way generalizing b with
    | nil => rfl
    | cons entry way ih => rw [List.foldl_cons, List.foldl_cons, Nat.max_assoc, ih]
  rw [Access.rank_through, InheritancePath.rank_along, ← hmax]
  exact congrArg (fun rank => way.foldl _ rank) (Nat.max_zero member.rank)

/-- The ways up to the class of a member agree on its access, or the best one counts: there is one way only, or
the member is static or an enumerator, or every way has a virtual link. -/
def AccessSettled (table : Table) (member owner origin : SymbolId) : Prop :=
  (∃! way, table.Arrives owner origin way) ∨ (table.symbol member).isSharedMember = true ∨
    ∀ way, table.Arrives owner origin way → ∃ entry ∈ way, entry.1.isVirtual = true

/-- The best access along the ways up to the class of a member. -/
def IsBestAccess (table : Table) (member owner origin : SymbolId) (access : Access) : Prop :=
  (∃ way, table.Arrives owner origin way ∧ access.rank = worstRank (table.symbol member).access way) ∧
    ∀ way, table.Arrives owner origin way → access.rank ≤ worstRank (table.symbol member).access way

variable {member scope start : SymbolId}

section

variable {ways : List (List (BaseLink × Nat))}
  (listed : ∀ way, way ∈ ways ↔ table.Arrives owner origin way)

include listed

/-- Several ways settle the access if the member is the same along all of them. -/
theorem accessSettled_iff {first second : List (BaseLink × Nat)} (isWay : first ∈ ways)
    (isOther : second ∈ ways) (differ : first ≠ second) :
    table.AccessSettled member owner origin ↔
      ((table.symbol member).isSharedMember ||
        (ways.map ({} : InheritancePath).along).all (·.isVirtual)) = true := by
  have hseveral : ¬ ∃! way, table.Arrives owner origin way := by
    rintro ⟨only, -, unique⟩
    exact differ ((unique first ((listed first).mp isWay)).trans
      (unique second ((listed second).mp isOther)).symm)
  rw [AccessSettled, or_iff_right hseveral]
  simp [← listed, InheritancePath.isVirtual_along]

/-- The best of the accesses along the ways is the best access. -/
theorem isBestAccess_of_ways {access : Access}
    (attained : access ∈ (ways.map ({} : InheritancePath).along).map fun path =>
      (table.symbol member).access.through path.access)
    (least : ∀ other ∈ (ways.map ({} : InheritancePath).along).map fun path =>
      (table.symbol member).access.through path.access, access.rank ≤ other.rank) :
    table.IsBestAccess member owner origin access := by
  rw [List.map_map] at attained least
  constructor
  · obtain ⟨way, hway, rfl⟩ := List.mem_map.mp attained
    exact ⟨way, (listed way).mp hway, rank_through_along _ way⟩
  · intro way arrives
    rw [← rank_through_along]
    exact least _ (List.mem_map_of_mem ((listed way).mpr arrives))

/-- The access of a member that is inherited along the listed ways. -/
theorem visibility_of_ways (declared : (table.symbol member).scope = some scope)
    (isOwner : table.classOf scope = owner) (named : table.classOf start = origin) (inherited : owner ≠ origin)
    (nodup : ways.Nodup)
    (paths : table.inheritancePathsFrom owner (table.size + 1) [origin] {} origin =
      .ok (ways.map ({} : InheritancePath).along)) :
    (ways = [] → table.visibility member start = .error (.badVisibility (table.symbol member).name)) ∧
    (ways ≠ [] → table.AccessSettled member owner origin →
      ∃ access, table.visibility member start = .ok access ∧ table.IsBestAccess member owner origin access) ∧
    (ways ≠ [] → ¬ table.AccessSettled member owner origin →
      table.visibility member start = .error (.ambiguous (table.symbol member).name)) := by
  simp only [visibility, declared, isOwner, named, if_neg inherited, paths, bind, Except.bind]
  match ways with
  | [] => exact ⟨fun _ => rfl, fun some => absurd rfl some, fun some => absurd rfl some⟩
  | [only] =>
      have hsettled : table.AccessSettled member owner origin :=
        .inl ⟨only, (listed only).mp (List.mem_singleton_self only), fun way arrives =>
          List.mem_singleton.mp ((listed way).mpr arrives)⟩
      refine ⟨(nomatch ·), fun _ _ => ⟨_, rfl, ?_⟩, fun _ unsettled => absurd hsettled unsettled⟩
      exact isBestAccess_of_ways listed (List.mem_singleton_self _) fun other member =>
        (congrArg Access.rank (List.mem_singleton.mp member)).ge
  | first :: second :: rest =>
      have hdiffer : first ≠ second := fun same => (List.nodup_cons.mp nodup).1 (by simp [same])
      have hsettled : table.AccessSettled member owner origin ↔ _ :=
        accessSettled_iff listed List.mem_cons_self (List.mem_cons_of_mem first List.mem_cons_self) hdiffer
      refine ⟨(nomatch ·), fun _ settled => ?_, fun _ unsettled => ?_⟩
      · refine ⟨_, if_pos (hsettled.mp settled), ?_⟩
        obtain ⟨hmember, hleast⟩ := Access.foldl_best_priv (List.cons_ne_nil
          ((table.symbol member).access.through (({} : InheritancePath).along first).access)
          (((second :: rest).map ({} : InheritancePath).along).map fun path =>
            (table.symbol member).access.through path.access))
        exact isBestAccess_of_ways listed hmember hleast
      · exact if_neg (mt hsettled.mpr unsettled)

end

/-- The access of a member of a base class, as seen from a class that is not the base itself.  If a circle is
reached without going through the base, then it is reported.  Otherwise the access is denied exactly if no way
leads up to the base.  If ways do, then the access is the best among the worst along each of them, unless there
are several ways, one of them has no virtual link, and the member is neither static nor an enumerator; then the
access is ambiguous. -/
theorem visibility_of_inherited (declared : (table.symbol member).scope = some scope)
    (isOwner : table.classOf scope = owner) (named : table.classOf start = origin)
    (inherited : owner ≠ origin) :
    (table.CircularBefore owner origin →
      ∃ on, ReflTransGen (table.Passes owner) origin on ∧ TransGen (table.Passes owner) on on ∧
        table.visibility member start = .error (table.circular on)) ∧
    (¬ table.CircularBefore owner origin →
      (table.visibility member start = .error (.badVisibility (table.symbol member).name) ↔
        ∀ way, ¬ table.Arrives owner origin way) ∧
      ((∃ way, table.Arrives owner origin way) →
        (table.AccessSettled member owner origin → ∃ access,
          table.visibility member start = .ok access ∧ table.IsBestAccess member owner origin access) ∧
        (¬ table.AccessSettled member owner origin →
          table.visibility member start = .error (.ambiguous (table.symbol member).name)))) := by
  cases hpaths : table.inheritancePathsFrom owner (table.size + 1) [origin] {} origin with
  | error error =>
      obtain ⟨on, above, circle, rfl⟩ :=
        inheritancePathsFrom_reports (.nil (table.Passes owner) origin) List.not_mem_nil rfl hpaths
      refine ⟨fun _ => ⟨on, above, circle, ?_⟩, fun clear => absurd ⟨on, above, circle⟩ clear⟩
      simp [visibility, declared, isOwner, named, inherited, hpaths, bind, Except.bind]
  | ok found =>
      have hlisted : ∀ way, way ∈ table.arrivals owner (table.size + 1) origin ↔
          table.Arrives owner origin way := fun way =>
        ⟨arrives_of_mem_arrivals, mem_arrivals_of_arrives hpaths⟩
      obtain ⟨hnone, hsettled, hambiguous⟩ := visibility_of_ways hlisted declared isOwner named inherited
        (table.nodup_arrivals owner (table.size + 1) origin)
        (hpaths.trans (congrArg Except.ok (inheritancePathsFrom_ok hpaths)))
      have hempty : table.arrivals owner (table.size + 1) origin = [] ↔
          ∀ way, ¬ table.Arrives owner origin way := by
        simp only [List.eq_nil_iff_forall_not_mem, hlisted]
      refine ⟨fun circular => absurd circular (not_circularBefore_of_ok hpaths), fun _ => ⟨⟨?_, ?_⟩, ?_⟩⟩
      · intro denied
        by_contra some
        have hsome := mt hempty.mp some
        by_cases settled : table.AccessSettled member owner origin
        · obtain ⟨access, hok, -⟩ := hsettled hsome settled
          cases denied.symm.trans hok
        · cases denied.symm.trans (hambiguous hsome settled)
      · exact fun none => hnone (hempty.mpr none)
      · rintro ⟨way, arrives⟩
        have hsome : table.arrivals owner (table.size + 1) origin ≠ [] :=
          List.ne_nil_of_mem ((hlisted way).mpr arrives)
        exact ⟨hsettled hsome, hambiguous hsome⟩

end Table

namespace Analysis

open Table

/-- A class with a static member, and another class that derives from it twice: once through a class that has it
as a private base, and once through a class that has it as a protected base. -/
def sharedMemberTable : Table :=
  finalTable (Table.new {}) do
    let top ← createClass ⟨18⟩ .cls
    let shared ← createBasic ⟨17⟩ ((Descriptor.ofKind .int).withFlags { specifiers := { isStatic := true } })
    addSymbol top shared
    let left ← createClass ⟨19⟩ .cls
    addParent left top .priv false
    let right ← createClass ⟨20⟩ .cls
    addParent right top .prot false
    let bottom ← createClass ⟨21⟩ .cls
    addParent bottom left .pub false
    addParent bottom right .pub false

/-- The static member is protected in the class that derives from its class twice, although it is private
along one of the ways. -/
theorem static_member_protected :
    (sharedMemberTable.symbol ⟨2⟩).scope = some ⟨1⟩ ∧ sharedMemberTable.classOf ⟨1⟩ = ⟨1⟩ ∧
      sharedMemberTable.classOf ⟨5⟩ = ⟨5⟩ ∧ ¬ sharedMemberTable.CircularBefore ⟨1⟩ ⟨5⟩ ∧
      sharedMemberTable.visibility ⟨2⟩ ⟨5⟩ = .ok .prot ∧
      sharedMemberTable.IsBestAccess ⟨2⟩ ⟨1⟩ ⟨5⟩ .prot := by
  have hdeclared : (sharedMemberTable.symbol ⟨2⟩).scope = some ⟨1⟩ := by decide +kernel
  have howner : sharedMemberTable.classOf ⟨1⟩ = ⟨1⟩ := by decide +kernel
  have hnamed : sharedMemberTable.classOf ⟨5⟩ = ⟨5⟩ := by decide +kernel
  have hclear : ¬ sharedMemberTable.CircularBefore ⟨1⟩ ⟨5⟩ :=
    (AcyclicBases.of_older (by decide +kernel) ⟨5⟩).not_circularBefore ⟨1⟩
  have hways : sharedMemberTable.arrivals ⟨1⟩ 2 ⟨5⟩ ≠ [] := by decide +kernel
  obtain ⟨way, hway⟩ := List.exists_mem_of_ne_nil _ hways
  have hanswer := (((visibility_of_inherited hdeclared howner hnamed (by decide)).2 hclear).2
    ⟨way, arrives_of_mem_arrivals hway⟩).1 (.inr (.inl (by decide +kernel)))
  have haccess : sharedMemberTable.visibility ⟨2⟩ ⟨5⟩ = .ok .prot := by decide +kernel
  obtain ⟨access, hok, hbest⟩ := hanswer
  cases haccess.symm.trans hok
  exact ⟨hdeclared, howner, hnamed, hclear, haccess, hbest⟩

end Analysis

end NameBinding
