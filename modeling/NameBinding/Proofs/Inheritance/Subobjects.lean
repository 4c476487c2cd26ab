import Mathlib.Data.List.Nodup
import NameBinding.SymbolId

/-!
# Base subobjects

A subobject of a class is what an inheritance path leads to, and two paths lead to the same one if they
agree from their last virtual link on.  The direct bases of a class are given by `bases`, each with
whether its link is virtual, and `supply` gives what a class has under the name that is looked for.

* `Subobject`, and `Subobject.along`, which takes one more link.
* `Exposed`: the subobjects that a path leads to along which no earlier class supplies anything.
* `Explores`: a run of the depth-first search, which enters every virtual base once.
* `unentered`: the direct bases that a search would follow which has entered some virtual bases already.

The main statement is `Explores.mem_iff`, by which a search meets the exposed subobjects that supply something.
-/

namespace NameBinding

/-- A subobject of a class, given by the virtual base that it is part of, if any, and the links from there
on.  A class may be listed twice as a direct base, so a link comes with how often its base was listed
before. -/
structure Subobject where
  root : Option SymbolId := none
  links : List (SymbolId × Nat) := []
  deriving DecidableEq, Repr

/-- The subobject one link further on. -/
def Subobject.along (sub : Subobject) (link : SymbolId × Bool) (occurrence : Nat) : Subobject :=
  if link.2 then { root := some link.1 }
  else { sub with links := sub.links ++ [(link.1, occurrence)] }

/-- A path of links leads from `origin` to a subobject and its class, and no class on the path before the
last one supplies anything. -/
inductive Exposed (bases : SymbolId → List (SymbolId × Bool)) (supply : SymbolId → List SymbolId)
    (origin : SymbolId) : Subobject → SymbolId → Prop where
  | whole : Exposed bases supply origin {} origin
  | base {sub : Subobject} {id : SymbolId} {link : SymbolId × Bool} {occurrence : Nat}
      (derived : Exposed bases supply origin sub id) (silent : supply id = [])
      (listed : occurrence < (bases id).count link) :
      Exposed bases supply origin (sub.along link occurrence) link.1

/-- The virtual bases entered once a link has been followed. -/
def entered (link : SymbolId × Bool) (visited : List SymbolId) : List SymbolId :=
  if link.2 then link.1 :: visited else visited

/-- Following the links `rest` of a class that come after those in `before`, a depth-first search meets
`hits`, subobjects together with their classes, and enters the virtual bases that `after` has in addition
to `visited`. -/
inductive Explores (bases : SymbolId → List (SymbolId × Bool)) (supply : SymbolId → List SymbolId) :
    (here : Subobject) → (before rest : List (SymbolId × Bool)) → (visited : List SymbolId) →
      (hits : List (Subobject × SymbolId)) → (after : List SymbolId) → Prop where
  | done {here : Subobject} {before : List (SymbolId × Bool)} {visited : List SymbolId} :
      Explores bases supply here before [] visited [] visited
  | again {here : Subobject} {before rest : List (SymbolId × Bool)} {visited after : List SymbolId}
      {hits : List (Subobject × SymbolId)} {link : SymbolId × Bool}
      (old : link.2 = true ∧ link.1 ∈ visited)
      (others : Explores bases supply here (before ++ [link]) rest visited hits after) :
      Explores bases supply here before (link :: rest) visited hits after
  | supplies {here : Subobject} {before rest : List (SymbolId × Bool)}
      {visited after : List SymbolId} {hits : List (Subobject × SymbolId)} {link : SymbolId × Bool}
      (isNew : ¬ (link.2 = true ∧ link.1 ∈ visited)) (found : supply link.1 ≠ [])
      (others : Explores bases supply here (before ++ [link]) rest (entered link visited) hits after) :
      Explores bases supply here before (link :: rest) visited
        ((here.along link (before.count link), link.1) :: hits) after
  | silent {here : Subobject} {before rest : List (SymbolId × Bool)}
      {visited between after : List SymbolId} {inner hits : List (Subobject × SymbolId)}
      {link : SymbolId × Bool}
      (isNew : ¬ (link.2 = true ∧ link.1 ∈ visited)) (none : supply link.1 = [])
      (deeper : Explores bases supply (here.along link (before.count link)) [] (bases link.1)
        (entered link visited) inner between)
      (others : Explores bases supply here (before ++ [link]) rest between hits after) :
      Explores bases supply here before (link :: rest) visited (inner ++ hits) after

variable {bases : SymbolId → List (SymbolId × Bool)} {supply : SymbolId → List SymbolId}
  {origin id : SymbolId} {here sub : Subobject} {before rest : List (SymbolId × Bool)}
  {visited after : List SymbolId} {hits : List (Subobject × SymbolId)}

theorem mem_entered {link : SymbolId × Bool} {root : SymbolId} :
    root ∈ entered link visited ↔ (link.2 = true ∧ root = link.1) ∨ root ∈ visited := by
  unfold entered
  split <;> simp_all

/-- The direct bases of a class without the virtual ones that have been entered. -/
def unentered (bases : SymbolId → List (SymbolId × Bool)) (visited : List SymbolId) (id : SymbolId) :
    List (SymbolId × Bool) :=
  (bases id).filter fun link => ¬ (link.2 = true ∧ link.1 ∈ visited)

theorem mem_unentered {link : SymbolId × Bool} :
    link ∈ unentered bases visited id ↔ link ∈ bases id ∧ ¬ (link.2 = true ∧ link.1 ∈ visited) := by
  rw [unentered, List.mem_filter, decide_eq_true_iff]

theorem unentered_nil (bases : SymbolId → List (SymbolId × Bool)) : unentered bases [] = bases := by
  funext id
  simp [unentered]

/-- Exposure only depends on how often the links are listed, and on what the classes supply. -/
theorem Exposed.congr {bases' : SymbolId → List (SymbolId × Bool)}
    {supply' : SymbolId → List SymbolId} (exposed : Exposed bases supply origin sub id)
    (links : ∀ id link, (bases id).count link = (bases' id).count link)
    (supplies : ∀ id, supply id = supply' id) : Exposed bases' supply' origin sub id := by
  induction exposed with
  | whole => exact .whole
  | @base sub id link occurrence _ silent listed ih =>
      exact .base ih ((supplies id).symm.trans silent) (links id link ▸ listed)

namespace Explores

/-! ## What is met is exposed -/

theorem count_lt_of_links {link : SymbolId × Bool} (links : bases id = before ++ link :: rest) :
    before.count link < (bases id).count link := by
  rw [links, List.count_append, List.count_cons_self]
  omega

/-- A search meets exposed subobjects that supply something. -/
theorem sound (run : Explores bases supply here before rest visited hits after)
    (exposed : Exposed bases supply origin here id) (silent : supply id = [])
    (links : bases id = before ++ rest) :
    ∀ hit ∈ hits, Exposed bases supply origin hit.1 hit.2 ∧ supply hit.2 ≠ [] := by
  induction run generalizing id with
  | done => exact fun hit member => absurd member List.not_mem_nil
  | again _ _ ih => exact ih exposed silent (by simpa using links)
  | supplies _ found _ ih =>
      intro hit member
      rcases List.mem_cons.mp member with rfl | later
      · exact ⟨.base exposed silent (count_lt_of_links links), found⟩
      · exact ih exposed silent (by simpa using links) hit later
  | silent _ none _ _ ihDeeper ih =>
      intro hit member
      rcases List.mem_append.mp member with deeper | later
      · exact ihDeeper (.base exposed silent (count_lt_of_links links)) none rfl hit deeper
      · exact ih exposed silent (by simpa using links) hit later

end Explores

/-! ## What is exposed is met -/

/-- A path of plain links leads from one subobject to another, and no class on it before the last one
supplies anything. -/
inductive Plain (bases : SymbolId → List (SymbolId × Bool)) (supply : SymbolId → List SymbolId) :
    Subobject → SymbolId → Subobject → SymbolId → Prop where
  | refl {here : Subobject} {id : SymbolId} : Plain bases supply here id here id
  | head {here sub : Subobject} {id base last : SymbolId} {occurrence : Nat} (silent : supply id = [])
      (listed : occurrence < (bases id).count (base, false))
      (further : Plain bases supply (here.along (base, false) occurrence) base sub last) :
      Plain bases supply here id sub last

theorem Plain.tail {last base : SymbolId} {occurrence : Nat}
    (path : Plain bases supply here id sub last) (silent : supply last = [])
    (listed : occurrence < (bases last).count (base, false)) :
    Plain bases supply here id (sub.along (base, false) occurrence) base := by
  induction path with
  | refl => exact .head silent listed .refl
  | head silentFirst listedFirst _ ih => exact .head silentFirst listedFirst (ih silent listed)

/-- Whatever plain paths from a subobject lead to has been met, and the virtual bases that they pass have
been entered. -/
structure Covered (bases : SymbolId → List (SymbolId × Bool)) (supply : SymbolId → List SymbolId)
    (hits : List (Subobject × SymbolId)) (after : List SymbolId) (here : Subobject) (id : SymbolId) :
    Prop where
  met : ∀ {sub last}, Plain bases supply here id sub last → supply last ≠ [] → (sub, last) ∈ hits
  enters : ∀ {sub last}, Plain bases supply here id sub last → supply last = [] →
    ∀ base, (base, true) ∈ bases last → base ∈ after

namespace Covered

theorem mono {hits' : List (Subobject × SymbolId)} {after' : List SymbolId}
    (covered : Covered bases supply hits after here id) (more : ∀ hit ∈ hits, hit ∈ hits')
    (further : ∀ root ∈ after, root ∈ after') : Covered bases supply hits' after' here id :=
  ⟨fun path found => more _ (covered.met path found),
    fun path silent base listed => further base (covered.enters path silent base listed)⟩

/-- No path leads on from a class that supplies something. -/
theorem of_supplies (found : supply id ≠ []) (met : (here, id) ∈ hits) :
    Covered bases supply hits after here id where
  met := by
    intro sub last path _
    cases path with
    | refl => exact met
    | head silent => exact absurd silent found
  enters := by
    intro sub last path silentLast
    cases path with
    | refl => exact absurd silentLast found
    | head silent => exact absurd silent found

/-- A path leads on from a class that supplies nothing through one of its bases. -/
theorem of_silent (silent : supply id = [])
    (plain : ∀ base occurrence, occurrence < (bases id).count (base, false) →
      Covered bases supply hits after (here.along (base, false) occurrence) base)
    (virtuals : ∀ base, (base, true) ∈ bases id → base ∈ after) :
    Covered bases supply hits after here id where
  met := by
    intro sub last path found
    cases path with
    | refl => exact absurd silent found
    | head _ listed further => exact (plain _ _ listed).met further found
  enters := by
    intro sub last path silentLast
    cases path with
    | refl => exact virtuals
    | head _ listed further => exact (plain _ _ listed).enters further silentLast

end Covered

namespace Explores

/-- The links that were followed, and the virtual bases that were entered, are covered. -/
structure Completed (bases : SymbolId → List (SymbolId × Bool)) (supply : SymbolId → List SymbolId)
    (here : Subobject) (before rest : List (SymbolId × Bool)) (visited : List SymbolId)
    (hits : List (Subobject × SymbolId)) (after : List SymbolId) : Prop where
  grows : ∀ root ∈ visited, root ∈ after
  plain : ∀ base occurrence, before.count (base, false) ≤ occurrence →
    occurrence < (before ++ rest).count (base, false) →
      Covered bases supply hits after (here.along (base, false) occurrence) base
  virtuals : ∀ base, (base, true) ∈ rest → base ∈ after
  roots : ∀ root ∈ after, root ∈ visited ∨ Covered bases supply hits after { root := some root } root

/-- One more link is completed if its base has been entered before, or is covered. -/
theorem Completed.cons {link : SymbolId × Bool} {between : List SymbolId}
    (inner : List (Subobject × SymbolId))
    (others : Completed bases supply here (before ++ [link]) rest between hits after)
    (grows : ∀ root ∈ visited, root ∈ between)
    (plain : link.2 = false →
      Covered bases supply inner between (here.along link (before.count link)) link.1)
    (virtuals : link.2 = true → link.1 ∈ between)
    (roots : ∀ root ∈ between,
      root ∈ visited ∨ Covered bases supply inner between { root := some root } root) :
    Completed bases supply here before (link :: rest) visited (inner ++ hits) after where
  grows root member := others.grows root (grows root member)
  plain base occurrence late listed := by
    by_cases hlink : link = (base, false) ∧ occurrence = before.count link
    · obtain ⟨rfl, rfl⟩ := hlink
      exact (plain rfl).mono (fun hit member => List.mem_append_left _ member) others.grows
    · have hlate : (before ++ [link]).count (base, false) ≤ occurrence := by
        rw [List.count_append, List.count_singleton]
        split
        · rename_i hsame
          have hbase : link = (base, false) := by simpa using hsame
          have hdiffers : occurrence ≠ before.count link := fun same => hlink ⟨hbase, same⟩
          rw [hbase] at hdiffers
          omega
        · omega
      have hcovered := others.plain base occurrence hlate (by simpa using listed)
      exact hcovered.mono (fun hit member => List.mem_append_right _ member) fun _ member => member
  virtuals base listed := by
    rcases List.mem_cons.mp listed with rfl | later
    · exact others.grows base (virtuals rfl)
    · exact others.virtuals base later
  roots root member := by
    rcases others.roots root member with earlier | covered
    · rcases roots root earlier with old | covered
      · exact .inl old
      · exact .inr (covered.mono (fun hit member => List.mem_append_left _ member) others.grows)
    · exact .inr (covered.mono (fun hit member => List.mem_append_right _ member) fun _ member => member)

/-- A search covers what it follows and what it enters. -/
theorem completed (run : Explores bases supply here before rest visited hits after) :
    Completed bases supply here before rest visited hits after := by
  induction run with
  | done =>
      refine ⟨fun _ member => member, fun base occurrence late listed => ?_,
        fun _ listed => absurd listed List.not_mem_nil, fun _ member => .inl member⟩
      rw [List.append_nil] at listed
      omega
  | @again _ _ _ _ _ _ link old _ ih =>
      exact ih.cons [] (fun _ member => member)
        (fun plain => absurd old.1 (by simp [plain])) (fun _ => old.2) fun _ member => .inl member
  | @supplies here before rest visited after hits link isNew found others ih =>
      have hmet : ∀ sub, sub = here.along link (before.count link) →
          Covered bases supply [(here.along link (before.count link), link.1)] (entered link visited) sub
            link.1 := fun sub same => .of_supplies found (by simp [same])
      refine ih.cons [(here.along link (before.count link), link.1)]
        (fun root member => mem_entered.mpr (.inr member)) (fun _ => hmet _ rfl)
        (fun isVirtual => mem_entered.mpr (.inl ⟨isVirtual, rfl⟩)) fun root member => ?_
      rcases mem_entered.mp member with ⟨isVirtual, rfl⟩ | old
      · exact .inr (hmet _ (by simp [Subobject.along, isVirtual]))
      · exact .inl old
  | @silent here before rest visited between after inner hits link isNew none deeper others ihDeeper ih =>
      -- The links of the base were followed from the first one on, so what they lead to is covered.
      have hcovered : Covered bases supply inner between (here.along link (before.count link)) link.1 :=
        .of_silent none (fun base occurrence listed =>
          ihDeeper.plain base occurrence (Nat.zero_le _) listed) ihDeeper.virtuals
      refine ih.cons inner (fun root member => ihDeeper.grows root (mem_entered.mpr (.inr member)))
        (fun _ => hcovered)
        (fun isVirtual => ihDeeper.grows link.1 (mem_entered.mpr (.inl ⟨isVirtual, rfl⟩)))
        fun root member => ?_
      rcases ihDeeper.roots root member with earlier | covered
      · rcases mem_entered.mp earlier with ⟨isVirtual, rfl⟩ | old
        · exact .inr (by simpa [Subobject.along, isVirtual] using hcovered)
        · exact .inl old
      · exact .inr covered

/-- A search through all bases of a class that supplies nothing meets whatever supplies something and is
exposed along links that do not lead to a virtual base entered before the search. -/
theorem meets (run : Explores bases supply {} [] (bases origin) visited hits after)
    (silent : supply origin = []) (exposed : Exposed (unentered bases visited) supply origin sub id)
    (found : supply id ≠ []) : (sub, id) ∈ hits := by
  have hdone := run.completed
  have hroot : Covered bases supply hits after {} origin :=
    .of_silent silent (fun base occurrence listed => hdone.plain base occurrence (Nat.zero_le _) listed)
      hdone.virtuals
  -- Every exposed subobject lies on a plain path from the class itself or from an entered virtual base.
  have hcovered : ∀ {sub id}, Exposed (unentered bases visited) supply origin sub id →
      ∃ here first, Covered bases supply hits after here first ∧ Plain bases supply here first sub id := by
    intro sub id exposed
    induction exposed with
    | whole => exact ⟨{}, origin, hroot, .refl⟩
    | @base sub id link occurrence _ silent listed ih =>
        obtain ⟨here, first, hcovers, hpath⟩ := ih
        have hlinked := Nat.lt_of_lt_of_le listed (List.filter_sublist.count_le link)
        obtain ⟨base, isVirtual⟩ := link
        cases isVirtual with
        | false => exact ⟨here, first, hcovers, hpath.tail silent hlinked⟩
        | true =>
            have hentered := hcovers.enters hpath silent base (List.count_pos_iff.mp (by omega))
            have hnew := (mem_unentered.mp (List.count_pos_iff.mp (Nat.zero_lt_of_lt listed))).2
            have hbase := (hdone.roots base hentered).resolve_left fun old => hnew ⟨rfl, old⟩
            exact ⟨{ root := some base }, base, hbase, .refl⟩
  obtain ⟨here, first, hcovers, hpath⟩ := hcovered exposed
  exact hcovers.met hpath found

/-- A search through all bases of a class that supplies nothing meets the exposed subobjects that supply
something, and nothing else. -/
theorem mem_iff (run : Explores bases supply {} [] (bases origin) [] hits after)
    (silent : supply origin = []) (hit : Subobject × SymbolId) :
    hit ∈ hits ↔ Exposed bases supply origin hit.1 hit.2 ∧ supply hit.2 ≠ [] := by
  refine ⟨run.sound .whole silent rfl hit, fun ⟨exposed, found⟩ => run.meets silent ?_ found⟩
  rwa [unentered_nil]

/-! ## What is reached later -/

/-- The subobject is reached from `here` through a link that comes after those in `before`, or is part of
a virtual base that was entered only then. -/
def Beyond (here : Subobject) (before : List (SymbolId × Bool)) (visited after : List SymbolId)
    (sub : Subobject) : Prop :=
  (sub.root = here.root ∧ ∃ link further, sub.links = here.links ++ link :: further ∧
      before.count (link.1, false) ≤ link.2) ∨
    ∃ root, sub.root = some root ∧ root ∈ after ∧ root ∉ visited

/-- A search that comes to a subobject of a virtual base has entered that base. -/
def Rooted (here : Subobject) (visited : List SymbolId) : Prop :=
  ∀ root, here.root = some root → root ∈ visited

/-- The subobject is the one that a link leads to from `here`, or is reached from that one by plain links. -/
def Follows (here : Subobject) (link : SymbolId × Bool) (occurrence : Nat) (sub : Subobject) : Prop :=
  sub.root = (here.along link occurrence).root ∧
    ∃ further, sub.links = (here.along link occurrence).links ++ further

section Follows

variable {link : SymbolId × Bool}

theorem Rooted.along (rooted : Rooted here visited) (link : SymbolId × Bool) (occurrence : Nat) :
    Rooted (here.along link occurrence) (entered link visited) := by
  intro root hroot
  unfold Subobject.along at hroot
  split at hroot
  · rename_i isVirtual
    exact mem_entered.mpr (.inl ⟨isVirtual, (Option.some.inj hroot).symm⟩)
  · exact mem_entered.mpr (.inr (rooted root hroot))

theorem Beyond.mono {before' : List (SymbolId × Bool)} {visited' after' : List SymbolId}
    (isBeyond : Beyond here before' visited' after sub)
    (longer : ∀ link, before.count link ≤ before'.count link)
    (earlier : ∀ root ∈ visited, root ∈ visited') (grows : ∀ root ∈ after, root ∈ after') :
    Beyond here before visited after' sub := by
  rcases isBeyond with ⟨hroot, link, further, hlinks, hcount⟩ | ⟨root, hroot, hafter, hvisited⟩
  · exact .inl ⟨hroot, link, further, hlinks, Nat.le_trans (longer _) hcount⟩
  · exact .inr ⟨root, hroot, grows root hafter, fun old => hvisited (earlier root old)⟩

theorem Follows.refl (here : Subobject) (link : SymbolId × Bool) (occurrence : Nat) :
    Follows here link occurrence (here.along link occurrence) :=
  ⟨rfl, [], (List.append_nil _).symm⟩

/-- Where a new link leads lies beyond the links before it. -/
theorem Follows.beyond (follows : Follows here link (before.count link) sub)
    (isNew : ¬ (link.2 = true ∧ link.1 ∈ visited))
    (enters : ∀ root ∈ entered link visited, root ∈ after) : Beyond here before visited after sub := by
  obtain ⟨hroot, further, hlinks⟩ := follows
  obtain ⟨base, isVirtual⟩ := link
  cases isVirtual with
  | false => exact .inl ⟨hroot, (base, before.count (base, false)), further, by
      simpa [Subobject.along] using hlinks, Nat.le_refl _⟩
  | true => exact .inr ⟨base, hroot, enters base (mem_entered.mpr (.inl ⟨rfl, rfl⟩)), fun old =>
      isNew ⟨rfl, old⟩⟩

/-- It does not lie beyond the links up to that one. -/
theorem Follows.not_beyond {visited' : List SymbolId}
    (follows : Follows here link (before.count link) sub) (rooted : Rooted here visited)
    (isNew : ¬ (link.2 = true ∧ link.1 ∈ visited))
    (enters : ∀ root ∈ entered link visited, root ∈ visited') :
    ¬ Beyond here (before ++ [link]) visited' after sub := by
  obtain ⟨hroot, further, hlinks⟩ := follows
  obtain ⟨base, isVirtual⟩ := link
  cases isVirtual with
  | false =>
      rintro (⟨-, link, further', hlinks', hcount⟩ | ⟨root, hroot', -, hvisited⟩)
      · rw [hlinks] at hlinks'
        have hlink : link = (base, before.count (base, false)) := by
          simpa [Subobject.along] using (List.cons.inj (List.append_cancel_left
            ((List.append_assoc _ _ _).symm.trans hlinks'))).1.symm
        rw [hlink] at hcount
        dsimp only at hcount
        rw [List.count_append, List.count_singleton_self] at hcount
        omega
      · have hold := rooted root (hroot.symm.trans hroot')
        exact hvisited (enters root (mem_entered.mpr (.inr hold)))
  | true =>
      rintro (⟨hroot', -⟩ | ⟨root, hroot', -, hvisited⟩)
      · exact isNew ⟨rfl, rooted base (hroot'.symm.trans hroot)⟩
      · have hsame : root = base := Option.some.inj (hroot'.symm.trans hroot)
        exact hvisited (enters root (mem_entered.mpr (.inl ⟨rfl, hsame⟩)))

/-- What lies beyond the subobject that a link leads to follows from it, or is part of a virtual base
that was entered later. -/
theorem Beyond.cases_along {occurrence : Nat} {visited' : List SymbolId}
    (isBeyond : Beyond (here.along link occurrence) [] visited' after sub) :
    Follows here link occurrence sub ∨ ∃ root, sub.root = some root ∧ root ∈ after ∧ root ∉ visited' :=
  isBeyond.imp_left fun ⟨hroot, link, further, hlinks, _⟩ => ⟨hroot, link :: further, hlinks⟩

end Follows

end Explores

end NameBinding
