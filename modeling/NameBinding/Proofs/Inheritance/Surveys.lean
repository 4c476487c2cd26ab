import Mathlib.Logic.Function.Basic
import Mathlib.Logic.Relation
import NameBinding.Proofs.Inheritance.Subobjects

/-!
# Searches that look behind every class

A search for all names at once goes on behind a class whatever the class supplies, because it may not supply
the other names.  What is met behind a class that supplies a name is hidden by that class, and does not count
for the name.

* `Surveys`: a run of such a search, with the subobjects that count for one name.
* `Surveys.sound`: what counts is exposed, and was not entered before.
* `Surveys.nodup` and `Explores.nodup`: both searches meet each subobject once.
* `Surveys.met`: what counts is also met by a search that stops at the classes that supply the name.
* `NoVirtualAbove`: no class above a class, nor the class itself, has a virtual base.

The main statements are `Explores.agrees`, by which both searches meet the same subobject first, and enter the
same virtual bases if there is none, and `Explores.eq_of_survey`, by which they meet the same subobjects if no
virtual base is hidden behind a class that supplies the name.
-/

namespace NameBinding

open Relation

/-- Following the links `rest` of a class that come after those in `before`, a depth-first search that looks
behind every class enters the virtual bases that `after` has in addition to `visited`.  It meets `hits`, and
what is hidden behind them does not count. -/
inductive Surveys (bases : SymbolId → List (SymbolId × Bool)) (supply : SymbolId → List SymbolId) :
    (here : Subobject) → (before rest : List (SymbolId × Bool)) → (visited : List SymbolId) →
      (hits : List (Subobject × SymbolId)) → (after : List SymbolId) → Prop where
  | done {here : Subobject} {before : List (SymbolId × Bool)} {visited : List SymbolId} :
      Surveys bases supply here before [] visited [] visited
  | again {here : Subobject} {before rest : List (SymbolId × Bool)} {visited after : List SymbolId}
      {hits : List (Subobject × SymbolId)} {link : SymbolId × Bool}
      (old : link.2 = true ∧ link.1 ∈ visited)
      (others : Surveys bases supply here (before ++ [link]) rest visited hits after) :
      Surveys bases supply here before (link :: rest) visited hits after
  | supplies {here : Subobject} {before rest : List (SymbolId × Bool)}
      {visited between after : List SymbolId} {hidden hits : List (Subobject × SymbolId)}
      {link : SymbolId × Bool}
      (isNew : ¬ (link.2 = true ∧ link.1 ∈ visited)) (found : supply link.1 ≠ [])
      (deeper : Surveys bases supply (here.along link (before.count link)) [] (bases link.1)
        (entered link visited) hidden between)
      (others : Surveys bases supply here (before ++ [link]) rest between hits after) :
      Surveys bases supply here before (link :: rest) visited
        ((here.along link (before.count link), link.1) :: hits) after
  | silent {here : Subobject} {before rest : List (SymbolId × Bool)}
      {visited between after : List SymbolId} {inner hits : List (Subobject × SymbolId)}
      {link : SymbolId × Bool}
      (isNew : ¬ (link.2 = true ∧ link.1 ∈ visited)) (none : supply link.1 = [])
      (deeper : Surveys bases supply (here.along link (before.count link)) [] (bases link.1)
        (entered link visited) inner between)
      (others : Surveys bases supply here (before ++ [link]) rest between hits after) :
      Surveys bases supply here before (link :: rest) visited (inner ++ hits) after

variable {bases : SymbolId → List (SymbolId × Bool)} {supply : SymbolId → List SymbolId}
  {origin id : SymbolId} {here : Subobject} {before rest : List (SymbolId × Bool)}
  {visited after old : List SymbolId} {hits : List (Subobject × SymbolId)}

namespace Surveys

/-- No virtual base is forgotten. -/
theorem grows (run : Surveys bases supply here before rest visited hits after) :
    ∀ root ∈ visited, root ∈ after := by
  induction run with
  | done => exact fun _ member => member
  | again _ _ ih => exact ih
  | supplies _ _ _ _ ihDeeper ih =>
      exact fun root member => ih root (ihDeeper root (mem_entered.mpr (.inr member)))
  | silent _ _ _ _ ihDeeper ih =>
      exact fun root member => ih root (ihDeeper root (mem_entered.mpr (.inr member)))

/-- A link that is followed leads one step further from an exposed subobject. -/
theorem exposed_along {link : SymbolId × Bool} (known : ∀ root ∈ old, root ∈ visited)
    (exposed : Exposed (unentered bases old) supply origin here id) (silent : supply id = [])
    (links : bases id = before ++ link :: rest) (isNew : ¬ (link.2 = true ∧ link.1 ∈ visited)) :
    Exposed (unentered bases old) supply origin (here.along link (before.count link)) link.1 := by
  refine .base exposed silent ?_
  have hfollowed : ¬ (link.2 = true ∧ link.1 ∈ old) := fun entered => isNew ⟨entered.1, known _ entered.2⟩
  have hcount : (unentered bases old id).count link = (bases id).count link :=
    List.count_filter (decide_eq_true hfollowed)
  rw [hcount]
  exact Explores.count_lt_of_links links

/-- What counts supplies something, and is exposed along links that do not lead to a virtual base entered
before. -/
theorem sound (run : Surveys bases supply here before rest visited hits after)
    (known : ∀ root ∈ old, root ∈ visited)
    (exposed : Exposed (unentered bases old) supply origin here id) (silent : supply id = [])
    (links : bases id = before ++ rest) :
    ∀ hit ∈ hits, Exposed (unentered bases old) supply origin hit.1 hit.2 ∧ supply hit.2 ≠ [] := by
  induction run generalizing id with
  | done => exact fun hit member => absurd member List.not_mem_nil
  | again _ _ ih => exact ih known exposed silent (by simpa using links)
  | supplies isNew found deeper _ _ ih =>
      have hbetween := fun root member => deeper.grows root (mem_entered.mpr (.inr (known root member)))
      exact List.forall_mem_cons.mpr ⟨⟨exposed_along known exposed silent links isNew, found⟩,
        ih hbetween exposed silent (by simpa using links)⟩
  | @silent _ _ _ visited _ _ _ _ link isNew none deeper _ ihDeeper ih =>
      have hentered : ∀ root ∈ old, root ∈ entered link visited := fun root member =>
        mem_entered.mpr (.inr (known root member))
      have hbetween := fun root member => deeper.grows root (hentered root member)
      exact List.forall_mem_append.mpr
        ⟨ihDeeper hentered (exposed_along known exposed silent links isNew) none rfl,
          ih hbetween exposed silent (by simpa using links)⟩

/-- What counts lies beyond the links before it. -/
theorem beyond (run : Surveys bases supply here before rest visited hits after) :
    ∀ hit ∈ hits, Explores.Beyond here before visited after hit.1 := by
  have hlonger : ∀ (before : List (SymbolId × Bool)) (link other : SymbolId × Bool),
      before.count other ≤ (before ++ [link]).count other := by
    intro before link other
    rw [List.count_append]
    omega
  induction run with
  | done => exact fun hit member => absurd member List.not_mem_nil
  | again _ _ ih =>
      exact fun hit member => (ih hit member).mono (hlonger _ _) (fun _ old => old) fun _ old => old
  | supplies isNew _ deeper others _ ih =>
      have hearlier := fun root old => deeper.grows root (mem_entered.mpr (.inr old))
      intro hit member
      rcases List.mem_cons.mp member with rfl | later
      · exact (Explores.Follows.refl _ _ _).beyond isNew fun root member =>
          others.grows root (deeper.grows root member)
      · exact (ih hit later).mono (hlonger _ _) hearlier fun _ old => old
  | silent isNew _ deeper others ihDeeper ih =>
      have hearlier := fun root old => deeper.grows root (mem_entered.mpr (.inr old))
      intro hit member
      rcases List.mem_append.mp member with inner | later
      · rcases (ihDeeper hit inner).cases_along with hfollows | ⟨root, hroot, hbetween, hvisited⟩
        · exact hfollows.beyond isNew fun root member => others.grows root (deeper.grows root member)
        · exact .inr ⟨root, hroot, others.grows root hbetween, fun old =>
            hvisited (mem_entered.mpr (.inr old))⟩
      · exact (ih hit later).mono (hlonger _ _) hearlier fun _ old => old

/-- No subobject counts twice. -/
theorem nodup (run : Surveys bases supply here before rest visited hits after)
    (rooted : Explores.Rooted here visited) : (hits.map (·.1)).Nodup := by
  induction run with
  | done => exact List.nodup_nil
  | again _ _ ih => exact ih rooted
  | supplies isNew _ deeper others _ ih =>
      have hearlier := fun root old => deeper.grows root (mem_entered.mpr (.inr old))
      refine List.nodup_cons.mpr ⟨fun again => ?_, ih fun root hroot => hearlier root (rooted root hroot)⟩
      obtain ⟨hit, hlater, hsame⟩ := List.mem_map.mp again
      exact (Explores.Follows.refl _ _ _).not_beyond rooted isNew deeper.grows
        (hsame ▸ others.beyond hit hlater)
  | silent isNew _ deeper others ihDeeper ih =>
      have hearlier := fun root old => deeper.grows root (mem_entered.mpr (.inr old))
      rw [List.map_append]
      refine List.nodup_append'.mpr ⟨ihDeeper (rooted.along _ _), ih fun root hroot =>
        hearlier root (rooted root hroot), fun sub inner outer => ?_⟩
      obtain ⟨first, hfirst, rfl⟩ := List.mem_map.mp inner
      obtain ⟨second, hsecond, hsame⟩ := List.mem_map.mp outer
      have houter := hsame ▸ others.beyond second hsecond
      rcases (deeper.beyond first hfirst).cases_along with hfollows | ⟨root, hroot, hbetween, hvisited⟩
      · exact hfollows.not_beyond rooted isNew deeper.grows houter
      · -- A virtual base that was entered below the link is old for the links that follow.
        rcases houter with ⟨hroot', -⟩ | ⟨root', hroot', -, hlater⟩
        · exact hvisited (mem_entered.mpr (.inr (rooted root (hroot'.symm.trans hroot))))
        · exact hlater (Option.some.inj (hroot'.symm.trans hroot) ▸ hbetween)

end Surveys

namespace Explores

/-- A search that stops at the classes that supply something looks behind every class if there is nothing behind
those. -/
theorem surveys (run : Explores bases supply here before rest visited hits after) :
    Surveys (fun id => if supply id = [] then bases id else []) supply here before rest visited hits after := by
  induction run with
  | done => exact .done
  | again old _ ih => exact .again old ih
  | supplies isNew found _ ih => exact .supplies isNew found (by rw [if_neg found]; exact .done) ih
  | silent isNew none _ _ ihDeeper ih => exact .silent isNew none (by rwa [if_pos none]) ih

/-- A search meets no subobject twice. -/
theorem nodup (run : Explores bases supply here before rest visited hits after)
    (rooted : Rooted here visited) : (hits.map (·.1)).Nodup :=
  run.surveys.nodup rooted

end Explores

/-! ## Both searches -/

/-- As long as nothing is met, it makes no difference whether a search looks behind the classes that supply
the name.  So the first subobject is the same, and without one the same virtual bases are entered. -/
theorem Explores.agrees (run : Explores bases supply here before rest visited hits after)
    {hits' : List (Subobject × SymbolId)} {after' : List SymbolId}
    (survey : Surveys bases supply here before rest visited hits' after') :
    hits.head? = hits'.head? ∧ (hits = [] → after = after') := by
  induction run generalizing hits' after' with
  | done =>
      cases survey
      exact ⟨rfl, fun _ => rfl⟩
  | again old _ ih =>
      cases survey with
      | again _ others => exact ih others
      | supplies isNew | silent isNew => exact absurd old isNew
  | supplies isNew found _ _ =>
      cases survey with
      | again old => exact absurd old isNew
      | supplies => exact ⟨rfl, fun impossible => nomatch impossible⟩
      | silent _ none => exact absurd none found
  | @silent _ _ _ _ _ _ inner _ _ isNew none _ _ ihDeeper ih =>
      cases survey with
      | again old => exact absurd old isNew
      | supplies _ found => exact absurd none found
      | @silent _ _ _ _ _ _ inner' _ _ _ _ deeper others =>
          obtain ⟨hhead, hvisited⟩ := ihDeeper deeper
          rcases inner with _ | ⟨first, inner⟩
          · obtain rfl : inner' = [] := List.head?_eq_none_iff.mp hhead.symm
            exact ih (hvisited rfl ▸ others)
          · obtain ⟨rest', rfl⟩ := List.head?_eq_some_iff.mp hhead.symm
            exact ⟨rfl, fun impossible => nomatch impossible⟩

/-- One class lists another one as a direct base. -/
def ListsBase (bases : SymbolId → List (SymbolId × Bool)) (derived base : SymbolId) : Prop :=
  ∃ isVirtual, (base, isVirtual) ∈ bases derived

section Supplies

variable {supply' : SymbolId → List SymbolId}
  (same : ∀ link ∈ rest, ∀ above, ReflTransGen (ListsBase bases) link.1 above → supply' above = supply above)

include same

/-- It only matters what the classes supply that the search can come to. -/
theorem Explores.congr_supply (run : Explores bases supply here before rest visited hits after) :
    Explores bases supply' here before rest visited hits after := by
  induction run with
  | done => exact .done
  | again old _ ih => exact .again old (ih fun link listed => same link (List.mem_cons_of_mem _ listed))
  | @supplies _ _ _ _ _ _ link isNew found _ ih =>
      have hsupply := same link List.mem_cons_self link.1 .refl
      exact .supplies isNew (hsupply ▸ found) (ih fun link listed => same link (List.mem_cons_of_mem _ listed))
  | @silent _ _ _ _ _ _ _ _ link isNew none _ _ ihDeeper ih =>
      have hsupply := same link List.mem_cons_self link.1 .refl
      refine .silent isNew (hsupply.trans none) (ihDeeper fun base listed above further => ?_)
        (ih fun link listed => same link (List.mem_cons_of_mem _ listed))
      exact same link List.mem_cons_self above (.head ⟨base.2, listed⟩ further)

theorem Surveys.congr_supply (run : Surveys bases supply here before rest visited hits after) :
    Surveys bases supply' here before rest visited hits after := by
  induction run with
  | done => exact .done
  | again old _ ih => exact .again old (ih fun link listed => same link (List.mem_cons_of_mem _ listed))
  | @supplies _ _ _ _ _ _ _ _ link isNew found _ _ ihDeeper ih =>
      have hsupply := same link List.mem_cons_self link.1 .refl
      refine .supplies isNew (hsupply ▸ found) (ihDeeper fun base listed above further => ?_)
        (ih fun link listed => same link (List.mem_cons_of_mem _ listed))
      exact same link List.mem_cons_self above (.head ⟨base.2, listed⟩ further)
  | @silent _ _ _ _ _ _ _ _ link isNew none _ _ ihDeeper ih =>
      have hsupply := same link List.mem_cons_self link.1 .refl
      refine .silent isNew (hsupply.trans none) (ihDeeper fun base listed above further => ?_)
        (ih fun link listed => same link (List.mem_cons_of_mem _ listed))
      exact same link List.mem_cons_self above (.head ⟨base.2, listed⟩ further)

end Supplies

/-- Whatever a class supplies itself, what counts behind it is met by a search of its bases that begins with no
virtual base entered. -/
theorem Surveys.met {last : List SymbolId} {found : List (Subobject × SymbolId)}
    (survey : Surveys bases supply {} [] (bases origin) visited hits after)
    (run : Explores bases supply {} [] (bases origin) [] found last)
    (acyclic : ∀ link ∈ bases origin, ¬ ReflTransGen (ListsBase bases) link.1 origin) :
    ∀ hit ∈ hits, hit ∈ found := by
  -- What the class supplies does not matter, because no path leads back to it.
  have hsame : ∀ link ∈ bases origin, ∀ above, ReflTransGen (ListsBase bases) link.1 above →
      Function.update supply origin [] above = supply above := by
    intro link listed above further
    refine Function.update_of_ne (fun same => ?_) _ _
    exact acyclic link listed (same ▸ further)
  have hsilent : Function.update supply origin [] origin = [] := Function.update_self _ _ _
  have hcounted := (survey.congr_supply hsame).sound (fun _ old => absurd old List.not_mem_nil) .whole hsilent rfl
  intro hit member
  obtain ⟨hexposed, hfound⟩ := hcounted hit member
  exact (run.congr_supply hsame).meets hsilent hexposed hfound

/-! ## Hierarchies without virtual bases -/

/-- Neither a class nor any class above it has a virtual base. -/
def NoVirtualAbove (bases : SymbolId → List (SymbolId × Bool)) (id : SymbolId) : Prop :=
  ∀ above, ReflTransGen (ListsBase bases) id above → ∀ base, (base, true) ∉ bases above

theorem NoVirtualAbove.links (plain : NoVirtualAbove bases id) :
    ∀ link ∈ bases id, link.2 = false ∧ NoVirtualAbove bases link.1 := by
  rintro ⟨base, isVirtual⟩ listed
  refine ⟨?_, fun above further => plain above (.head ⟨isVirtual, listed⟩ further)⟩
  cases isVirtual with
  | false => rfl
  | true => exact absurd listed (plain id .refl base)

theorem entered_of_plain {link : SymbolId × Bool} (plain : link.2 = false) : entered link visited = visited :=
  if_neg (by simp [plain])

/-- Where there are no virtual bases, none are entered. -/
theorem Surveys.after_eq (run : Surveys bases supply here before rest visited hits after)
    (plain : ∀ link ∈ rest, link.2 = false ∧ NoVirtualAbove bases link.1) : after = visited := by
  induction run with
  | done => rfl
  | @again _ _ _ _ _ _ link old _ ih =>
      rw [(plain link List.mem_cons_self).1] at old
      exact absurd old.1 Bool.false_ne_true
  | @supplies _ _ _ _ _ _ _ _ link _ _ _ _ ihDeeper ih | @silent _ _ _ _ _ _ _ _ link _ _ _ _ ihDeeper ih =>
      obtain ⟨hplain, habove⟩ := plain link List.mem_cons_self
      rw [ih fun other listed => plain other (List.mem_cons_of_mem link listed), ihDeeper habove.links,
        entered_of_plain hplain]

/-- So it does not matter there which virtual bases have been entered before. -/
theorem Surveys.rebase (run : Surveys bases supply here before rest visited hits after)
    (plain : ∀ link ∈ rest, link.2 = false ∧ NoVirtualAbove bases link.1) (other : List SymbolId) :
    Surveys bases supply here before rest other hits other := by
  induction run with
  | done => exact .done
  | @again _ _ _ _ _ _ link old _ _ =>
      rw [(plain link List.mem_cons_self).1] at old
      exact absurd old.1 Bool.false_ne_true
  | @supplies here before _ _ _ _ hidden _ link _ found _ _ ihDeeper ih =>
      obtain ⟨hplain, habove⟩ := plain link List.mem_cons_self
      have hdeeper : Surveys bases supply (here.along link (before.count link)) [] (bases link.1)
          (entered link other) hidden other := by
        rw [entered_of_plain hplain]
        exact ihDeeper habove.links
      have hothers := ih fun later listed => plain later (List.mem_cons_of_mem link listed)
      exact .supplies (by simp [hplain]) found hdeeper hothers
  | @silent here before _ _ _ _ inner _ link _ none _ _ ihDeeper ih =>
      obtain ⟨hplain, habove⟩ := plain link List.mem_cons_self
      have hdeeper : Surveys bases supply (here.along link (before.count link)) [] (bases link.1)
          (entered link other) inner other := by
        rw [entered_of_plain hplain]
        exact ihDeeper habove.links
      have hothers := ih fun later listed => plain later (List.mem_cons_of_mem link listed)
      exact .silent (by simp [hplain]) none hdeeper hothers

/-- If no virtual base is hidden behind a class that supplies the name, then both searches meet the same
subobjects and enter the same virtual bases. -/
theorem Explores.eq_of_survey (run : Explores bases supply here before rest visited hits after)
    {hits' : List (Subobject × SymbolId)} {after' : List SymbolId}
    (survey : Surveys bases supply here before rest visited hits' after')
    (plain : ∀ link ∈ rest, ∀ above, ReflTransGen (ListsBase bases) link.1 above → supply above ≠ [] →
      NoVirtualAbove bases above) :
    hits' = hits ∧ after' = after := by
  induction run generalizing hits' after' with
  | done =>
      cases survey
      exact ⟨rfl, rfl⟩
  | again old _ ih =>
      cases survey with
      | again _ others => exact ih others fun link listed => plain link (List.mem_cons_of_mem _ listed)
      | supplies isNew | silent isNew => exact absurd old isNew
  | @supplies _ _ _ _ _ _ link isNew found _ ih =>
      cases survey with
      | again old => exact absurd old isNew
      | silent _ none => exact absurd none found
      | supplies _ _ deeper others =>
          -- Looking behind the class enters no virtual base, so the searches go on alike.
          have hplain := plain link List.mem_cons_self link.1 .refl found
          rw [deeper.after_eq hplain.links] at others
          obtain ⟨rfl, rfl⟩ := ih others fun link listed => plain link (List.mem_cons_of_mem _ listed)
          exact ⟨rfl, rfl⟩
  | @silent _ _ _ _ _ _ _ _ link isNew none _ _ ihDeeper ih =>
      cases survey with
      | again old => exact absurd old isNew
      | supplies _ found => exact absurd none found
      | silent _ _ deeper others =>
          obtain ⟨rfl, rfl⟩ := ihDeeper deeper fun base listed above further =>
            plain link List.mem_cons_self above (.head ⟨base.2, listed⟩ further)
          obtain ⟨rfl, rfl⟩ := ih others fun link listed => plain link (List.mem_cons_of_mem _ listed)
          exact ⟨rfl, rfl⟩

end NameBinding
