import Mathlib.Logic.Relation
import NameBinding.Inheritance.Basic
import NameBinding.Proofs.Table.Unwind

/-!
# Acyclic inheritance

A class has acyclic bases if no class that it derives from, however far away, derives from itself.  The
path by which a search came then never holds the class it has come to, and so is no longer than the table.

* `CameBy`: the path by which a search along a relation has come to a class or a scope.
* `Table.Derives`: a class lists another one as a base.
* `Table.AcyclicBases`, and `of_rank`, which proves it with a rank that falls along every link.

The main statement is `AcyclicBases.checkAcyclic_ok`: the check for circular inheritance succeeds.
-/

namespace NameBinding

open Relation

/-! ## The path of a search -/

/-- A relation along which a rank falls does not run in circles. -/
theorem not_transGen_of_rank {α : Type} {leads : α → α → Prop} (rank : α → Nat)
    (falls : ∀ x y, leads x y → rank y < rank x) (x : α) : ¬ TransGen leads x x := by
  have hfalls : ∀ {y z}, TransGen leads y z → rank z < rank y := by
    intro y z path
    induction path with
    | single step => exact falls _ _ step
    | tail _ step ih => exact (falls _ _ step).trans ih
  exact fun circle => (hfalls circle).false

/-- A search along a relation has come to `x` by `path`: it leads from all the elements of the path to `x`,
and none stands on it twice. -/
structure CameBy {α : Type} (leads : α → α → Prop) (path : List α) (x : α) : Prop where
  leadsOn : ∀ earlier ∈ path, TransGen leads earlier x
  nodup : path.Nodup

namespace CameBy

variable {α : Type} {leads : α → α → Prop} {path : List α} {x y : α}

theorem nil (leads : α → α → Prop) (x : α) : CameBy leads [] x :=
  ⟨fun _ member => absurd member List.not_mem_nil, List.nodup_nil⟩

/-- What does not lead to itself is not on the path that led to it. -/
theorem not_mem (came : CameBy leads path x) (acyclic : ¬ TransGen leads x x) : x ∉ path :=
  fun member => acyclic (came.leadsOn x member)

/-- The path grows by the element that is left, if that has not come up before. -/
theorem step_off (came : CameBy leads path x) (off : x ∉ path) (next : leads x y) :
    CameBy leads (x :: path) y where
  leadsOn := by
    intro earlier member
    rcases List.mem_cons.mp member with rfl | before
    · exact .single next
    · exact (came.leadsOn earlier before).tail next
  nodup := List.nodup_cons.mpr ⟨off, came.nodup⟩

/-- The path grows by the element that is left. -/
theorem step (came : CameBy leads path x) (acyclic : ¬ TransGen leads x x) (next : leads x y) :
    CameBy leads (x :: path) y :=
  came.step_off (came.not_mem acyclic) next

/-- A path through symbols of a table is no longer than the table. -/
theorem length_le {leads : SymbolId → SymbolId → Prop} {path : List SymbolId} {id : SymbolId}
    {table : Table} (came : CameBy leads path id)
    (known : ∀ {a b}, leads a b → a.index < table.size) : path.length ≤ table.size := by
  refine Table.length_le_size came.nodup fun earlier member => ?_
  obtain ⟨next, link, -⟩ := TransGen.head'_iff.mp (came.leadsOn earlier member)
  exact known link

/-- A search through symbols of a table comes to an end if nothing leads to itself. -/
theorem acc {leads : SymbolId → SymbolId → Prop} {path : List SymbolId} {id : SymbolId} {table : Table}
    (came : CameBy leads path id) (known : ∀ {a b}, leads a b → a.index < table.size)
    (acyclic : ∀ x, ¬ TransGen leads x x) : Acc (fun b a => leads a b) id := by
  -- The path grows, and there are no more symbols than the table has.
  induction hleft : table.size - path.length using Nat.strongRecOn generalizing path id with
  | _ left ih =>
      refine ⟨_, fun next step => ?_⟩
      have hlonger := came.step (acyclic id) step
      have hle := hlonger.length_le known
      rw [List.length_cons] at hle
      exact ih _ (by rw [List.length_cons]; omega) hlonger rfl

end CameBy

/-- Where nothing leads to itself, every search through symbols of a table comes to an end. -/
theorem acc_of_acyclic {leads : SymbolId → SymbolId → Prop} {table : Table}
    (known : ∀ {a b}, leads a b → a.index < table.size) (acyclic : ∀ x, ¬ TransGen leads x x)
    (id : SymbolId) : Acc (fun b a => leads a b) id :=
  (CameBy.nil leads id).acc known acyclic

namespace Table

variable {table : Table} {origin id base : SymbolId} {path : List SymbolId}

/-! ## Acyclic bases -/

/-- A class lists another one as a base. -/
def Derives (table : Table) (derived base : SymbolId) : Prop := base ∈ table.bases derived

/-- No class that `origin` derives from derives from itself. -/
def AcyclicBases (table : Table) (origin : SymbolId) : Prop :=
  ∀ id, ReflTransGen table.Derives origin id → ¬ TransGen table.Derives id id

/-- Only symbols of the table list bases. -/
theorem Derives.lt_size (derives : table.Derives id base) : id.index < table.size := by
  refine lt_size_of_symbol (fun symbol => !symbol.parents.isEmpty) rfl ?_
  obtain ⟨link, hlink, -⟩ := List.mem_map.mp derives
  cases hparents : (table.symbol id).parents with
  | nil => simp [hparents] at hlink
  | cons => rfl

namespace AcyclicBases

/-- A rank that falls along every link excludes circles. -/
theorem of_rank (rank : SymbolId → Nat)
    (falls : ∀ derived base, table.Derives derived base → rank base < rank derived)
    (origin : SymbolId) : table.AcyclicBases origin :=
  fun id _ => not_transGen_of_rank rank falls id

/-- Bases that are older than the classes that list them exclude circles. -/
theorem of_older (older : ∀ index < table.size, ∀ base ∈ table.bases ⟨index⟩, base.index < index)
    (origin : SymbolId) : table.AcyclicBases origin :=
  .of_rank SymbolId.index (fun derived base derives => older derived.index derives.lt_size base derives)
    origin

/-- The bases of the bases are bases. -/
theorem of_derives (acyclic : table.AcyclicBases origin) (derives : table.Derives origin base) :
    table.AcyclicBases base :=
  fun id below => acyclic id (.head derives below)

end AcyclicBases

/-! ## The check -/

/-- With enough depth left for the path to grow as long as it can, the check succeeds. -/
theorem AcyclicBases.checkAcyclicFrom_ok (acyclic : table.AcyclicBases id) {depth : Nat}
    (came : CameBy table.Derives path id) (enough : depth + path.length = table.size + 1)
    (known : List SymbolId) :
    ∃ proved, table.checkAcyclicFrom depth path known id = .ok proved := by
  induction depth generalizing path known id with
  | zero =>
      have hlength := came.length_le Derives.lt_size
      omega
  | succ depth ih =>
      rw [checkAcyclicFrom]
      split
      · exact ⟨known, rfl⟩
      · rw [if_neg (came.not_mem (acyclic id .refl))]
        have hbases : ∀ (bases known : List SymbolId), (∀ base ∈ bases, table.Derives id base) →
            ∃ proved, bases.foldlM (checkAcyclicFrom table depth (id :: path)) known = .ok proved := by
          intro bases
          induction bases with
          | nil => exact fun known _ => ⟨known, rfl⟩
          | cons base rest ihRest =>
              intro known derives
              have hderives := derives base List.mem_cons_self
              have henough : depth + (id :: path).length = table.size + 1 := by
                rw [List.length_cons]
                omega
              obtain ⟨proved, hproved⟩ := ih (acyclic.of_derives hderives)
                (came.step (acyclic id .refl) hderives) henough known
              obtain ⟨all, hall⟩ := ihRest proved fun other member =>
                derives other (List.mem_cons_of_mem base member)
              refine ⟨all, ?_⟩
              rw [List.foldlM_cons, hproved]
              exact hall
        obtain ⟨proved, hproved⟩ := hbases (table.bases id) known fun base member => member
        exact ⟨id :: proved, by rw [hproved]; rfl⟩

/-- The check for circular inheritance succeeds on acyclic bases. -/
theorem AcyclicBases.checkAcyclic_ok (acyclic : table.AcyclicBases id) (known : List SymbolId) :
    ∃ proved, table.checkAcyclic known id = .ok proved :=
  acyclic.checkAcyclicFrom_ok (.nil table.Derives id) rfl known

end Table

end NameBinding
