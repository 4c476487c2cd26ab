import NameBinding.Proofs.Operation.Rollback

/-!
# Marks are released in turn

The journal keeps the live marks twice: as a stack, and as records among the records of edits.
`Table.Disciplined` says that the two agree in every reachable table, so that releasing a mark never
finds its record missing.

A caller sees neither of them.  What it knows is in its `Ledger`: how often a mark was taken, which
marks it holds, and which ones it has released.  `Session ledger table` says that a caller with this
ledger has come to this table.  Identifiers of marks wrap around, so that the ledger decides what
becomes of a release only as long as fewer than `2 ^ 32` marks were taken.

* `Reachable.disciplined`: every reachable table is disciplined.
* `Session.tracked`: the live marks are the ones that the caller holds, and no mark that it has
  released is among them.
* `marks_released_in_turn`: a release succeeds for the innermost mark held, is refused as not
  innermost for the other marks held, and is refused as stale for every other mark.
-/

namespace NameBinding

/-! ## The two lists of marks -/

/-- The numbers of symbols that the marks among the records remember, newest first. -/
def markSizes : List Record → List Nat
  | [] => []
  | .mark _ size :: rest => size :: markSizes rest
  | .edit _ _ :: rest => markSizes rest

theorem markSizes_append (newer older : List Record) :
    markSizes (newer ++ older) = markSizes newer ++ markSizes older := by
  induction newer with
  | nil => rfl
  | cons record rest ih =>
      cases record with
      | mark id size => simp [markSizes, ih]
      | edit id reversal => simp [markSizes, ih]

/-- Records of edits remember no number of symbols. -/
theorem markSizes_edits {records : List Record} (edits : markIds records = []) :
    markSizes records = [] := by
  induction records with
  | nil => rfl
  | cons record rest ih =>
      cases record with
      | mark id size => simp [markIds] at edits
      | edit id reversal => exact ih edits

/-- No edit is recorded before the oldest mark among the records. -/
def OldestIsMark (records : List Record) : Prop :=
  ∀ record, records.getLast? = some record → ∃ id size, record = .mark id size

namespace OldestIsMark

variable {records newer older : List Record}

theorem nil : OldestIsMark [] := fun _ last => by simp at last

theorem append_iff (newer : List Record) (some : older ≠ []) :
    OldestIsMark (newer ++ older) ↔ OldestIsMark older := by
  have hlast : (newer ++ older).getLast? = older.getLast? := by
    rw [List.getLast?_append, List.getLast?_eq_some_getLast some, Option.some_or]
  rw [OldestIsMark, OldestIsMark, hlast]

theorem cons_mark (oldest : OldestIsMark records) (id : UInt32) (size : Nat) :
    OldestIsMark (.mark id size :: records) := by
  cases records with
  | nil =>
      intro record last
      exact ⟨id, size, (Option.some.inj last).symm⟩
  | cons first rest => exact (append_iff [_] (List.cons_ne_nil first rest)).mpr oldest

/-- What is older than a mark. -/
theorem of_append_mark {id : UInt32} {size : Nat}
    (oldest : OldestIsMark (newer ++ .mark id size :: older)) : OldestIsMark older := by
  cases older with
  | nil => exact nil
  | cons first rest =>
      rw [append_iff newer (List.cons_ne_nil _ _)] at oldest
      exact (append_iff [_] (List.cons_ne_nil first rest)).mp oldest

/-- Without a mark there are no records. -/
theorem eq_nil (oldest : OldestIsMark records) (edits : markIds records = []) : records = [] := by
  cases hlast : records.getLast? with
  | none => exact List.getLast?_eq_none_iff.mp hlast
  | some record =>
      obtain ⟨id, size, rfl⟩ := oldest record hlast
      have hmember := mem_markIds (List.mem_of_getLast? hlast)
      rw [edits] at hmember
      cases hmember

end OldestIsMark

/-- The marks among the records are the live ones, in the same order; nothing is recorded before the
oldest of them; and an older mark remembers no more symbols than a newer one, and none more than
there are. -/
structure Table.Disciplined (table : Table) : Prop where
  marks : markIds table.journal.records = table.journal.live
  oldest : OldestIsMark table.journal.records
  sizes : (markSizes table.journal.records).Pairwise (· ≥ ·)
  bounded : ∀ size ∈ markSizes table.journal.records, size ≤ table.size

/-- The two ways to release a mark. -/
inductive Release where
  | commit
  | rollback

/-- Release a mark. -/
def Release.run : Release → Mark → Analysis (Except TransactionError Unit)
  | .commit => Analysis.commit
  | .rollback => Analysis.rollback

/-- The action of a caller that releases a mark. -/
def Release.action : Release → Mark → Action
  | .commit => .commit
  | .rollback => .rollback

namespace Release

theorem run_action (release : Release) (mark : Mark) :
    (release.action mark).run = discard (release.run mark) := by
  cases release <;> rfl

/-- A mark that is not the innermost one is refused, and nothing changes. -/
theorem refused (release : Release) {table : Table} {mark : Mark} {error : TransactionError}
    (refuses : table.journal.checkInnermost mark = .error error) :
    release.run mark table = .ok (.error error) table := by
  cases release with
  | commit => exact Analysis.commit_refused refuses
  | rollback => exact Analysis.rollback_refused refuses

end Release

namespace Table.Disciplined

open Analysis

variable {table next : Table}

/-- Nothing is recorded without a live mark. -/
theorem quiet (disciplined : table.Disciplined) (none : table.journal.live = []) :
    table.journal.records = [] :=
  disciplined.oldest.eq_nil (disciplined.marks.trans none)

/-- A table without records and without live marks. -/
theorem of_quiet (records : table.journal.records = []) (live : table.journal.live = []) :
    table.Disciplined := by
  refine ⟨?_, ?_, ?_, ?_⟩
  · rw [records, live]
    rfl
  · rw [records]
    exact OldestIsMark.nil
  · rw [records]
    exact List.Pairwise.nil
  · rw [records]
    exact fun _ member => absurd member List.not_mem_nil

/-- The innermost live mark has its record, with nothing but edits on top of it. -/
theorem innermost (disciplined : table.Disciplined) {id : UInt32} {outer : List UInt32}
    (live : table.journal.live = id :: outer) :
    ∃ edits size older, table.journal.records = edits ++ .mark id size :: older ∧
      markIds edits = [] ∧ markIds older = outer ∧ OldestIsMark older ∧ size ≤ table.size ∧
      (markSizes older).Pairwise (· ≥ ·) ∧ ∀ bound ∈ markSizes older, bound ≤ size := by
  obtain ⟨edits, size, older, hrecords, hedits, holder⟩ :=
    exists_newest_mark (disciplined.marks.trans live)
  have hsizes : markSizes table.journal.records = size :: markSizes older := by
    rw [hrecords, markSizes_append, markSizes_edits hedits]
    rfl
  have holdest := disciplined.oldest
  rw [hrecords] at holdest
  have hsorted := disciplined.sizes
  rw [hsizes, List.pairwise_cons] at hsorted
  have hbounded := disciplined.bounded size (hsizes ▸ List.mem_cons_self)
  exact ⟨edits, size, older, hrecords, hedits, holder, holdest.of_append_mark, hbounded,
    hsorted.2, hsorted.1⟩

/-- What the engine does between transactions only adds symbols and records of edits. -/
theorem evolve (disciplined : table.Disciplined) (evolution : Evolution table next) :
    next.Disciplined := by
  by_cases hnone : table.journal.live = []
  · exact of_quiet (evolution.quiet hnone (disciplined.quiet hnone)) (evolution.live.trans hnone)
  · obtain ⟨taken, unwinds⟩ := evolution.unwinds hnone
    have hsizes : markSizes next.journal.records = markSizes table.journal.records := by
      rw [unwinds.records, markSizes_append, markSizes_edits unwinds.edits, List.nil_append]
    have hsome : table.journal.records ≠ [] := by
      intro hrecords
      apply hnone
      rw [← disciplined.marks, hrecords]
      rfl
    refine ⟨?_, ?_, ?_, ?_⟩
    · rw [unwinds.records, markIds_append, unwinds.edits, evolution.live, ← disciplined.marks]
      rfl
    · rw [unwinds.records, OldestIsMark.append_iff taken hsome]
      exact disciplined.oldest
    · exact hsizes ▸ disciplined.sizes
    · intro size member
      exact Nat.le_trans (disciplined.bounded size (hsizes ▸ member)) evolution.size_le

/-- A new mark remembers all symbols. -/
theorem mark (disciplined : table.Disciplined) :
    Disciplined { table with journal := (table.journal.mark table.size).2 } where
  marks := congrArg (table.journal.nextId :: ·) disciplined.marks
  oldest := disciplined.oldest.cons_mark table.journal.nextId table.size
  sizes := List.pairwise_cons.mpr ⟨disciplined.bounded, disciplined.sizes⟩
  bounded := List.forall_mem_cons.mpr ⟨Nat.le_refl _, disciplined.bounded⟩

/-- Releasing the innermost mark takes it off both lists. -/
theorem release (disciplined : table.Disciplined) (release : Release) {id : UInt32}
    {outer : List UInt32} (live : table.journal.live = id :: outer) :
    ∃ after, release.run ⟨id⟩ table = .ok (.ok ()) after ∧ after.Disciplined ∧
      after.journal.live = outer ∧ after.journal.nextId = table.journal.nextId := by
  obtain ⟨edits, size, older, hrecords, hedits, holder, holdest, hsize, hsorted, hbounded⟩ :=
    disciplined.innermost live
  cases release with
  | commit =>
      refine ⟨_, commit_innermost live hrecords hedits, ?_, rfl, rfl⟩
      by_cases hlast : outer = []
      · exact of_quiet (if_pos hlast) hlast
      · -- The edits go to the mark around it, and its own record drops out.
        have hsome : older ≠ [] := by
          rintro rfl
          exact hlast holder.symm
        have hsizes : markSizes (edits ++ older) = markSizes older := by
          rw [markSizes_append, markSizes_edits hedits, List.nil_append]
        refine ⟨?_, ?_, ?_, ?_⟩
        · simp [hlast, markIds_append, hedits, holder]
        · simpa [hlast, OldestIsMark.append_iff edits hsome] using holdest
        · simpa [hlast, hsizes] using hsorted
        · intro bound member
          simp only [hlast, if_false, hsizes] at member
          exact Nat.le_trans (hbounded bound member) hsize
  | rollback =>
      refine ⟨_, rollback_innermost live hrecords hedits, ⟨holder, holdest, hsorted, ?_⟩, rfl, rfl⟩
      -- As many symbols are left as the released mark remembers.
      intro bound member
      have hbound := hbounded bound member
      simp only [Table.size] at hsize ⊢
      simp only [Array.take_eq_extract, Array.size_extract, size_undone]
      omega

/-- A release always gives an answer. -/
theorem answers (disciplined : table.Disciplined) (release : Release) (mark : Mark) :
    ∃ answer after, release.run mark table = .ok answer after ∧ after.Disciplined := by
  rcases checkInnermost_cases table.journal mark with ⟨error, hcheck⟩ | ⟨outer, hlive⟩
  · exact ⟨_, _, release.refused hcheck, disciplined⟩
  · obtain ⟨after, hafter, hdisciplined, -⟩ := disciplined.release release hlive
    exact ⟨_, _, hafter, hdisciplined⟩

theorem act_release (disciplined : table.Disciplined) (release : Release) {mark : Mark}
    (ends : (release.action mark).after table = some next) : next.Disciplined := by
  obtain ⟨answer, after, hafter, hdisciplined⟩ := disciplined.answers release mark
  rw [Action.after_discard (release.run_action mark) hafter] at ends
  cases ends
  exact hdisciplined

/-- Every action keeps the discipline. -/
theorem act (disciplined : table.Disciplined) (settled : table.Settled) {action : Action}
    (ends : action.after table = some next) : next.Disciplined := by
  cases action with
  | perform operation =>
      exact disciplined.evolve (Action.keeps_after ends (keeps_carryOut operation)
        (Evolution.refl settled.idle settled.tidy))
  | mark =>
      rw [Action.after_mark] at ends
      cases ends
      exact disciplined.mark
  | commit mark => exact disciplined.act_release .commit ends
  | rollback mark => exact disciplined.act_release .rollback ends
  | setAstLink id link | addFlags id flags =>
      cases ends
      refine ⟨disciplined.marks, disciplined.oldest, disciplined.sizes, fun size member => ?_⟩
      simpa [Table.size] using disciplined.bounded size member

end Table.Disciplined

/-- Every reachable table is disciplined. -/
theorem Reachable.disciplined {table : Table} (reachable : Reachable table) :
    table.Disciplined := by
  induction reachable with
  | new config => exact Table.Disciplined.of_quiet rfl rfl
  | act before action ends ih => exact ih.act before.settled ends

/-! ## The caller's side -/

/-- What a caller knows of its marks. -/
structure Ledger where
  /-- How often a mark was taken, by the caller or on its behalf. -/
  calls : Nat := 0
  /-- The marks that are taken and not yet released, newest first. -/
  held : List Mark := []
  released : List Mark := []

/-- Is this action a part of a transaction? -/
def Action.IsTransaction : Action → Prop
  | .mark => True
  | .commit _ => True
  | .rollback _ => True
  | _ => False

/-- A caller with this ledger has come to this table.  It enters a mark when it is given one and
strikes it out when a release is reported to have succeeded.  Other actions may take marks and
release them again; each of these advances the counter of marks by one, so that `spent` stands for
their number. -/
inductive Session : Ledger → Table → Prop where
  | new (config : Config) : Session {} (Table.new config)
  | mark {ledger : Ledger} {table next : Table} {mark : Mark} (session : Session ledger table)
      (ends : Analysis.mark table = .ok mark next) :
      Session { ledger with calls := ledger.calls + 1, held := mark :: ledger.held } next
  | released {ledger : Ledger} {table next : Table} (session : Session ledger table)
      (release : Release) (mark : Mark) (ends : release.run mark table = .ok (.ok ()) next) :
      Session
        { ledger with
          held := ledger.held.erase mark
          released := mark :: ledger.released } next
  | refused {ledger : Ledger} {table next : Table} (session : Session ledger table)
      (release : Release) (mark : Mark) {error : TransactionError}
      (ends : release.run mark table = .ok (.error error) next) : Session ledger next
  | act {ledger : Ledger} {table next : Table} (session : Session ledger table) (action : Action)
      (plain : ¬ action.IsTransaction) (ends : action.after table = some next) (spent : Nat)
      (counted : next.journal.nextId = table.journal.nextId + UInt32.ofNat spent) :
      Session { ledger with calls := ledger.calls + spent } next

/-- The live marks are the ones held, every mark that was ever handed out has an identifier of its
own, and the next one will be new. -/
structure Ledger.Tracks (ledger : Ledger) (table : Table) : Prop where
  nextId : table.journal.nextId.toNat = ledger.calls
  live : table.journal.live = ledger.held.map Mark.id
  distinct : (ledger.held ++ ledger.released).Nodup
  below : ∀ mark ∈ ledger.held ++ ledger.released, mark.id.toNat < ledger.calls

/-- Between transactions the same marks stay live. -/
theorem Action.live_of_plain {action : Action} {table next : Table} (settled : table.Settled)
    (plain : ¬ action.IsTransaction) (ends : action.after table = some next) :
    next.journal.live = table.journal.live := by
  cases action with
  | perform operation =>
      exact (Action.keeps_after ends (Analysis.keeps_carryOut operation)
        (Evolution.refl settled.idle settled.tidy)).live
  | mark | commit | rollback => exact absurd trivial plain
  | setAstLink id link | addFlags id flags =>
      cases ends
      rfl

namespace Session

variable {ledger : Ledger} {table : Table}

/-- Sessions lead to reachable tables only. -/
theorem reachable (session : Session ledger table) : Reachable table := by
  induction session with
  | new config => exact .new config
  | mark _ ends ih => exact .act ih .mark (Action.after_discard rfl ends)
  | released _ release mark ends ih | refused _ release mark ends ih =>
      exact .act ih (release.action mark) (Action.after_discard (release.run_action mark) ends)
  | act _ action _ ends _ _ ih => exact .act ih action ends

/-- What an answer to a release says about the live marks. -/
theorem release_live (session : Session ledger table) {release : Release} {mark : Mark}
    {next : Table} (ends : release.run mark table = .ok (.ok ()) next) :
    table.journal.live = mark.id :: next.journal.live ∧
      next.journal.nextId = table.journal.nextId := by
  rcases Analysis.checkInnermost_cases table.journal mark with ⟨error, hcheck⟩ | ⟨outer, hlive⟩
  · rw [release.refused hcheck] at ends
    cases ends
  · obtain ⟨after, hafter, -, houter, hnextId⟩ :=
      session.reachable.disciplined.release release hlive
    rw [hafter] at ends
    cases ends
    exact ⟨hlive.trans (houter ▸ rfl), hnextId⟩

/-- A refused release changes nothing. -/
theorem refused_eq (session : Session ledger table) {release : Release} {mark : Mark}
    {error : TransactionError} {next : Table}
    (ends : release.run mark table = .ok (.error error) next) : next = table := by
  rcases Analysis.checkInnermost_cases table.journal mark with ⟨cause, hcheck⟩ | ⟨outer, hlive⟩
  · rw [release.refused hcheck] at ends
    cases ends
    rfl
  · obtain ⟨after, hafter, -⟩ := session.reachable.disciplined.release release hlive
    rw [hafter] at ends
    cases ends

/-- As long as the identifiers of marks have not wrapped around, the ledger is right. -/
theorem tracked (session : Session ledger table) (few : ledger.calls < 2 ^ 32) :
    ledger.Tracks table := by
  induction session with
  | new config => exact ⟨rfl, rfl, List.nodup_nil, fun _ member => absurd member List.not_mem_nil⟩
  | @mark ledger table next mark session ends ih =>
      have hfew : ledger.calls < 2 ^ 32 := Nat.lt_of_succ_lt few
      have htracks := ih hfew
      cases ends
      -- The identifier of the new mark is the number of marks taken before it.
      have hnew : (⟨table.journal.nextId⟩ : Mark) ∉ ledger.held ++ ledger.released := by
        intro member
        have hbelow : table.journal.nextId.toNat < ledger.calls := htracks.below _ member
        rw [htracks.nextId] at hbelow
        exact Nat.lt_irrefl _ hbelow
      refine ⟨?_, congrArg (table.journal.nextId :: ·) htracks.live,
        List.nodup_cons.mpr ⟨hnew, htracks.distinct⟩, ?_⟩
      · show (table.journal.nextId + 1).toNat = ledger.calls + 1
        rw [UInt32.toNat_add, htracks.nextId]
        exact Nat.mod_eq_of_lt few
      · refine List.forall_mem_cons.mpr ⟨?_, fun mark member => ?_⟩
        · exact htracks.nextId ▸ Nat.lt_succ_self _
        · exact Nat.lt_succ_of_lt (htracks.below mark member)
  | @released ledger table next session release mark ends ih =>
      have htracks := ih few
      obtain ⟨hlive, hnextId⟩ := session.release_live ends
      obtain ⟨first, rest, hheld, hfirst, hrest⟩ :=
        List.map_eq_cons_iff.mp (htracks.live.symm.trans hlive)
      have hsame : first = mark := by
        cases first
        cases mark
        exact congrArg Mark.mk hfirst
      subst hsame
      have herase : ledger.held.erase first = rest := by rw [hheld, List.erase_cons_head]
      have hperm : (rest ++ first :: ledger.released).Perm (ledger.held ++ ledger.released) := by
        rw [hheld]
        exact List.perm_middle
      refine ⟨hnextId ▸ htracks.nextId, ?_, ?_, ?_⟩
      · rw [herase, hrest]
      · rw [herase]
        exact hperm.nodup_iff.mpr htracks.distinct
      · rw [herase]
        exact fun mark member => htracks.below mark (hperm.mem_iff.mp member)
  | refused session release mark ends ih =>
      rw [session.refused_eq ends]
      exact ih few
  | @act ledger table next session action plain ends spent counted ih =>
      have hfew : ledger.calls + spent < 2 ^ 32 := few
      have htracks := ih (by omega)
      have hlive := Action.live_of_plain session.reachable.settled plain ends
      refine ⟨?_, hlive.trans htracks.live, htracks.distinct, fun mark member => ?_⟩
      · rw [counted, UInt32.toNat_add, UInt32.toNat_ofNat', htracks.nextId]
        have hspent : spent % 2 ^ 32 = spent := Nat.mod_eq_of_lt (by omega)
        rw [hspent]
        exact Nat.mod_eq_of_lt hfew
      · exact Nat.lt_of_lt_of_le (htracks.below mark member) (Nat.le_add_right _ _)

end Session

/-- Every reachable table ends a session. -/
theorem Reachable.session {table : Table} (reachable : Reachable table) :
    ∃ ledger, Session ledger table := by
  induction reachable with
  | new config => exact ⟨_, .new config⟩
  | @act table next before action ends ih =>
      obtain ⟨ledger, session⟩ := ih
      have hreleased : ∀ (release : Release) (mark : Mark), action = release.action mark →
          ∃ ledger, Session ledger next := by
        rintro release mark rfl
        obtain ⟨answer, after, hafter, -⟩ := before.disciplined.answers release mark
        rw [Action.after_discard (release.run_action mark) hafter] at ends
        cases ends
        cases answer with
        | ok => exact ⟨_, session.released release mark hafter⟩
        | error error => exact ⟨_, session.refused release mark hafter⟩
      have hcounted : next.journal.nextId = table.journal.nextId +
          UInt32.ofNat (next.journal.nextId - table.journal.nextId).toNat := by
        rw [UInt32.ofNat_toNat, UInt32.add_comm, UInt32.sub_add_cancel]
      cases action with
      | mark =>
          rw [Action.after_mark] at ends
          cases ends
          exact ⟨_, session.mark rfl⟩
      | commit mark => exact hreleased .commit mark rfl
      | rollback mark => exact hreleased .rollback mark rfl
      | perform | setAstLink | addFlags =>
          exact ⟨_, session.act _ (by simp [Action.IsTransaction]) ends _ hcounted⟩

/-! ## Releasing in turn -/

/-- An instantiation that ends with a fault does so while it copies: the mark of the copy is always
released. -/
theorem Analysis.instantiateUncached_fault {table after : Table} (idle : table.Idle) {bound : Nat}
    {template : SymbolId} {args : List Descriptor} {fault : Fault}
    (ends : instantiateUncached (instantiateWithin bound) bound template args table =
      .error (.fault fault) after) :
    completeCopy (instantiateWithin bound) bound template args (table.symbol template).name
      table.config.passLimit table.copyBegun = .error (.fault fault) after := by
  rw [instantiateUncached_idle idle] at ends
  have hcopies := copiesFrom_completeCopy bound template args table (table.symbol template).name
    table.config.passLimit
  cases hcopy : completeCopy (instantiateWithin bound) bound template args
      (table.symbol template).name table.config.passLimit table.copyBegun with
  | ok made middle =>
      obtain ⟨last, hlast, -⟩ := outermostCopy_ok hcopies idle hcopy
      rw [hlast] at ends
      cases ends
  | error interrupt middle =>
      cases interrupt with
      | error error =>
          rw [outermostCopy_error hcopies idle hcopy] at ends
          cases ends
      | fault other =>
          rw [outermostCopy_apply, hcopy] at ends
          exact ends

/-- What a caller that holds these marks is answered when it releases a mark. -/
structure Release.Answered (release : Release) (ledger : Ledger) (table : Table) (mark : Mark) :
    Prop where
  ok_iff : (∃ after, release.run mark table = .ok (.ok ()) after) ↔ ledger.held.head? = some mark
  notInnermost_iff :
    (∃ innermost after,
      release.run mark table = .ok (.error (.notInnermost mark.id innermost)) after) ↔
      mark ∈ ledger.held ∧ ledger.held.head? ≠ some mark
  stale_iff :
    (∃ after, release.run mark table = .ok (.error (.stale mark.id)) after) ↔ mark ∉ ledger.held
  stale_of_released : mark ∈ ledger.released →
    release.run mark table = .ok (.error (.stale mark.id)) table
  unchanged : ∀ error after, release.run mark table = .ok (.error error) after → after = table

/-- A mark is held exactly if it is live. -/
theorem Ledger.Tracks.mem_live {ledger : Ledger} {table : Table} (tracks : ledger.Tracks table)
    (mark : Mark) : mark.id ∈ table.journal.live ↔ mark ∈ ledger.held := by
  rw [tracks.live, List.mem_map]
  constructor
  · rintro ⟨⟨id⟩, member, rfl⟩
    exact member
  · exact fun member => ⟨mark, member, rfl⟩

/-- The three answers to a release, by what the caller holds. -/
theorem Ledger.Tracks.release_cases {ledger : Ledger} {table : Table}
    (tracks : ledger.Tracks table) (disciplined : table.Disciplined) (release : Release)
    (mark : Mark) :
    (ledger.held.head? = some mark ∧ ∃ after, release.run mark table = .ok (.ok ()) after) ∨
      (mark ∈ ledger.held ∧ ledger.held.head? ≠ some mark ∧ ∃ innermost,
        release.run mark table = .ok (.error (.notInnermost mark.id innermost)) table) ∨
      (mark ∉ ledger.held ∧ release.run mark table = .ok (.error (.stale mark.id)) table) := by
  have hlive := tracks.live
  have hmember := tracks.mem_live mark
  cases hheld : ledger.held with
  | nil =>
      rw [hheld, List.map_nil] at hlive
      refine .inr (.inr ⟨List.not_mem_nil, release.refused ?_⟩)
      simp [Journal.checkInnermost, hlive]
  | cons first rest =>
      rw [hheld, List.map_cons] at hlive
      rw [hheld] at hmember
      by_cases hfirst : first = mark
      · subst hfirst
        obtain ⟨after, hafter, -⟩ := disciplined.release release hlive
        exact .inl ⟨rfl, after, hafter⟩
      · have hother : first.id ≠ mark.id := by
          intro same
          apply hfirst
          cases first
          cases mark
          exact congrArg Mark.mk same
        refine .inr ?_
        by_cases hheldToo : mark ∈ first :: rest
        · refine .inl ⟨hheldToo, by simpa using hfirst, first.id, release.refused ?_⟩
          have hin := hmember.mpr hheldToo
          rw [hlive] at hin
          simp only [Journal.checkInnermost, hlive, if_neg hother, if_pos hin]
        · refine .inr ⟨hheldToo, release.refused ?_⟩
          have hout := mt hmember.mp hheldToo
          rw [hlive] at hout
          simp only [Journal.checkInnermost, hlive, if_neg hother, if_neg hout]

/-- The caller's ledger decides what becomes of a release. -/
theorem Session.answered {ledger : Ledger} {table : Table} (session : Session ledger table)
    (few : ledger.calls < 2 ^ 32) (release : Release) (mark : Mark) :
    release.Answered ledger table mark := by
  have htracks := session.tracked few
  have hdistinct := (List.nodup_append.mp htracks.distinct).2.2
  rcases htracks.release_cases session.reachable.disciplined release mark with
    ⟨hhead, after, hrun⟩ | ⟨hheld, hhead, innermost, hrun⟩ | ⟨hheld, hrun⟩
  · have hheld : mark ∈ ledger.held := List.mem_of_mem_head? hhead
    exact
      { ok_iff := by simp [hrun, hhead]
        notInnermost_iff := by simp [hrun, hhead]
        stale_iff := by simp [hrun, hheld]
        stale_of_released := fun released => absurd rfl (hdistinct mark hheld mark released)
        unchanged := fun _ _ => session.refused_eq }
  · exact
      { ok_iff := by simp [hrun, hhead]
        notInnermost_iff := by simp [hrun, hhead, hheld]
        stale_iff := by simp [hrun, hheld]
        stale_of_released := fun released => absurd rfl (hdistinct mark hheld mark released)
        unchanged := fun _ _ => session.refused_eq }
  · have hhead : ledger.held.head? ≠ some mark := fun head => hheld (List.mem_of_mem_head? head)
    exact
      { ok_iff := by simp [hrun, hhead]
        notInnermost_iff := by simp [hrun, hheld]
        stale_iff := by simp [hrun, hheld]
        stale_of_released := fun _ => hrun
        unchanged := fun _ _ => session.refused_eq }

/-- Marks are released in turn.  In every reachable table the marks among the records are the live
ones in the same order, there are no records without a live mark, and the numbers of symbols that
the marks remember do not decrease from the oldest to the newest and are at most the number of
symbols; so that every release, also the one at the end of an instantiation, gives an answer.  After
fewer than `2 ^ 32` marks, what a caller is answered is decided by the marks it holds: the innermost
one is released, another one is not the innermost, and every other mark is stale, those released
before among them; a refused release changes nothing. -/
theorem marks_released_in_turn :
    (∀ table : Table, Reachable table →
      markIds table.journal.records = table.journal.live ∧
      (table.journal.live = [] → table.journal.records = []) ∧
      (markSizes table.journal.records).Pairwise (· ≥ ·) ∧
      (∀ size ∈ markSizes table.journal.records, size ≤ table.size) ∧
      ∀ (release : Release) (mark : Mark), ∃ answer after,
        release.run mark table = .ok answer after) ∧
    (∀ (table : Table) (bound : Nat) (template : SymbolId) (args : List Descriptor) (fault : Fault)
      (after : Table), table.Idle →
      Analysis.instantiateUncached (Analysis.instantiateWithin bound) bound template args table =
        .error (.fault fault) after →
      Analysis.completeCopy (Analysis.instantiateWithin bound) bound template args
        (table.symbol template).name table.config.passLimit table.copyBegun =
        .error (.fault fault) after) ∧
    ∀ (ledger : Ledger) (table : Table), Session ledger table → ledger.calls < 2 ^ 32 →
      ∀ (release : Release) (mark : Mark), release.Answered ledger table mark := by
  refine ⟨fun table reachable => ?_, ?_, ?_⟩
  · have hdisciplined := reachable.disciplined
    refine ⟨hdisciplined.marks, hdisciplined.quiet, hdisciplined.sizes, hdisciplined.bounded, ?_⟩
    intro release mark
    obtain ⟨answer, after, hafter, -⟩ := hdisciplined.answers release mark
    exact ⟨answer, after, hafter⟩
  · intro table bound template args fault after idle ends
    exact Analysis.instantiateUncached_fault idle ends
  · intro ledger table session few release mark
    exact session.answered few release mark

/-- The table after two marks of which the second is committed. -/
def committedTable : Table := (Table.new {}).acted [.mark, .mark, .commit ⟨1⟩]

/-- The released mark is stale, and the other one can be rolled back. -/
theorem committed_mark_stale :
    Reachable committedTable ∧ markIds committedTable.journal.records = [0] ∧
      Session ⟨2, [⟨0⟩], [⟨1⟩]⟩ committedTable ∧
      Analysis.rollback ⟨1⟩ committedTable = .ok (.error (.stale 1)) committedTable ∧
      ∃ after, Analysis.rollback ⟨0⟩ committedTable = .ok (.ok ()) after := by
  have hfirst : Session ⟨1, [⟨0⟩], []⟩ ((Table.new {}).acted [.mark]) := .mark (.new {}) rfl
  have hsecond : Session ⟨2, [⟨1⟩, ⟨0⟩], []⟩ ((Table.new {}).acted [.mark, .mark]) :=
    .mark hfirst rfl
  have hsession : Session ⟨2, [⟨0⟩], [⟨1⟩]⟩ committedTable := .released hsecond .commit ⟨1⟩ rfl
  obtain ⟨hreachable, -, hanswered⟩ := marks_released_in_turn
  have hanswers := hanswered _ _ hsession (by decide) .rollback
  exact ⟨hsession.reachable, (hreachable _ hsession.reachable).1, hsession,
    (hanswers ⟨1⟩).stale_of_released (by decide), (hanswers ⟨0⟩).ok_iff.mpr rfl⟩

end NameBinding
