import NameBinding.Proofs.Table.Unwind
import NameBinding.Proofs.Template.InstanceSteps

/-!
# What copying a template may do to a table

While a template is copied, the table changes in few ways.  `CopySteps size before after` says that
`after` comes from `before` by any number of them, with `size` dividing old symbols from new ones:

* a symbol that holds nothing yet is added at the end;
* an old symbol changes only in its caches, that is, in the instances and placeholders of a template
  and in the origin of an instance, and leaves a record;
* a new symbol may be edited in any way, with or without a record;
* the state of the running instantiations changes.

The main statement is `CopySteps.unwinds`: below a live mark, taking back the records of such steps
gives the old symbols back, although new symbols were written without a record.
-/

namespace NameBinding

theorem Payload.shell_blank (payload : Payload) : payload.shell.Blank := by
  cases payload <;> simp [Payload.shell, Payload.Blank]

theorem Symbol.Tidy.of_blank {symbol : Symbol} (blank : symbol.payload.Blank) : symbol.Tidy := by
  intro decls hdecls
  have hempty : decls.byName = [] := by
    unfold Symbol.decls? at hdecls
    cases hpayload : symbol.payload <;> rw [hpayload] at blank hdecls <;>
      simp only [Payload.Blank, Option.some.injEq, reduceCtorEq] at blank hdecls
    all_goals rw [← hdecls, blank]
  simp [MemberMap.Tidy, hempty]

theorem Edit.IsCache.reversible {edit : Edit} (cache : edit.IsCache) : edit.Reversible := by
  cases edit with
  | assign assignment =>
      cases assignment with
      | origin value => trivial
      | _ => exact cache.elim
  | append entry => trivial
  | insertMember name member => trivial

/-- What is remembered about instances can be taken back whatever the symbol is. -/
theorem Edit.IsCache.restores {edit : Edit} (cache : edit.IsCache) (symbol : Symbol) :
    (edit.reversal symbol).apply (edit.apply symbol) = symbol := by
  cases edit with
  | assign assignment =>
      cases assignment with
      | origin value =>
          have hreversible : (Assignment.origin value).Reversible := trivial
          exact Assignment.current_apply hreversible symbol
      | _ => exact cache.elim
  | append entry => exact entry.retract_append symbol
  | insertMember name member => exact cache.elim

/-- The changes that copying a template makes, where the symbols from `size` on are new. -/
inductive CopySteps (size : Nat) (before : Table) : Table → Prop where
  | refl : CopySteps size before before
  | create {after : Table} (steps : CopySteps size before after) (symbol : Symbol)
      (blank : symbol.payload.Blank) : CopySteps size before (after.allocate symbol).2
  | cache {after : Table} (steps : CopySteps size before after) (id : SymbolId) (edit : Edit)
      (cache : edit.IsCache) : CopySteps size before (after.perform id edit)
  | perform {after : Table} (steps : CopySteps size before after) (id : SymbolId) (edit : Edit)
      (fresh : size ≤ id.index) : CopySteps size before (after.perform id edit)
  | write {after : Table} (steps : CopySteps size before after) (id : SymbolId) (edit : Edit)
      (fresh : size ≤ id.index) : CopySteps size before (after.write id edit)
  | instantiations {after : Table} (steps : CopySteps size before after)
      (templates : InstantiationState) : CopySteps size before { after with templates }

namespace CopySteps

variable {size : Nat} {before after : Table}

theorem trans {last : Table} (first : CopySteps size before after)
    (second : CopySteps size after last) : CopySteps size before last := by
  induction second with
  | refl => exact first
  | create _ symbol blank ih => exact ih.create symbol blank
  | cache _ id edit hcache ih => exact ih.cache id edit hcache
  | perform _ id edit fresh ih => exact ih.perform id edit fresh
  | write _ id edit fresh ih => exact ih.write id edit fresh
  | instantiations _ templates ih => exact ih.instantiations templates

/-- No symbol is lost. -/
theorem size_le (steps : CopySteps size before after) : before.size ≤ after.size := by
  induction steps with
  | refl => exact Nat.le_refl _
  | create _ symbol _ ih =>
      rw [Table.size_allocate]
      omega
  | cache _ id edit _ ih => rwa [Table.size_perform]
  | perform _ id edit _ ih => rwa [Table.size_perform]
  | write _ id edit _ ih => rwa [Table.size_write]
  | instantiations _ templates ih => exact ih

theorem config_eq (steps : CopySteps size before after) : after.config = before.config := by
  induction steps with
  | refl => rfl
  | create _ _ _ ih | cache _ _ _ _ ih | perform _ _ _ _ ih | write _ _ _ _ ih
  | instantiations _ _ ih => exact ih

theorem nextId_eq (steps : CopySteps size before after) :
    after.journal.nextId = before.journal.nextId := by
  induction steps with
  | refl => rfl
  | cache _ _ _ _ ih | perform _ _ _ _ ih => rw [Table.nextId_perform, ih]
  | create _ _ _ ih | write _ _ _ _ ih | instantiations _ _ ih => exact ih

theorem interner_eq (steps : CopySteps size before after) : after.interner = before.interner := by
  induction steps with
  | refl => rfl
  | create _ _ _ ih | cache _ _ _ _ ih | perform _ _ _ _ ih | write _ _ _ _ ih
  | instantiations _ _ ih => exact ih

theorem tidy (steps : CopySteps size before after) (tidy : before.Tidy) : after.Tidy := by
  induction steps with
  | refl => exact tidy
  | create _ symbol blank ih =>
      intro other member
      rcases Array.mem_push.mp member with old | rfl
      · exact ih other old
      · exact Symbol.Tidy.of_blank blank
  | cache _ id edit _ ih | perform _ id edit _ ih | write _ id edit _ ih =>
      exact Table.Tidy.of_modify ih id.index fun _ => edit.apply_tidy
  | instantiations _ _ ih => exact ih

end CopySteps

/-- Copying a template under a live mark can be taken back: the old symbols come back. -/
theorem CopySteps.unwinds {size : Nat} {before after : Table} (steps : CopySteps size before after)
    (bound : size ≤ before.size) (recording : before.journal.live ≠ []) :
    ∃ taken, Unwinds size before after taken := by
  induction steps with
  | refl => exact ⟨[], Unwinds.refl size before⟩
  | create steps symbol _ ih =>
      obtain ⟨taken, unwinds⟩ := ih
      exact ⟨taken, unwinds.allocate (Nat.le_trans bound steps.size_le) symbol⟩
  | @cache after steps id edit hcache ih =>
      obtain ⟨taken, unwinds⟩ := ih
      have hback := Table.undone_perform id fun symbol (_ : symbol ∈ after.symbols) =>
        hcache.restores symbol
      exact ⟨_, unwinds.perform recording (hback ▸ AgreeBelow.refl size _)⟩
  | @perform after steps id edit fresh ih =>
      -- The edit may well lose something, but only of a symbol that is cut off anyway.
      obtain ⟨taken, unwinds⟩ := ih
      have hedit := AgreeBelow.modify_behind after.symbols edit.apply fresh
      have hback := AgreeBelow.modify_behind (after.perform id edit).symbols
        (edit.reversal (after.symbol id)).apply fresh
      exact ⟨_, unwinds.perform recording (hback.trans hedit)⟩
  | @write after steps id edit fresh ih =>
      -- There is no record, and none is needed.
      obtain ⟨taken, unwinds⟩ := ih
      have hedit := AgreeBelow.modify_behind after.symbols edit.apply fresh
      exact ⟨taken, unwinds.edits, unwinds.records, unwinds.live,
        (hedit.undone taken).trans unwinds.symbols⟩
  | instantiations steps templates ih =>
      obtain ⟨taken, unwinds⟩ := ih
      exact ⟨taken, unwinds.edits, unwinds.records, unwinds.live, unwinds.symbols⟩

end NameBinding
