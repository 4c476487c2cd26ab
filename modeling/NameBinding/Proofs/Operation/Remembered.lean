import NameBinding.Proofs.Operation.Representation

/-!
# What a template remembers

A template remembers its explicit specializations, its instances and its placeholders, each in a list of
its own and by the arguments.  An entry is only appended when its list has none for these arguments:
`Edit.IsNews` is a part of every change.  The exception are templates with partial specializations.
The instance of a partial specialization is remembered when it is finished, and by then work that had
been queued may have asked for the same arguments.

`Symbol.RemembersOnce` is the invariant.  What one edit keeps (`Edit.remembersOnce`) gives what one
change keeps, and a run of any operations and transactions keeps it by induction.

The main statement is `grounded_table_remembers_once`.
-/

namespace NameBinding

/-- The entries are for different arguments; default values do not count. -/
def Instance.Differs (a b : Instance) : Prop := Descriptor.sameAll a.args b.args = false

instance {a b : Instance} : Decidable (a.Differs b) :=
  inferInstanceAs (Decidable (_ = false))

/-- No two entries of a list are for the same arguments, except that partial specializations leave room
for a second instance. -/
structure Symbol.RemembersOnce (symbol : Symbol) : Prop where
  explicits : symbol.explicits.Pairwise Instance.Differs
  placeholders : symbol.placeholders.Pairwise Instance.Differs
  instances : symbol.specializations = [] → symbol.instances.Pairwise Instance.Differs

/-- A list without an entry for some arguments takes one. -/
theorem Lacks.pairwise_append {entries : List Instance} {entry : Instance}
    (lacks : Lacks entries entry.args) (differ : entries.Pairwise Instance.Differs) :
    (entries ++ [entry]).Pairwise Instance.Differs := by
  refine List.pairwise_append.mpr ⟨differ, List.pairwise_singleton _ _, ?_⟩
  intro known member other same
  rw [List.mem_singleton.mp same]
  exact lacks known member

namespace Symbol

variable {a b : Symbol}

theorem Unlisted.remembersOnce (unlisted : a.Unlisted) : a.RemembersOnce where
  explicits := by simp [unlisted.explicits]
  placeholders := by simp [unlisted.placeholders]
  instances := by simp [unlisted.instances]

/-- Only the payload matters. -/
theorem RemembersOnce.of_payload (once : a.RemembersOnce) (same : b.payload = a.payload) :
    b.RemembersOnce := by
  have hdata : b.templateData? = a.templateData? := by simp only [templateData?, same]
  obtain ⟨hexplicits, hplaceholders, hinstances⟩ := once
  constructor
  · simpa only [Symbol.explicits, hdata] using hexplicits
  · simpa only [Symbol.placeholders, hdata] using hplaceholders
  · simpa only [Symbol.instances, Symbol.specializations, hdata] using hinstances

end Symbol

/-- Every list takes what is new to it; all other edits leave the lists alone. -/
theorem Edit.remembersOnce {edit : Edit} {symbol : Symbol} (news : edit.IsNews symbol)
    (once : symbol.RemembersOnce) : (edit.apply symbol).RemembersOnce := by
  obtain ⟨name, scope, type, inTemplate, access, target, named, origin, link, payload⟩ := symbol
  obtain ⟨hexplicits, hplaceholders, hinstances⟩ := once
  rcases edit with assignment | entry | ⟨under, member⟩
  · cases assignment <;> cases payload <;> exact ⟨hexplicits, hplaceholders, hinstances⟩
  · cases payload with
    | template data =>
        cases entry with
        | explicit entry =>
            exact ⟨Lacks.pairwise_append news hexplicits, hplaceholders, hinstances⟩
        | placeholder entry =>
            exact ⟨hexplicits, Lacks.pairwise_append news hplaceholders, hinstances⟩
        | cached entry =>
            refine ⟨hexplicits, hplaceholders, fun hplain => ?_⟩
            exact Lacks.pairwise_append (news hplain) (hinstances hplain)
        | specialization id =>
            refine ⟨hexplicits, hplaceholders, fun hplain => ?_⟩
            exact absurd hplain (List.append_ne_nil_of_right_ne_nil _ (by simp))
        | _ => exact ⟨hexplicits, hplaceholders, hinstances⟩
    | _ => cases entry <;> exact ⟨hexplicits, hplaceholders, hinstances⟩
  · cases payload <;> exact ⟨hexplicits, hplaceholders, hinstances⟩

/-! ## Tables -/

/-- Every symbol of the table remembers once. -/
def Table.RemembersOnce (table : Table) : Prop := ∀ id, (table.symbol id).RemembersOnce

variable {regime : Regime} {table after : Table}

theorem Change.remembersOnce (change : Change regime table after) (once : table.RemembersOnce) :
    after.RemembersOnce := by
  intro x
  cases change with
  | create symbol symbols templates within indexed detached listed =>
      rw [Table.symbol_of_push symbols]
      split
      · rcases listed with unlisted | ⟨id, same⟩
        · exact unlisted.remembersOnce
        · exact (once id).of_payload same
      · exact once x
  | edit id edit allowed symbols templates within named news =>
      rw [Table.symbol_of_modify symbols]
      split
      · rename_i hsame
        rw [hsame.1] at news
        exact Edit.remembersOnce news (once x)
      · exact once x
  | elsewhere symbols =>
      rw [Table.symbol_of_symbols_eq symbols]
      exact once x
  | links start context le copies links =>
      rcases links.cases x with ⟨source, hmember, hdiffers⟩ | hsame
      · rw [links.linked _ hmember hdiffers]
        exact (once x).of_payload rfl
      · rw [hsame]
        exact once x

theorem Changes.remembersOnce (changes : Changes regime table after) (once : table.RemembersOnce) :
    after.RemembersOnce := by
  induction changes with
  | refl => exact once
  | tail _ change ih => exact change.remembersOnce ih

theorem Table.RemembersOnce.ignoresFlags : IgnoresFlags Table.RemembersOnce := by
  intro table after same once x
  refine (once x).of_payload ?_
  show (after.symbol x).plain.payload = (table.symbol x).plain.payload
  rw [same.symbol_eq]

theorem Table.RemembersOnce.new (config : Config) : (Table.new config).RemembersOnce := by
  rintro ⟨index⟩
  have hblank : ((Table.new config).symbol ⟨index⟩).payload.Blank := by
    cases index with
    | zero => rfl
    | succ index =>
        rw [Table.symbol_of_getElem?_none (by simp [Table.new])]
        trivial
  exact (Symbol.unlisted_of_blank hblank).remembersOnce

/-! ## Runs -/

/-- Whatever is done and taken back, every template remembers once. -/
theorem Reached.remembersOnce_sheltered (grounded : Grounded table) :
    Sheltered Table.RemembersOnce table := by
  induction grounded with
  | new config => exact .new config (.new config)
  | act before action refers ends ih =>
      refine ih.act Table.RemembersOnce.ignoresFlags ends ?_
      rintro operation rfl
      have hrepresented := (Reached.represented_sheltered before).holds
      have hsound := Regime.Sound.of_settled hrepresented ih.settled
      have hmoved := Analysis.moved_after
        (Analysis.moves_carryOut_linking operation hsound refers) ends
      exact hmoved.changes.remembersOnce ih.holds

/-- One entry for each tuple of arguments.  Whatever a caller does who only refers to symbols that exist,
and however it ends, no template has two explicit specializations or two placeholders for the same
arguments, and a template without partial specializations has no two instances for the same
arguments. -/
theorem grounded_table_remembers_once (grounded : Grounded table) :
    ∀ template ∈ table.symbols,
      template.explicits.Pairwise Instance.Differs ∧
        template.placeholders.Pairwise Instance.Differs ∧
        (template.specializations = [] → template.instances.Pairwise Instance.Differs) := by
  intro template member
  obtain ⟨index, hindex⟩ := Array.mem_iff_getElem?.mp member
  obtain ⟨hexplicits, hplaceholders, hinstances⟩ :=
    (Reached.remembersOnce_sheltered grounded).holds ⟨index⟩
  rw [Table.symbol_of_getElem? hindex] at hexplicits hplaceholders hinstances
  exact ⟨hexplicits, hplaceholders, hinstances⟩

/-- A class template with a member of type `S<T> *` has an explicit specialization for `char`.  It is used
with a dependent argument, and instantiated for `int` twice and for `int *`. -/
def usedRepeatedly : List Action :=
  [.perform (.createTemplate ⟨17⟩), .perform (.createTemplateParameter ⟨18⟩ .typeName),
    .perform (.addTemplateParameter ⟨1⟩ ⟨2⟩), .perform (.createClass ⟨17⟩ .struct),
    .perform (.addSymbol ⟨1⟩ ⟨3⟩), .perform (.addSymbol ⟨0⟩ ⟨1⟩),
    .perform (.createBasic ⟨19⟩ (Descriptor.templateId ⟨1⟩ [.ofSymbol ⟨2⟩]).pointer),
    .perform (.addSymbol ⟨3⟩ ⟨4⟩), .perform (.createClass ⟨17⟩ .struct),
    .perform (.addExplicitSpecialization ⟨1⟩ [.ofKind .char] ⟨5⟩),
    .perform (.instantiate ⟨1⟩ [.ofSymbol ⟨2⟩]), .perform (.instantiate ⟨1⟩ [.ofKind .int]),
    .perform (.instantiate ⟨1⟩ [(Descriptor.ofKind .int).pointer]),
    .perform (.instantiate ⟨1⟩ [.ofKind .int])]

/-- Then a partial specialization for `U *` with a member of type `S<U *> *` is registered, and the
template is instantiated for `char *`. -/
def specializedForPointers : List Action :=
  [.perform (.createTemplateParameter ⟨20⟩ .typeName),
    .perform (.createSpecialization ⟨17⟩ [(Descriptor.ofSymbol ⟨11⟩).pointer]),
    .perform (.addTemplateParameter ⟨12⟩ ⟨11⟩), .perform (.createClass ⟨17⟩ .struct),
    .perform (.addSymbol ⟨12⟩ ⟨13⟩),
    .perform (.createBasic ⟨21⟩
      (Descriptor.templateId ⟨1⟩ [(Descriptor.ofSymbol ⟨11⟩).pointer]).pointer),
    .perform (.addSymbol ⟨13⟩ ⟨14⟩), .perform (.addTemplateSpecialization ⟨1⟩ ⟨12⟩),
    .perform (.instantiate ⟨1⟩ [(Descriptor.ofKind .char).pointer])]

/-- At first the template remembers an explicit specialization, a placeholder and two instances, each for
arguments of its own.  With the partial specialization one instance is remembered twice. -/
theorem repeated_uses_remembered_once :
    ∃ table next, Grounded table ∧
      (∀ template ∈ table.symbols,
        template.explicits.Pairwise Instance.Differs ∧
          template.placeholders.Pairwise Instance.Differs ∧
          (template.specializations = [] → template.instances.Pairwise Instance.Differs)) ∧
      (table.symbol ⟨1⟩).specializations = [] ∧
      (table.symbol ⟨1⟩).explicits.map (·.symbol) = [⟨5⟩] ∧
      (table.symbol ⟨1⟩).placeholders.map (·.symbol) = [⟨6⟩] ∧
      (table.symbol ⟨1⟩).instances.map (·.symbol) = [⟨7⟩, ⟨9⟩] ∧
      Grounded next ∧ ¬ (next.symbol ⟨1⟩).instances.Pairwise Instance.Differs := by
  have hgrounded : Grounded ((Table.new {}).ran usedRepeatedly) :=
    Reached.ran (.new {}) (by decide +kernel)
  have hspecialized : Grounded ((Table.new {}).ran (usedRepeatedly ++ specializedForPointers)) :=
    Reached.ran (.new {}) (by decide +kernel)
  exact ⟨_, _, hgrounded, grounded_table_remembers_once hgrounded, by decide +kernel,
    by decide +kernel, by decide +kernel, by decide +kernel, hspecialized, by decide +kernel⟩

end NameBinding
