import NameBinding.Lookup.UsingDeclaration
import NameBinding.Proofs.Lookup.Moves
import NameBinding.Proofs.Table.ForwardDeclarations
import NameBinding.Template.ExplicitSpecialization

/-!
# Mutators move the table

Each operation that declares something is a sequence of creations and edits.  If the symbols and types
it is given exist, so does all that it brings into the table.

Only three operations redirect declarations: adding a symbol to a scope, naming a namespace again, and
an explicit specialization.  Everything else leaves links alone, and is stated for the regime
`declaring`.
-/

namespace NameBinding.Analysis

variable {table : Table}

/-! ## New symbols -/

/-- Any symbol that mentions symbols of the table may be declared. -/
theorem moves_declare (symbol : Symbol) (within : Within table.size symbol.mentions)
    (indexed : symbol.Indexed fun member => (table.symbol member).name)
    (listed : symbol.Unlisted ∨ ∃ id, symbol.payload = (table.symbol id).payload) :
    MovesAt .declaring (create symbol)
      (fun after made => after = (table.allocate symbol).2 ∧ made = ⟨table.size⟩) table :=
  moves_create symbol within indexed False.elim listed

/-- A symbol that holds nothing mentions only its type. -/
theorem moves_createBlank (name : Name) {type : Descriptor} {payload : Payload}
    (below : type.Below table.size) (blank : payload.Blank) (empty : payload.mentions = []) :
    MovesAt .declaring (create { name, type, payload })
      (fun after made => after = (table.allocate { name, type, payload }).2 ∧ made = ⟨table.size⟩)
      table := by
  apply moves_declare
  · have htype : Within table.size type.mentions := below
    simp [Symbol.mentions, empty, htype]
  · exact .of_blank blank _
  · exact .inl (Symbol.unlisted_of_blank blank)

theorem moves_createSpecialization (name : Name) {patterns : List Descriptor}
    (given : ∀ pattern ∈ patterns, pattern.Below table.size) :
    MovesAt .declaring (createSpecialization name patterns) (fun _ _ => True) table := by
  have hpatterns := Descriptor.within_mentionsAll.mpr given
  have htype : Within table.size (Descriptor.ofKind .template).mentions :=
    Descriptor.Below.ofKind _ _
  refine (moves_declare _ ?_ ?_ (.inl ⟨rfl, rfl, rfl⟩)).weaken fun _ _ _ _ => trivial
  · simp [Symbol.mentions, Payload.mentions, TemplateData.mentions, Declarations.mentions, htype,
      hpatterns]
  · exact fun _ => rfl

/-- A copy mentions what the symbol mentions. -/
theorem moves_cloneSymbol (id : SymbolId) (sound : Regime.declaring.Sound table) :
    MovesAt .declaring (cloneSymbol id) (fun _ _ => True) table := by
  refine .read ((moves_declare _ ?_ ?_ ?_).weaken fun _ _ _ _ => trivial)
  · have hwithin := sound.represented.within id
    simp only [Symbol.mentions, Within.append] at hwithin ⊢
    simp [hwithin]
  · exact (sound.represented.indexed id).of_eq rfl rfl
  · exact .inr ⟨id, rfl⟩

/-! ## Edits -/

/-- Declaring may assign any field but a link. -/
theorem moves_assign (id : SymbolId) {assignment : Assignment}
    (linkless : (Edit.assign assignment).IsLinkless)
    (within : Within table.size assignment.mentions) :
    MovesAt .declaring (assign id assignment)
      (fun after _ => after = table.perform id (.assign assignment)) table :=
  moves_edit linkless within (by simp) (by trivial)

theorem moves_append (id : SymbolId) {entry : Entry} (within : Within table.size entry.mentions)
    (news : (Edit.append entry).IsNews (table.symbol id)) :
    MovesAt .declaring (append id entry)
      (fun after _ => after = table.perform id (.append entry)) table :=
  moves_edit (by trivial) within (by simp) news

/-- A part is put into its owner, and then placed in it. -/
theorem moves_attach {owner part scope : SymbolId} {entry : Entry} {inside : Bool}
    (sound : Regime.declaring.Sound table) (within : Within table.size entry.mentions)
    (news : (Edit.append entry).IsNews (table.symbol owner)) (lt : scope.index < table.size) :
    MovesAt .declaring (do
      append owner entry
      assign part (.scope (some scope) inside)) (fun _ _ => True) table := by
  refine (moves_append owner within news).bind sound fun _ after hmoved _ _ => ?_
  have hscope : Within after.size (Assignment.scope (some scope) inside).mentions := by
    have hlt := Nat.lt_of_lt_of_le lt hmoved.size_le
    simpa [Assignment.mentions] using hlt
  exact (moves_assign part (by trivial) hscope).weaken fun _ _ _ _ => trivial

theorem moves_insertMember {scope id : SymbolId} (sound : Regime.declaring.Sound table)
    (outer : scope.index < table.size) (lt : id.index < table.size) :
    MovesAt .declaring (insertMember scope id) (fun _ _ => True) table := by
  refine .read ?_
  have hinsert : MovesAt .declaring (do
      assign id (.scope (some scope)
        ((table.symbol scope).isTemplate || (table.symbol scope).inTemplate))
      edit scope (.insertMember (table.symbol id).name id)) (fun _ _ => True) table := by
    have hscope : ∀ inside, Within table.size (Assignment.scope (some scope) inside).mentions := by
      simpa [Assignment.mentions] using outer
    refine (moves_assign id (by trivial) (hscope _)).bind sound fun _ after _ _ hafter => ?_
    subst hafter
    refine (moves_edit (by trivial) ?_ ?_ (by trivial)).weaken fun _ _ _ _ => trivial
    · rw [Table.size_perform]
      simpa [Edit.mentions] using lt
    · -- Placing a symbol leaves its name alone.
      rintro name member same
      cases same
      exact (Table.sameHead_perform_scope table id id _ _).name
  dsimp only
  split
  · exact hinsert
  · exact .of_fault rfl

/-! ## Parts of declarations -/

theorem moves_addParameter {function parameter : SymbolId} (sound : Regime.declaring.Sound table)
    (owner : function.index < table.size) (lt : parameter.index < table.size) :
    MovesAt .declaring (addParameter function parameter) (fun _ _ => True) table := by
  refine .read ?_
  dsimp only
  split
  · exact moves_attach sound (by simpa [Entry.mentions] using lt) (by trivial) owner
  · exact .unsupported _
  · exact .unsupported _

theorem moves_addParameterType {function : SymbolId} {type : Descriptor}
    (sound : Regime.declaring.Sound table) (owner : function.index < table.size)
    (below : type.Below table.size) :
    MovesAt .declaring (addParameterType function type) (fun _ _ => True) table := by
  refine (moves_createBlank Name.empty below (by trivial) rfl).bind sound ?_
  intro parameter after hmoved hsound hmade
  obtain ⟨rfl, rfl⟩ := hmade
  have hlt : table.size < (table.allocate { name := Name.empty, type }).2.size := by
    rw [Table.size_allocate]
    omega
  have howner := Nat.lt_of_lt_of_le owner hmoved.size_le
  exact (moves_addParameter hsound howner hlt).bind hsound fun _ _ _ _ _ => .pure trivial

theorem moves_setVarargs (function : SymbolId) (varargs : Bool) :
    MovesAt .declaring (setVarargs function varargs) (fun _ _ => True) table := by
  refine .read ?_
  split
  · refine (moves_assign function (by trivial) ?_).weaken fun _ _ _ _ => trivial
    simp [Assignment.mentions]
  · exact .unsupported _

theorem moves_setReturnType (function : SymbolId) {type : Descriptor}
    (below : type.Below table.size) :
    MovesAt .declaring (setReturnType function type) (fun _ _ => True) table := by
  refine .read ?_
  split
  · exact .fail False.elim
  · split
    · have hwithin : Within table.size (Assignment.returnType (some type)).mentions := below
      exact (moves_assign function (by trivial) hwithin).weaken fun _ _ _ _ => trivial
    · exact .unsupported _

theorem moves_addParent (derived : SymbolId) {parent : SymbolId} (access : Access)
    (isVirtual : Bool) (sound : Regime.declaring.Sound table) (lt : parent.index < table.size) :
    MovesAt .declaring (addParent derived parent access isVirtual) (fun _ _ => True) table := by
  refine .read ?_
  dsimp only
  split
  · exact .fail False.elim
  · split
    · have hbase := sound.represented.classOf_lt lt
      refine (moves_append derived ?_ (by trivial)).weaken fun _ _ _ _ => trivial
      simpa [Entry.mentions] using hbase
    · exact .unsupported _

theorem moves_setParent (derived : SymbolId) (position : Nat) {parent : SymbolId}
    (lt : parent.index < table.size) :
    MovesAt .declaring (setParent derived position parent) (fun _ _ => True) table := by
  refine .read ?_
  split
  · refine (moves_assign derived (by trivial) ?_).weaken fun _ _ _ _ => trivial
    simpa [Assignment.mentions] using lt
  · exact .violated _

theorem moves_addConstructor {owner function : SymbolId} (sound : Regime.declaring.Sound table)
    (outer : owner.index < table.size) (lt : function.index < table.size) :
    MovesAt .declaring (addConstructor owner function) (fun _ _ => True) table := by
  refine .read ?_
  split
  · exact .unsupported _
  · split
    · exact .unsupported _
    · exact moves_attach sound (by simpa [Entry.mentions] using lt) (by trivial) outer

theorem moves_addConversion {owner function : SymbolId} (sound : Regime.declaring.Sound table)
    (outer : owner.index < table.size) (lt : function.index < table.size) :
    MovesAt .declaring (addConversion owner function) (fun _ _ => True) table := by
  refine .read ?_
  split
  · exact .unsupported _
  · split
    · exact .unsupported _
    · exact moves_attach sound (by simpa [Entry.mentions] using lt) (by trivial) outer

theorem moves_addTemplateParameter {template parameter : SymbolId}
    (sound : Regime.declaring.Sound table) (outer : template.index < table.size)
    (lt : parameter.index < table.size) :
    MovesAt .declaring (addTemplateParameter template parameter) (fun _ _ => True) table := by
  refine .read ?_
  split
  · exact .fail False.elim
  · split
    · exact moves_attach sound (by simpa [Entry.mentions] using lt) (by trivial) outer
    · exact .unsupported _

theorem moves_addTemplateSpecialization {primary specialization : SymbolId}
    (sound : Regime.declaring.Sound table) (outer : primary.index < table.size)
    (lt : specialization.index < table.size) :
    MovesAt .declaring (addTemplateSpecialization primary specialization) (fun _ _ => True)
      table := by
  refine .read ?_
  dsimp only
  split
  · exact .unsupported _
  · split
    · exact .fail False.elim
    · split
      · exact .fail False.elim
      · have hscope : ∀ inside, Within table.size
            (Assignment.scope (table.symbol primary).scope inside).mentions := by
          intro inside
          exact Within.toList.mpr fun id => Symbol.scope_lt (sound.represented.within primary)
        refine (moves_assign specialization (by trivial) (hscope _)).bind sound ?_
        intro _ first hfirst hsound _
        have hprimary : Within first.size (Assignment.primary (some primary)).mentions := by
          have hlt := Nat.lt_of_lt_of_le outer hfirst.size_le
          simpa [Assignment.mentions] using hlt
        refine (moves_assign specialization (by trivial) hprimary).bind hsound ?_
        intro _ second hsecond _ _
        refine (moves_append primary ?_ (by trivial)).weaken fun _ _ _ _ => trivial
        have hlt := Nat.lt_of_lt_of_le lt (hfirst.trans hsecond).size_le
        simpa [Entry.mentions] using hlt

theorem moves_mapDefinitionParameter (template : SymbolId) (name : Name) {parameter : SymbolId}
    (lt : parameter.index < table.size) :
    MovesAt .declaring (mapDefinitionParameter template name parameter) (fun _ _ => True)
      table := by
  refine .read ?_
  split
  · refine (moves_assign template (by trivial) ?_).weaken fun _ _ _ _ => trivial
    simpa [Assignment.mentions] using lt
  · exact .unsupported _

theorem moves_addUsingDirective {scope nominated : SymbolId}
    (sound : Regime.declaring.Sound table) (outer : scope.index < table.size)
    (lt : nominated.index < table.size) :
    MovesAt .declaring (addUsingDirective scope nominated) (fun _ _ => True) table := by
  refine .read ?_
  dsimp only
  split
  · exact .fail False.elim
  · split
    · have htarget := sound.represented.resolveNamespace_lt lt
      refine (moves_append scope ?_ (by trivial)).weaken fun _ _ _ _ => trivial
      simp [Entry.mentions, outer, htarget]
    · exact .unsupported _

/-! ## Using-declarations -/

theorem moves_introduceAlias {scope : SymbolId} (name : Name) (aliases : List SymbolId)
    {found : SymbolId} (sound : Regime.declaring.Sound table) (outer : scope.index < table.size)
    (lt : found.index < table.size) :
    MovesAt .declaring (introduceAlias scope name aliases found) (fun _ _ => True) table := by
  refine .read ?_
  dsimp only
  split
  · exact .pure trivial
  · split
    · exact .fail False.elim
    · have htarget := sound.represented.canonical_lt lt
      have htype : Within table.size (table.symbol (table.canonical found)).type.mentions :=
        sound.represented.type_below _
      have hwithin : Within table.size
          { name, type := (table.symbol (table.canonical found)).type,
            aliasOf := some (table.canonical found) : Symbol }.mentions := by
        simp [Symbol.mentions, Payload.mentions, htype, htarget]
      refine (moves_declare _ hwithin (.of_blank (by trivial) _) (.inl ⟨rfl, rfl, rfl⟩)).bind
        sound ?_
      intro made after hmoved hsound hmade
      obtain ⟨rfl, rfl⟩ := hmade
      have houter := Nat.lt_of_lt_of_le outer hmoved.size_le
      have hlt : ∀ symbol, table.size < (table.allocate symbol).2.size := by
        intro symbol
        rw [Table.size_allocate]
        omega
      exact (moves_insertMember hsound houter (hlt _)).bind hsound fun _ _ _ _ _ => .pure trivial

theorem moves_addUsingDeclaration {scope : SymbolId} (name : Name) (qualifier : SymbolId)
    (sound : Regime.declaring.Sound table) (outer : scope.index < table.size) :
    MovesAt .declaring (addUsingDeclaration scope name qualifier) (fun _ _ => True) table := by
  refine (moves_lookup qualifier name sound (.of_none rfl)).bind sound ?_
  intro found after hmoved hsound hfound
  split
  · exact .fail False.elim
  · refine .foldlM hsound trivial fun aliases id member last hlater hlast _ => ?_
    have houter := Nat.lt_of_lt_of_le outer (hmoved.trans hlater).size_le
    have hlt := Nat.lt_of_lt_of_le (hfound id member) hlater.size_le
    exact moves_introduceAlias name aliases hlast houter hlt

end NameBinding.Analysis
