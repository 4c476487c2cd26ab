import NameBinding.Proofs.Table.MutatorMoves

/-!
# Redirecting declarations

Adding a declaration to a scope may link it with earlier ones, and an explicit specialization may
redirect a member of an instance to it.  `AllowsLinks` says what a regime has to allow for this, and
`moves_addSymbol`, `moves_addNamespaceAlias` and `moves_addExplicitSpecialization` follow for every such
regime.

Where no chain of links may come back to itself (the regime `joining`), not every declaration can be
added: `Table.MayJoin` is what is needed.  An object may always be added, since objects of one entity are
not linked again.  A forward declaration of a tag or function may be added as long as nothing stands for
it, and a definition as long as it stands for itself.
-/

namespace NameBinding

namespace Table

variable {table after : Table} {old new id target x : SymbolId}

/-! ## The class of an entity -/

/-- How a symbol that stands for itself takes part in redeclaration and hiding. -/
def entityClass (table : Table) (entity : SymbolId) : DeclClass :=
  if (table.symbol entity).isFunction || table.isFunctionTemplate entity then .function
  else if ((table.symbol entity).type.kind.isClassOrEnum && !(table.symbol entity).type.isTypedef)
      || table.isClassTemplate entity then .tag
  else .object

theorem declClass_eq (table : Table) (id : SymbolId) :
    table.declClass id = table.entityClass (table.canonical id) := rfl

theorem entityClass_congr (types : ∀ y, (after.symbol y).type = (table.symbol y).type)
    (templated : after.templated? x = table.templated? x) :
    after.entityClass x = table.entityClass x := by
  have hfunction : ∀ y, (after.symbol y).isFunction = (table.symbol y).isFunction := by
    intro y
    rw [Symbol.isFunction, Symbol.isFunction, types]
  have hfunctions : after.isFunctionTemplate x = table.isFunctionTemplate x := by
    simp only [isFunctionTemplate, templated, hfunction]
  have hclasses : after.isClassTemplate x = table.isClassTemplate x := by
    simp only [isClassTemplate, templated, types]
  rw [entityClass, entityClass, hfunction, hfunctions, hclasses, types]

theorem isForwardDeclaration_congr (types : ∀ y, (after.symbol y).type = (table.symbol y).type)
    (isTemplate : (after.symbol x).isTemplate = (table.symbol x).isTemplate)
    (templated : after.templated? x = table.templated? x) :
    after.isForwardDeclaration x = table.isForwardDeclaration x := by
  rw [isForwardDeclaration, isForwardDeclaration, isTemplate, templated, types]
  simp only [types]

theorem templated?_link (table : Table) (pair : SymbolId × SymbolId) (x : SymbolId) :
    (table.link pair).templated? x = table.templated? x := by
  simp only [templated?]
  rw [symbol_link]
  split <;> rfl

/-- Links do not change what a symbol itself is. -/
theorem entityClass_link (table : Table) (pair : SymbolId × SymbolId) (x : SymbolId) :
    (table.link pair).entityClass x = table.entityClass x :=
  entityClass_congr (fun y => (sameHead_link table pair y).type) (templated?_link table pair x)

theorem isForwardDeclaration_link (table : Table) (pair : SymbolId × SymbolId) (x : SymbolId) :
    (table.link pair).isForwardDeclaration x = table.isForwardDeclaration x :=
  isForwardDeclaration_congr (fun y => (sameHead_link table pair y).type)
    (sameHead_link table pair x).isTemplate (templated?_link table pair x)

/-- Only declarations of one class are linked: two objects that are not one entity yet, or two tags or
functions of which one completes the other. -/
theorem class_of_redeclare_link (linked : table.redeclare old new = .link id target) :
    (table.declClass old = .object ∧ table.declClass new = .object ∧
        table.canonical old ≠ table.canonical new) ∨
      (table.declClass new ≠ .object ∧ table.completeForward old new = .link id target) := by
  unfold redeclare at linked
  split at linked
  · rename_i hold hnew
    refine .inr ⟨by simp [hnew], ?_⟩
    simp only [redeclareTag] at linked
    split at linked
    · split at linked <;> cases linked
    · split at linked
      · exact linked
      · cases linked
  · rename_i hold hnew
    refine .inr ⟨by simp [hnew], ?_⟩
    simp only [redeclareFunction] at linked
    split at linked
    · cases linked
    · split at linked
      · split at linked
        · exact linked
        · cases linked
      · exact linked
  · rename_i hold hnew
    refine .inl ⟨hold, hnew, ?_⟩
    simp only [redeclareObject] at linked
    split at linked
    · cases linked
    · assumption
  all_goals cases linked

/-! ## Which declarations may be added -/

/-- The declaration may be added to a scope without a chain of links coming back to itself. -/
def MayJoin (table : Table) (new : SymbolId) : Prop :=
  table.declClass new = .object ∨
    (table.isForwardDeclaration new = true ∧ table.Untargeted new) ∨
    (table.isForwardDeclaration new = false ∧ table.nextLink new = none)

/-- A declaration that nothing links to and that is linked to nothing. -/
theorem MayJoin.of_alone (unlinked : table.nextLink new = none) (untargeted : table.Untargeted new) :
    table.MayJoin new := by
  cases hforward : table.isForwardDeclaration new with
  | true => exact .inr (.inl ⟨hforward, untargeted⟩)
  | false => exact .inr (.inr ⟨hforward, unlinked⟩)

/-- A link that the redeclaration rules ask for does not come back. -/
theorem MayJoin.not_reaches (ends : table.LinksEnd) (may : table.MayJoin new) (differs : old ≠ new)
    (linked : table.redeclare old new = .link id target) : ¬ table.Reaches target id := by
  intro reaches
  rcases class_of_redeclare_link linked with ⟨-, -, hdistinct⟩ | ⟨hclass, hcomplete⟩
  · -- Two objects that one chain joins are one entity already.
    have hsame := ends.canonical_of_reaches reaches
    rcases (isLink_redeclare linked).ends with ⟨rfl, rfl⟩ | ⟨rfl, rfl⟩
    · exact hdistinct hsame
    · exact hdistinct hsame.symm
  · unfold completeForward at hcomplete
    rcases may with object | ⟨hforward, huntargeted⟩ | ⟨hdefinition, hunlinked⟩
    · exact hclass object
    · rw [if_pos hforward] at hcomplete
      cases hcomplete
      exact huntargeted.not_reaches differs reaches
    · rw [if_neg (by simp [hdefinition])] at hcomplete
      split at hcomplete
      · cases hcomplete
        exact differs (eq_of_reaches hunlinked reaches)
      · cases hcomplete

/-- The declaration may be checked against further ones. -/
theorem MayJoin.link (ends : table.LinksEnd) (may : table.MayJoin new) (differs : old ≠ new)
    (linked : table.redeclare old new = .link id target) :
    (table.link (id, target)).MayJoin new := by
  have hmisses := may.not_reaches ends differs linked
  by_cases hobject : table.declClass new = .object
  · -- Whatever the object stands for now, it is an object.
    left
    have hlink := isLink_redeclare linked
    rcases class_of_redeclare_link linked with ⟨hold, hnew, -⟩ | ⟨hclass, -⟩
    · rw [declClass_eq, entityClass_link]
      rw [declClass_eq] at hold hnew
      rcases ends.canonical_link hmisses new with hsame | hmoved
      · rw [hsame]
        exact hnew
      · rw [hmoved]
        rcases hlink.ends with ⟨-, rfl⟩ | ⟨-, rfl⟩
        · exact hold
        · exact hnew
    · exact absurd hobject hclass
  · right
    rcases class_of_redeclare_link linked with ⟨-, hnew, -⟩ | ⟨-, hcomplete⟩
    · exact absurd hnew hobject
    · unfold completeForward at hcomplete
      rcases may with object | ⟨hforward, huntargeted⟩ | ⟨hdefinition, hunlinked⟩
      · exact absurd object hobject
      · left
        rw [if_pos hforward] at hcomplete
        cases hcomplete
        refine ⟨(isForwardDeclaration_link _ _ _).trans hforward, fun x hx => ?_⟩
        by_cases hself : x = new
        · exact ne_of_nextLink hx hself.symm
        · rw [nextLink_link_of_ne hself] at hx
          exact huntargeted x hx
      · right
        rw [if_neg (by simp [hdefinition])] at hcomplete
        split at hcomplete
        · cases hcomplete
          refine ⟨(isForwardDeclaration_link _ _ _).trans hdefinition, ?_⟩
          rw [nextLink_link_of_ne differs.symm]
          exact hunlinked
        · cases hcomplete

end Table

theorem Regime.Sound.declaring {regime : Regime} {table : Table} (sound : regime.Sound table) :
    Regime.declaring.Sound table :=
  ⟨sound.represented, sound.work, sound.running, Nat.zero_le _, Nat.zero_le _⟩

namespace Analysis

variable {regime : Regime} {table : Table} {inv : Table → Prop} {scope old new : SymbolId}

/-- The regime declares, and while `inv` holds it allows the links of `new` that the redeclaration rules
ask for. -/
structure AllowsLinks (regime : Regime) (new : SymbolId) (inv : Table → Prop) : Prop where
  declares : regime.Allows .declaring
  links : ∀ table old id target, inv table → old ≠ new → table.redeclare old new = .link id target →
    regime.allows table id (.assign (.forwardTarget (some target))) ∧ inv (table.link (id, target))

/-- Any link may be made where all edits are allowed. -/
theorem allowsLinks_linking (new : SymbolId) : AllowsLinks .linking new fun _ => True where
  declares :=
    { edits := fun _ _ _ _ => trivial
      base := Nat.le_refl _
      floor := Nat.le_refl _
      quiet := id }
  links := fun _ _ _ _ _ _ _ => ⟨trivial, trivial⟩

/-- A declaration that may join is linked without closing a circle. -/
theorem allowsLinks_joining (new : SymbolId) :
    AllowsLinks .joining new fun table => table.LinksEnd ∧ table.MayJoin new where
  declares := Regime.joining_allows_declaring
  links := by
    rintro table old id target ⟨ends, may⟩ differs linked
    have hmisses := may.not_reaches ends differs linked
    exact ⟨.inr ⟨target, rfl, .inr hmisses⟩, ends.link hmisses, may.link ends differs linked⟩

/-! ## Adding a declaration -/

theorem moves_redeclare (allows : AllowsLinks regime new inv) (name : Name) (holds : inv table)
    (differs : old ≠ new) (before : old.index < table.size) (lt : new.index < table.size) :
    MovesAt regime (redeclare old new name) (fun after _ => inv after) table := by
  refine .read ?_
  split
  · exact .fail (by simp)
  · exact .pure holds
  · rename_i id target hverdict
    obtain ⟨hallowed, hinv⟩ := allows.links table old id target holds differs hverdict
    have htarget : target.index < table.size := by
      rcases (Table.isLink_redeclare hverdict).ends with ⟨-, rfl⟩ | ⟨-, rfl⟩
      · exact before
      · exact lt
    have hwithin : Within table.size (Edit.assign (.forwardTarget (some target))).mentions := by
      simpa [Edit.mentions, Assignment.mentions] using htarget
    refine (moves_edit hallowed hwithin (by simp) (by trivial)).weaken fun after _ _ same => ?_
    rw [same]
    exact hinv

theorem moves_checkRedeclaration (allows : AllowsLinks regime new inv) (scope : SymbolId)
    (sound : regime.Sound table) (holds : inv table) (lt : new.index < table.size) :
    MovesAt regime (checkRedeclaration scope new) (fun after _ => inv after) table := by
  refine .read (.forM sound holds fun old member after hmoved _ hafter => ?_)
  by_cases hsame : old = new
  · rw [if_pos hsame]
    exact .pure hafter
  · rw [if_neg hsame]
    have hold := sound.represented.members_within scope _ old member
    exact moves_redeclare allows _ hafter hsame (Nat.lt_of_lt_of_le hold hmoved.size_le)
      (Nat.lt_of_lt_of_le lt hmoved.size_le)

theorem moves_addSymbol (allows : AllowsLinks regime new inv) (sound : regime.Sound table)
    (holds : inv table) (outer : scope.index < table.size) (lt : new.index < table.size) :
    MovesAt regime (addSymbol scope new) (fun _ _ => True) table := by
  have hinsert : ∀ after, Moved regime table after → regime.Sound after →
      MovesAt regime (insertMember scope new) (fun _ _ => True) after := by
    intro after hmoved hsound
    have hinserted := moves_insertMember hsound.declaring
      (Nat.lt_of_lt_of_le outer hmoved.size_le) (Nat.lt_of_lt_of_le lt hmoved.size_le)
    exact hinserted.mono allows.declares
  have hadd : MovesAt regime (do
      unless (table.symbol new).name.isEmpty do checkRedeclaration scope new
      insertMember scope new) (fun _ _ => True) table := by
    dsimp only
    split
    · exact hinsert table (.refl regime table) sound
    · refine (moves_checkRedeclaration allows scope sound holds lt).bind sound ?_
      exact fun _ after hmoved hsound _ => hinsert after hmoved hsound
  refine .read ?_
  dsimp only
  split
  · exact hadd
  · exact .of_fault rfl

/-- The other name of a namespace is a new object. -/
theorem moves_addNamespaceAlias (name : Name) {target : SymbolId}
    (allows : AllowsLinks regime ⟨table.size⟩ inv)
    (holds : ∀ type : Descriptor, type.kind = .nspace →
      inv (table.allocate { name, type, payload := .container {} }).2)
    (sound : regime.Sound table) (outer : scope.index < table.size)
    (lt : target.index < table.size) :
    MovesAt regime (addNamespaceAlias scope name target) (fun _ _ => True) table := by
  refine .read ?_
  dsimp only
  split
  · exact .fail (by simp)
  · have hresolved := sound.represented.resolveNamespace_lt lt
    have hbelow : Descriptor.Below table.size
        { kind := .nspace, link := some (table.resolveNamespace target) } := by
      rw [Descriptor.below_iff]
      simpa using hresolved
    have hblank : (Payload.container {}).Blank := rfl
    have hcreate := (moves_createBlank name hbelow hblank rfl).mono allows.declares
    refine hcreate.bind sound fun synonym after hmoved hsound hmade => ?_
    obtain ⟨rfl, rfl⟩ := hmade
    have houter := Nat.lt_of_lt_of_le outer hmoved.size_le
    have hlt : ∀ symbol, table.size < (table.allocate symbol).2.size := by
      intro symbol
      rw [Table.size_allocate]
      omega
    have hadded := moves_addSymbol allows hsound (holds _ rfl) houter (hlt _)
    exact hadded.bind hsound fun _ _ _ _ _ => .pure trivial

/-! ## Explicit specializations -/

section Specialization

variable {template id : SymbolId} {args : List Descriptor}

/-- The member that is specialized is redirected, unless the specialization is a declaration of it. -/
theorem moves_specializeMember (allows : AllowsLinks regime id inv) {start : Table → Prop}
    (starts : ∀ after, start after → inv after)
    (redirects : ∀ after member, start after →
      regime.allows after member (.assign (.forwardTarget (some id))))
    (makes : MovesAt regime (instantiate template args)
      (fun after made => made.index < after.size ∧ start after) table)
    (sound : regime.Sound table) (lt : id.index < table.size) :
    MovesAt regime (specializeMember template args id) (fun _ _ => True) table := by
  refine makes.bind sound fun made after hmoved hsound hmade => ?_
  obtain ⟨houter, hstart⟩ := hmade
  have hlt := Nat.lt_of_lt_of_le lt hmoved.size_le
  refine .read ?_
  dsimp only
  split
  · exact .fail (by simp)
  · rename_i member _
    split
    · have hadded := moves_addSymbol allows hsound (starts after hstart) houter hlt
      exact hadded.bind hsound fun _ _ _ _ _ => .pure trivial
    · have hwithin : Within after.size (Edit.assign (.forwardTarget (some id))).mentions := by
        simpa [Edit.mentions, Assignment.mentions] using hlt
      refine (moves_edit (redirects after member hstart) hwithin (by simp) (by trivial)).bind
        hsound ?_
      intro _ linked hlinked hlinkedSound _
      have hinserted := (moves_insertMember hlinkedSound.declaring
        (Nat.lt_of_lt_of_le houter hlinked.size_le)
        (Nat.lt_of_lt_of_le hlt hlinked.size_le)).mono allows.declares
      exact hinserted.bind hlinkedSound fun _ _ _ _ _ => .pure trivial

theorem moves_specializeTemplate (sound : Regime.declaring.Sound table)
    (outer : template.index < table.size) (lt : id.index < table.size)
    (given : ∀ arg ∈ args, arg.Below table.size) :
    MovesAt .declaring (specializeTemplate template args id) (fun _ _ => True) table := by
  refine (moves_completeArguments moves_resolveType template sound given).bind sound ?_
  intro completed after hmoved hsound hcompleted
  have hargs := Descriptor.within_mentionsAll.mpr hcompleted
  have hlt := Nat.lt_of_lt_of_le lt hmoved.size_le
  have houter := Nat.lt_of_lt_of_le outer hmoved.size_le
  refine .read ?_
  dsimp only
  split
  · exact .fail False.elim
  · rename_i hnew
    have hentry : Within after.size (Entry.explicit { args := completed, symbol := id }).mentions := by
      simp [Entry.mentions, Instance.mentions, hlt, hargs]
    have hnews : (Edit.append (.explicit { args := completed, symbol := id })).IsNews
        (after.symbol template) := by
      simpa [Edit.IsNews, Lacks, Symbol.explicits] using hnew
    refine (moves_append template hentry hnews).bind hsound fun _ first hfirst hsoundFirst _ => ?_
    have horigin : Within first.size
        (Assignment.origin (some { template, args := completed })).mentions := by
      refine Within.mono ?_ hfirst.size_le
      simp [Assignment.mentions, TemplateUse.mentions, houter, hargs]
    refine (moves_assign id (by trivial) horigin).bind hsoundFirst ?_
    intro _ second hsecond hsoundSecond _
    have hscope : ∀ inside, Within second.size
        (Assignment.scope (after.symbol template).scope inside).mentions := by
      intro inside
      refine Within.mono ?_ (hfirst.trans hsecond).size_le
      exact Within.toList.mpr fun scope => Symbol.scope_lt (hsound.represented.within template)
    split
    · refine (moves_assign id (by trivial) (hscope _)).bind hsoundSecond ?_
      exact fun _ _ _ _ _ => .pure trivial
    · exact .pure trivial

/-- Whether a member or the whole template is specialized. -/
theorem moves_addExplicitSpecialization (declares : regime.Allows .declaring)
    (member : ∀ entity, MovesAt regime (specializeMember entity args id) (fun _ _ => True) table)
    (sound : regime.Sound table) (outer : template.index < table.size)
    (lt : id.index < table.size) (given : ∀ arg ∈ args, arg.Below table.size) :
    MovesAt regime (addExplicitSpecialization template args id) (fun _ _ => True) table := by
  refine .read ?_
  dsimp only
  split
  · exact .fail (by simp)
  · split
    · exact member _
    · have hentity := sound.represented.canonical_lt outer
      exact (moves_specializeTemplate sound.declaring hentity lt given).mono declares

end Specialization

end Analysis

end NameBinding
