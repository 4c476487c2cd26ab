import NameBinding.Proofs.Inheritance.Acyclic
import NameBinding.Proofs.Operation.Representation

/-!
# Chains of links that end

Following the links of a declaration leads to the entity it stands for, unless the chain comes back to
itself.  Adding a forward declaration to a second scope can close such a circle: it is linked to a
declaration of that scope, which may already be linked to it.

* `Action.Joins`: the actions that never close one.  A declaration is added to a scope only while it may
  join (`Table.MayJoin`), and specializes a template only while it stands alone.
* `moves_carryOut_joining`: the operations among them make safe links only.

The main statement is `joined_links_acyclic`: in every table that is reached with such actions no chain
comes back to itself, and so every chain has an end, which is found however many links one is ready to
follow beyond it.
-/

namespace NameBinding

namespace Table

variable {table after : Table}

/-! ## Acyclic links -/

/-- Where every chain ends, none comes back to its start. -/
theorem LinksEnd.acyclic (ends : table.LinksEnd) (id : SymbolId) :
    ¬ Relation.TransGen (fun a b => table.nextLink a = some b) id id := by
  intro circle
  obtain ⟨next, hlinked, hback⟩ := Relation.TransGen.head'_iff.mp circle
  obtain ⟨root, steps, chain⟩ := ends id
  obtain ⟨root', hnext⟩ := ends next
  -- All symbols of the circle have a link, and so none of them can be the end of the chain.
  have hcircle : ∀ y, table.Reaches id y → table.Reaches y id := by
    intro y hreaches
    induction hreaches with
    | refl => exact .refl
    | @tail y z _ hlink ih =>
        rcases Relation.ReflTransGen.cases_head ih with hsame | ⟨w, hw, hrest⟩
        · subst hsame
          rw [hlinked, Option.some.injEq] at hlink
          exact hlink ▸ hback
        · rw [hw, Option.some.injEq] at hlink
          exact hlink ▸ hrest
  have hroot := hcircle root (Stands.reaches ⟨steps, chain⟩)
  have hsame : id = root := eq_of_reaches chain.ends_root hroot
  rw [hsame, chain.ends_root] at hlinked
  cases hlinked

/-- Where no chain comes back to its start, every chain ends. -/
theorem LinksEnd.of_acyclic
    (acyclic : ∀ id, ¬ Relation.TransGen (fun a b => table.nextLink a = some b) id id) :
    table.LinksEnd := by
  intro id
  induction acc_of_acyclic lt_size_of_nextLink acyclic id with
  | intro id _ ih =>
      cases hnext : table.nextLink id with
      | none => exact ⟨id, .refl hnext⟩
      | some next =>
          obtain ⟨root, stands⟩ := ih next hnext
          exact ⟨root, .head hnext stands⟩

/-- The end of a chain in the table is found with fewer links than the table has symbols, and with any
larger number. -/
theorem LinksEnd.followLinks_eq (ends : table.LinksEnd) (represented : table.Represented)
    {id : SymbolId} (lt : id.index < table.size) :
    ∃ steps < table.size, ∀ bound, steps ≤ bound →
      table.followLinks bound id = table.canonical id := by
  obtain ⟨steps, chain⟩ := ends.stands id
  have hroot := represented.canonical_lt lt
  exact ⟨steps, chain.steps_lt hroot, fun bound enough => chain.followLinks_eq enough⟩

theorem LinksEnd.ignoresFlags : IgnoresFlags LinksEnd := by
  intro table after same ends
  refine ends.of_nextLink fun x => ?_
  have hplain := same.symbol_eq x
  have haliasOf : (after.symbol x).plain.aliasOf = (table.symbol x).plain.aliasOf := by rw [hplain]
  have htarget : (after.symbol x).plain.forwardTarget = (table.symbol x).plain.forwardTarget := by
    rw [hplain]
  exact nextLink_of_symbol_eq haliasOf htarget

/-! ## New namespaces -/

section Push

variable {symbol : Symbol}

/-- A new namespace is an object that may be added to any scope. -/
theorem MayJoin.of_push (symbols : after.symbols = table.symbols.push symbol)
    (aliasOf : symbol.aliasOf = none) (forwardTarget : symbol.forwardTarget = none)
    (nspace : symbol.type.kind = .nspace) (container : symbol.templateData? = none) :
    after.MayJoin ⟨table.size⟩ := by
  left
  have hunlinked : after.nextLink ⟨table.size⟩ = none := by
    have hnew : after.symbol ⟨table.size⟩ = symbol := by
      rw [symbol_of_push symbols, if_pos rfl]
    simp [nextLink, hnew, aliasOf, forwardTarget]
  have hnew : after.symbol ⟨table.size⟩ = symbol := by
    rw [symbol_of_push symbols, if_pos rfl]
  have htemplated : after.templated? ⟨table.size⟩ = none := by
    simp [templated?, hnew, container]
  rw [declClass_eq, canonical_of_nextLink_none hunlinked]
  simp [entityClass, isFunctionTemplate, isClassTemplate, htemplated, hnew, Symbol.isFunction,
    nspace, BaseKind.isClassOrEnum, BaseKind.isClass]

end Push

end Table

/-! ## Actions that close no circle -/

/-- The operation redirects declarations only such that no chain comes back to itself. -/
def Operation.Joins (table : Table) : Operation → Prop
  | .setForwardTarget _ _ => False
  | .addSymbol _ id => table.MayJoin id
  | .addExplicitSpecialization _ _ id => table.nextLink id = none ∧ table.Untargeted id
  | _ => True

/-- The action only refers to symbols of the table, and closes no circle of links. -/
def Action.Joins (table : Table) (action : Action) : Prop :=
  action.Refers table ∧
    match action with
    | .perform operation => operation.Joins table
    | _ => True

namespace Analysis

variable {table : Table}

/-- An instance is made without a link to or from what was there before. -/
theorem moves_instantiate_joining (template : SymbolId) {args : List Descriptor} {id : SymbolId}
    (sound : Regime.joining.Sound table) (ends : table.LinksEnd)
    (given : ∀ arg ∈ args, arg.Below table.size) (lt : id.index < table.size)
    (unlinked : table.nextLink id = none) (untargeted : table.Untargeted id) :
    MovesAt .joining (instantiate template args)
      (fun after made => made.index < after.size ∧
        after.LinksEnd ∧ after.nextLink id = none ∧ after.Untargeted id) table := by
  have hsound : (Regime.copying table.size 0).Sound table :=
    ⟨sound.represented, sound.work, sound.running, Nat.le_refl _, Nat.zero_le _⟩
  have hlinkless : ∀ current other edit, (Regime.copying table.size 0).allows current other edit →
      edit.IsLinkless := (Regime.declaring_allows_copying table.size 0).edits
  have hmade := (moves_instantiate template hsound given).weaken fun after made hmoved hmade => by
    show made.index < after.size ∧
      after.LinksEnd ∧ after.nextLink id = none ∧ after.Untargeted id
    have hsafe := hmoved.changes.linksEnd
      (fun current other edit allowed => .inl (hlinkless current other edit allowed))
      sound.represented ends
    have hparts := hmoved.changes.sameParts (Nat.le_refl _) lt
    have hunlinked : after.nextLink id = none :=
      (Table.nextLink_of_symbol_eq hparts.aliasOf hparts.forwardTarget).trans unlinked
    exact ⟨hmade, hsafe, hunlinked, hmoved.changes.untargeted trivial hlinkless lt untargeted⟩
  have hallows : Regime.joining.Allows (.copying table.size 0) :=
    { edits := fun current other edit allowed => .inl (hlinkless current other edit allowed)
      base := Nat.zero_le _
      floor := Nat.zero_le _
      quiet := False.elim }
  exact hmade.mono hallows

/-- The operation makes links after which every chain still ends. -/
theorem moves_carryOut_joining {operation : Operation} (joins : operation.Joins table)
    (sound : Regime.joining.Sound table) (ends : table.LinksEnd)
    (within : Within table.size operation.mentions) :
    MovesAt .joining (carryOut operation) (fun _ _ => True) table := by
  by_cases hredirects : operation.Redirects
  · cases operation with
    | setForwardTarget id target => exact joins.elim
    | addSymbol scope id =>
        simp only [Operation.mentions, Within.cons] at within
        exact moves_addSymbol (allowsLinks_joining id) sound ⟨ends, joins⟩ within.1 within.2.1
    | addNamespaceAlias scope name target =>
        simp only [Operation.mentions, Within.cons] at within
        refine moves_discard (moves_addNamespaceAlias name (allowsLinks_joining _)
          (fun type nspace => ⟨?_, ?_⟩) sound within.1 within.2.1)
        · exact ends.of_nextLink (Table.nextLink_of_push rfl rfl rfl)
        · exact .of_push rfl rfl rfl nspace rfl
    | addExplicitSpecialization template args id =>
        simp only [Operation.mentions, Within.cons] at within
        obtain ⟨htemplate, hid, hargs⟩ := within
        obtain ⟨hunlinked, huntargeted⟩ := joins
        have hgiven := Descriptor.within_mentionsAll.mp hargs
        refine moves_discard (moves_addExplicitSpecialization (allowsLinks_joining id).declares
          (fun entity => ?_) sound htemplate hid hgiven)
        refine moves_specializeMember (allowsLinks_joining id)
          (fun after alone => ⟨alone.1, .of_alone alone.2.1 alone.2.2⟩) ?_
          (moves_instantiate_joining entity sound ends hgiven hid hunlinked huntargeted) sound hid
        -- The specialization is the end of its chain, so that the member does not lie on it.
        intro after member alone
        refine .inr ⟨id, rfl, ?_⟩
        by_cases hself : id = member
        · exact .inl hself
        · exact .inr fun hreaches => hself (Table.eq_of_reaches alone.2.1 hreaches).symm
    | _ => exact hredirects.elim
  · exact (moves_carryOut hredirects sound.declaring within).mono Regime.joining_allows_declaring

end Analysis

/-! ## Reached tables -/

/-- Everything mentioned exists and every chain ends, whatever is done and taken back. -/
theorem Reached.linksEnd_sheltered {table : Table} (joined : Reached Action.Joins table) :
    Sheltered (fun table => table.Represented ∧ table.LinksEnd) table := by
  have hignores : IgnoresFlags fun table => table.Represented ∧ table.LinksEnd :=
    fun table after same holds => ⟨Table.Represented.ignoresFlags table after same holds.1,
      Table.LinksEnd.ignoresFlags table after same holds.2⟩
  induction joined with
  | new config =>
      refine .new config ⟨.new config, fun id => ⟨id, .refl ?_⟩⟩
      by_contra linked
      obtain ⟨next, hnext⟩ := Option.ne_none_iff_exists'.mp linked
      have hlt := Table.lt_size_of_nextLink hnext
      have hglobal : id = ⟨0⟩ := by
        cases id
        simp only [Table.size, Table.new] at hlt
        simpa using hlt
      subst hglobal
      cases hnext
  | act _ action joins ends ih =>
      refine ih.act hignores ends ?_
      rintro operation rfl
      obtain ⟨hrepresented, hlinksEnd⟩ := ih.holds
      have hsettled := Regime.Sound.of_settled hrepresented ih.settled
      have hsound : Regime.joining.Sound _ :=
        ⟨hsettled.represented, hsettled.work, hsettled.running, Nat.zero_le _, Nat.zero_le _⟩
      have hmoved := Analysis.moved_after
        (Analysis.moves_carryOut_joining joins.2 hsound hlinksEnd joins.1) ends
      exact ⟨hmoved.changes.represented hrepresented,
        hmoved.changes.linksEnd (fun _ _ _ safe => safe) hrepresented hlinksEnd⟩

/-- Where declarations are added to scopes only while they may join, no chain of links comes back to
itself.  Each one ends before as many links as there are symbols, at the same symbol whatever larger
number of links is followed, and this symbol stands for itself. -/
theorem joined_links_acyclic {table : Table} (joined : Reached Action.Joins table) :
    (∀ id, ¬ Relation.TransGen (fun a b => table.nextLink a = some b) id id) ∧
      (∀ id, id.index < table.size → ∃ steps < table.size, ∀ bound, steps ≤ bound →
        table.followLinks bound id = table.canonical id) ∧
      (∀ id, table.nextLink (table.canonical id) = none) ∧
      ∀ id, table.canonical (table.canonical id) = table.canonical id := by
  obtain ⟨hrepresented, hends⟩ := joined.linksEnd_sheltered.holds
  refine ⟨hends.acyclic, ?_, hends.nextLink_canonical, hends.canonical_canonical⟩
  exact fun id lt => hends.followLinks_eq hrepresented lt

/-! ## A run -/

instance {table : Table} {id : SymbolId} : Decidable (table.Untargeted id) :=
  decidable_of_iff (∀ i : Fin table.size, table.nextLink ⟨i⟩ ≠ some id) <| by
    constructor
    · intro untargeted x linked
      exact untargeted ⟨x.index, Table.lt_size_of_nextLink linked⟩ linked
    · exact fun untargeted i => untargeted ⟨i⟩

instance {table : Table} {id : SymbolId} : Decidable (table.MayJoin id) :=
  inferInstanceAs (Decidable (_ ∨ _ ∧ _ ∨ _ ∧ _))

instance {table : Table} {operation : Operation} : Decidable (operation.Joins table) := by
  cases operation <;> (dsimp only [Operation.Joins]; infer_instance)

instance {table : Table} {action : Action} : Decidable (action.Joins table) := by
  cases action <;> (dsimp only [Action.Joins]; infer_instance)

/-- A class is declared and then defined in the global namespace, the declaration is added to a second
namespace, and a third one names it with a using-declaration. -/
def addedTwice : List Action :=
  [.perform (.createClass ⟨17⟩ .struct), .addFlags ⟨1⟩ { specifiers := { isForward := true } },
    .perform (.addSymbol ⟨0⟩ ⟨1⟩),
    .perform (.createClass ⟨17⟩ .struct), .perform (.addSymbol ⟨0⟩ ⟨2⟩),
    .perform (.createContainer ⟨18⟩ (.ofKind .nspace)), .perform (.addSymbol ⟨0⟩ ⟨3⟩),
    .perform (.addSymbol ⟨3⟩ ⟨1⟩),
    .perform (.createContainer ⟨19⟩ (.ofKind .nspace)), .perform (.addSymbol ⟨0⟩ ⟨4⟩),
    .perform (.addUsingDeclaration ⟨4⟩ ⟨17⟩ ⟨3⟩)]

/-- The declaration and the alias both stand for the definition. -/
theorem added_twice_acyclic :
    ∃ table, Reached Action.Joins table ∧ table.canonical ⟨1⟩ = ⟨2⟩ ∧ table.canonical ⟨5⟩ = ⟨2⟩ ∧
      (∀ id, ¬ Relation.TransGen (fun a b => table.nextLink a = some b) id id) ∧
      (∀ id, id.index < table.size → ∃ steps < table.size, ∀ bound, steps ≤ bound →
        table.followLinks bound id = table.canonical id) ∧
      (∀ id, table.nextLink (table.canonical id) = none) ∧
      ∀ id, table.canonical (table.canonical id) = table.canonical id := by
  have hreached : Reached Action.Joins ((Table.new {}).ran addedTwice) :=
    Reached.ran (.new {}) (by decide +kernel)
  exact ⟨_, hreached, by decide +kernel, by decide +kernel, joined_links_acyclic hreached⟩

end NameBinding
