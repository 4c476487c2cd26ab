import NameBinding.Proofs.Lookup.Moves
import NameBinding.Proofs.Table.Unambiguous

/-!
# Looking a name up in one scope

A qualified lookup that ignores using-directives searches one scope and its bases.  What it finds for a
name is sorted into entities, each counted once.

* `Table.Overloadable`: the declarations of a name stand beside each other in one scope, rivals among
  them are one entity, and there are no objects beside functions.
* `Overloadable.isAmbiguous_eq_false`: the entities of such declarations do not exclude each other.

The main statement is `moves_lookup_exact`: in a scope without bases such a name is never ambiguous,
whatever instances of function templates the arguments of a call ask for.
-/

namespace NameBinding

/-! ## Lists without duplicates -/

theorem pairwise_eraseDupsBy {α : Type} (same : α → α → Bool) (list : List α) :
    (list.eraseDupsBy same).Pairwise fun a b => same b a = false := by
  induction hlength : list.length using Nat.strongRecOn generalizing list with
  | _ length ih =>
      cases list with
      | nil => simp
      | cons first rest =>
          have hshorter : (rest.filter fun other => decide (same other first = false)).length
              < length := by
            have hle := List.length_filter_le (fun other => decide (same other first = false)) rest
            simp only [List.length_cons] at hlength
            omega
          rw [List.eraseDupsBy_cons]
          refine List.pairwise_cons.mpr ⟨fun other member => ?_, ?_⟩
          · have hkept := mem_of_mem_eraseDupsBy member
            simpa using (List.mem_filter.mp hkept).2
          · exact ih _ hshorter _ rfl

/-- A list whose elements agree where they must differ is short. -/
theorem length_le_one_of_pairwise {α β : Type} {key : α → β} {list : List α}
    (differ : list.Pairwise fun a b => key a ≠ key b)
    (agree : ∀ a ∈ list, ∀ b ∈ list, key a = key b) : list.length ≤ 1 := by
  match list with
  | [] => exact Nat.zero_le 1
  | [_] => exact Nat.le_refl 1
  | first :: second :: rest =>
      have hdiffer := (List.pairwise_cons.mp differ).1 second (by simp)
      exact absurd (agree first (by simp) second (by simp)) hdiffer

namespace Found

/-- Hits of one name make up one entry. -/
theorem ofHits_cases {hits : List Hit} {name : Name} (named : ∀ hit ∈ hits, hit.1 = name) :
    hits = [] ∨ ofHits hits = [(name, hits.map (·.2))] := by
  have hfold : ∀ (rest : List Hit) (ids : List SymbolId), (∀ hit ∈ rest, hit.1 = name) →
      rest.foldl (fun found hit => Found.add found hit.1 [hit.2]) [(name, ids)] =
        [(name, ids ++ rest.map (·.2))] := by
    intro rest
    induction rest with
    | nil => simp
    | cons hit rest ih =>
        intro ids same
        have hname := same hit List.mem_cons_self
        have hadd : Found.add [(name, ids)] hit.1 [hit.2] = [(name, ids ++ [hit.2])] := by
          simp [Found.add, hname]
        rw [List.foldl_cons, hadd, ih _ fun other member => same other (List.mem_cons_of_mem hit member)]
        simp
  cases hits with
  | nil => exact .inl rfl
  | cons hit rest =>
      right
      have hname := named hit List.mem_cons_self
      have hstart : Found.add [] hit.1 [hit.2] = [(name, [hit.2])] := by
        rw [hname]
        rfl
      rw [ofHits, List.foldl_cons, hstart,
        hfold rest _ fun other member => named other (List.mem_cons_of_mem hit member)]
      rfl

end Found

namespace Table

variable {careful : Prop} {table after : Table} {ids found : List SymbolId} {scope x : SymbolId}

/-! ## Declarations of one scope -/

/-- The declarations stand beside each other in the scope. -/
structure Overloadable (careful : Prop) (table : Table) (scope : SymbolId) (ids : List SymbolId) :
    Prop where
  unambiguous : table.Unambiguous careful ids
  scope : ∀ x ∈ ids, (table.symbol x).scope = some scope
  unlinked : ∀ x ∈ ids, table.declClass x = .function →
    (table.symbol (table.canonical x)).isTemplate = true → table.canonical x = x

/-- The class of a declaration is that of what it stands for. -/
theorem LinksEnd.declClass_canonical (ends : table.LinksEnd) (x : SymbolId) :
    table.declClass (table.canonical x) = table.declClass x := by
  rw [declClass_eq, declClass_eq, ends.canonical_canonical]

/-- The entities that were found are sorted by their classes. -/
theorem declClass_of_mem_classify {pair : SymbolId × Option SymbolId} :
    (pair ∈ (table.classify found).tags → table.declClass pair.1 = .tag) ∧
      (pair ∈ (table.classify found).objects → table.declClass pair.1 = .object) ∧
      (pair ∈ (table.classify found).functions → table.declClass pair.1 = .function) ∧
      (pair ∈ (table.classify found).templates → table.declClass pair.1 = .function) := by
  simp only [classify, List.mem_filter, beq_iff_eq]
  exact ⟨fun member => member.2, fun member => member.2, fun member => member.1.2,
    fun member => member.1.2⟩

/-- Each entity counts once. -/
theorem nodup_visible (table : Table) (found : List SymbolId) :
    (table.classify found).visible.Nodup := by
  have hentities := pairwise_eraseDupsBy (fun a b : SymbolId × SymbolId => a.2 == b.2)
    (found.map fun id => (id, table.canonical id))
  have hdiffer : ((found.map fun id => (id, table.canonical id)).eraseDupsBy
      fun a b => a.2 == b.2).Pairwise fun a b => a.2 ≠ b.2 := by
    refine hentities.imp fun {a b} differs same => ?_
    simp [same] at differs
  exact List.pairwise_map.mpr (List.pairwise_map.mpr (hdiffer.filter _))

theorem pairwise_classify (table : Table) (found : List SymbolId) :
    ((table.classify found).tags.Pairwise fun a b => a.1 ≠ b.1) ∧
      (table.classify found).objects.Pairwise fun a b => a.1 ≠ b.1 := by
  have hdeclared := List.pairwise_map.mp (table.nodup_visible found)
  exact ⟨hdeclared.filter _, hdeclared.filter _⟩

namespace Overloadable

variable (overloadable : table.Overloadable careful scope ids) (ends : table.LinksEnd)
  (sub : ∀ x ∈ found, x ∈ ids)

include overloadable ends sub

/-- Every name counts as declared in the scope. -/
theorem declaredIn_eq (member : x ∈ found) :
    table.declaredIn x (table.canonical x) = some scope := by
  have hscope := overloadable.scope x (sub x member)
  unfold declaredIn
  split
  · rename_i htemplate
    rw [Bool.and_eq_true, decide_eq_true_eq, ends.declClass_canonical] at htemplate
    rw [overloadable.unlinked x (sub x member) htemplate.1 htemplate.2]
    exact hscope
  · exact hscope

theorem declared_of_mem {pair : SymbolId × Option SymbolId}
    (member : pair ∈ (table.classify found).tags ∨ pair ∈ (table.classify found).objects ∨
      pair ∈ (table.classify found).functions ∨ pair ∈ (table.classify found).templates) :
    pair.2 = some scope ∧
      ∃ x ∈ ids, pair.1 = table.canonical x ∧ table.declClass x = table.declClass pair.1 := by
  obtain ⟨x, hx, rfl⟩ := exists_of_mem_classify member
  exact ⟨overloadable.declaredIn_eq ends sub hx, x, sub x hx, rfl,
    (ends.declClass_canonical x).symm⟩

/-- Two tags, or two objects, are one entity. -/
theorem one_of_class {list : List (SymbolId × Option SymbolId)} {kind : DeclClass}
    (differ : list.Pairwise fun a b => a.1 ≠ b.1) (noFunction : kind ≠ .function)
    (known : ∀ pair ∈ list, pair ∈ (table.classify found).tags ∨
      pair ∈ (table.classify found).objects ∨ pair ∈ (table.classify found).functions ∨
      pair ∈ (table.classify found).templates)
    (ofClass : ∀ pair ∈ list, table.declClass pair.1 = kind) : list.length ≤ 1 := by
  refine length_le_one_of_pairwise differ fun a ha b hb => ?_
  obtain ⟨-, x, hx, hax, hclassA⟩ := overloadable.declared_of_mem ends sub (known a ha)
  obtain ⟨-, y, hy, hby, hclassB⟩ := overloadable.declared_of_mem ends sub (known b hb)
  rw [ofClass a ha] at hclassA
  rw [ofClass b hb] at hclassB
  rw [hax, hby]
  refine overloadable.unambiguous.shares x hx y hy ⟨hclassA.trans hclassB.symm, fun hfunction => ?_⟩
  exact absurd (hclassA.symm.trans hfunction) noFunction

theorem isAmbiguous_eq_false : (table.classify found).isAmbiguous = false := by
  obtain ⟨hdifferTags, hdifferObjects⟩ := table.pairwise_classify found
  have htags := overloadable.one_of_class ends sub hdifferTags (by decide)
    (fun pair member => .inl member) fun pair => declClass_of_mem_classify.1
  have hobjects := overloadable.one_of_class ends sub hdifferObjects (by decide)
    (fun pair member => .inr (.inl member)) fun pair => declClass_of_mem_classify.2.1
  -- Whatever may hide a tag is declared in the scope of the tag.
  have hclash : (table.classify found).clashesWithTag = false := by
    unfold Candidates.clashesWithTag
    split
    · rfl
    · rename_i tag rest hlist
      have htag := (overloadable.declared_of_mem ends sub
        (.inl (hlist ▸ List.mem_cons_self : tag ∈ (table.classify found).tags))).1
      rw [List.any_eq_false]
      intro outer member
      obtain ⟨pair, hpair, rfl⟩ := List.mem_map.mp member
      have hsorted : pair ∈ (table.classify found).objects ∨
          pair ∈ (table.classify found).functions ∨ pair ∈ (table.classify found).templates := by
        simp only [List.append_assoc, List.mem_append] at hpair
        exact hpair.imp_left List.mem_of_mem_take
      have hscope := (overloadable.declared_of_mem ends sub (.inr hsorted)).1
      simp [hscope, htag]
  have hexclude : (table.classify found).objects ≠ [] →
      (table.classify found).functions = [] ∧ (table.classify found).templates = [] := by
    intro nonempty
    obtain ⟨object, hobject⟩ := List.exists_mem_of_ne_nil _ nonempty
    obtain ⟨-, x, hx, -, hclassX⟩ := overloadable.declared_of_mem ends sub (.inr (.inl hobject))
    rw [declClass_of_mem_classify.2.1 hobject] at hclassX
    have hnone : ∀ pair : SymbolId × Option SymbolId,
        pair ∈ (table.classify found).functions ∨ pair ∈ (table.classify found).templates →
          False := by
      intro pair member
      obtain ⟨-, y, hy, -, hclassY⟩ := overloadable.declared_of_mem ends sub (.inr (.inr member))
      have hfunction : table.declClass pair.1 = .function :=
        member.elim declClass_of_mem_classify.2.2.1 declClass_of_mem_classify.2.2.2
      exact overloadable.unambiguous.apart x hx y hy hclassX (hclassY.trans hfunction)
    exact ⟨List.eq_nil_iff_forall_not_mem.mpr fun pair member => hnone pair (.inl member),
      List.eq_nil_iff_forall_not_mem.mpr fun pair member => hnone pair (.inr member)⟩
  unfold Candidates.isAmbiguous
  rw [hclash]
  cases hlist : (table.classify found).objects with
  | nil => simpa using htags
  | cons object rest =>
      obtain ⟨hfunctions, htemplates⟩ := hexclude (by simp [hlist])
      have hrest : rest = [] := by simpa [hlist] using hobjects
      simpa [hfunctions, htemplates, hrest] using htags

end Overloadable

end Table

/-! ## What making instances leaves alone -/

theorem Edit.parents_apply_of_nil {edit : Edit} (surface : edit.IsSurface) {symbol : Symbol}
    (none : symbol.parents = []) : (edit.apply symbol).parents = [] := by
  obtain ⟨name, scope, type, inTemplate, access, target, named, origin, link, payload⟩ := symbol
  rcases edit with assignment | entry | ⟨under, member⟩
  · cases assignment with
    | parent position base =>
        cases payload with
        | cls data =>
            have hparents : data.parents = [] := none
            simp [Edit.apply, Assignment.apply, Symbol.mapClass, Symbol.parents, Symbol.classData?,
              hparents]
        | _ => exact none
    | type | origin => exact none
    | returnType => cases payload <;> exact none
    | _ => exact surface.elim
  · cases entry with
    | cached | placeholder => cases payload <;> exact none
    | _ => exact surface.elim
  · exact surface.elim

/-- A symbol out of reach gets no bases. -/
theorem Change.parents_of_nil {regime : Regime} {table after : Table}
    (change : Change regime table after) (le : regime.base ≤ table.size) {x : SymbolId}
    (old : x.index < regime.base) (none : (table.symbol x).parents = []) :
    (after.symbol x).parents = [] := by
  cases change with
  | create symbol symbols => rwa [Table.symbol_of_push symbols, if_neg (by omega)]
  | edit id edit allowed symbols =>
      rw [Table.symbol_of_modify symbols]
      split
      · rename_i hsame
        exact Edit.parents_apply_of_nil (regime.caches table id edit allowed (hsame.1 ▸ old)).isSurface none
      · exact none
  | elsewhere symbols => rwa [Table.symbol_of_symbols_eq symbols]
  | links start context base_le copies links =>
      rw [links.others x fun pair member same => ?_]
      · exact none
      · have hfresh := (copies.fresh pair member).1
        rw [same] at hfresh
        omega

theorem Changes.parents_of_nil {regime : Regime} {table after : Table}
    (changes : Changes regime table after) (le : regime.base ≤ table.size) {x : SymbolId}
    (old : x.index < regime.base) (none : (table.symbol x).parents = []) :
    (after.symbol x).parents = [] := by
  induction changes with
  | refl => exact none
  | tail before change ih =>
      exact change.parents_of_nil (Nat.le_trans le (Changes.size_le before)) old ih

/-! ## The lookup -/

namespace Search

variable {careful : Prop} {table : Table} {scope : SymbolId} {ids : List SymbolId} {query : Query}
  {base floor : Nat}

/-- Merging what may stand beside each other is not ambiguous, and asks for instances at most. -/
theorem moves_collectOverloadable (sound : (Regime.copying base floor).Sound table)
    (overloadable : table.Overloadable careful scope ids) (ends : table.LinksEnd)
    (below : query.options.Below table.size) (name : Name) {found : List SymbolId}
    (within : Within table.size found) (sub : ∀ x ∈ found, x ∈ ids) :
    MovesAt (.copying base floor) (collectSymbol query name found) (fun _ _ => True) table := by
  refine .read ?_
  dsimp only
  rw [overloadable.isAmbiguous_eq_false ends sub]
  simp only [Bool.false_eq_true, if_false]
  split
  · exact .pure trivial
  · have htemplates : Within table.size ((table.classify found).templates.map (·.1)) := by
      intro id member
      obtain ⟨pair, hpair, rfl⟩ := List.mem_map.mp member
      exact sound.represented.classify_lt within (.inr (.inr (.inr hpair)))
    have hfold := Analysis.moves_foldTemplates sound below htemplates
    exact (MovesAt.lift sound hfold).bind sound fun instances after _ _ _ => .pure trivial

/-- The hits of one name in one scope make up one entry. -/
theorem moves_collectHits (sound : (Regime.copying base floor).Sound table)
    (overloadable : table.Overloadable careful scope ids) (ends : table.LinksEnd)
    (below : query.options.Below table.size) (within : Within table.size ids) {hits : List Hit}
    {name : Name} (named : ∀ hit ∈ hits, hit.1 = name ∧ hit.2 ∈ ids) :
    MovesAt (.copying base floor) (collectLevel query hits) (fun _ _ => True) table := by
  unfold collectLevel
  rcases Found.ofHits_cases fun hit member => (named hit member).1 with hnone | hone
  · rw [hnone]
    exact .pure trivial
  · have hsub : ∀ x ∈ hits.map (·.2), x ∈ ids := by
      intro x member
      obtain ⟨hit, hhit, rfl⟩ := List.mem_map.mp member
      exact (named hit hhit).2
    have hcollect := moves_collectOverloadable sound overloadable ends below name
      (fun x member => within x (hsub x member)) hsub
    have hentry : MovesAt (.copying base floor) (do
        let ids ← collectSymbol query name (hits.map (·.2))
        pure (if ids.isEmpty then [] else [] ++ [(name, ids)])) (fun _ _ => True) table :=
      hcollect.bind sound fun ids after _ _ _ => .pure trivial
    rw [hone, List.foldlM_cons]
    exact hentry.bind sound fun collected after _ _ _ => .pure trivial

/-- Nothing but the scope is searched if it has no bases and no using-directives are followed. -/
theorem moves_lookupInScope (sound : (Regime.copying table.size floor).Sound table)
    (overloadable : table.Overloadable careful scope ids) (ends : table.LinksEnd)
    (below : query.options.Below table.size) (within : Within table.size ids)
    (lt : scope.index < table.size) (parentless : (table.symbol scope).parents = [])
    (directives : query.options.ignoreDirectives = true) {name : Name}
    (named : ∀ hit ∈ table.scopeHits query scope, hit.1 = name ∧ hit.2 ∈ ids) :
    MovesAt (.copying table.size floor) (lookupIn query scope) (fun _ _ => True) table := by
  have hfollows : MovesAt (.copying table.size floor) (followsDirectives query)
      (fun after follows => after = table ∧ follows = false) table :=
    .read (.pure ⟨rfl, by simp [directives]⟩)
  refine .read (hfollows.bind sound ?_)
  rintro follows after - - ⟨rfl, rfl⟩
  simp only [Bool.and_false, Bool.false_and, Bool.false_eq_true, if_false]
  have hcollect := moves_collectHits sound overloadable ends below within named
  have hlevel : MovesAt (.copying after.size floor) (do
      let collected ← collectLevel query (after.scopeHits query scope)
      addInherited query scope collected) (fun _ _ => True) after := by
    refine hcollect.bind sound fun collected last hmoved _ _ => .read ?_
    -- Instances have been made at most, and those give no bases to the scope.
    have hnone := hmoved.changes.parents_of_nil (Nat.le_refl _) lt parentless
    rw [hnone]
    exact .pure trivial
  exact hlevel

end Search

namespace Table

/-- A scope in which no parameter has the name answers with the members of the name. -/
theorem scopeHits_members {table : Table} {query : Query} {scope : SymbolId}
    (whole : query.isCompleting = false) (bare : (table.symbol scope).Bare)
    (parameters : ∀ parameter ∈ (table.symbol scope).parameters,
      (table.symbol parameter).name ≠ query.name) :
    ∀ hit ∈ table.scopeHits query scope,
      hit.1 = query.name ∧ hit.2 ∈ table.members scope query.name := by
  intro hit member
  obtain ⟨hmember, -⟩ := List.mem_filter.mp member
  simp only [List.mem_append] at hmember
  rcases hmember with (declared | parameter) | renamed
  · simp only [memberHits, whole, Bool.false_eq_true, if_false, List.mem_map] at declared
    obtain ⟨id, hid, rfl⟩ := declared
    exact ⟨rfl, hid⟩
  · obtain ⟨hnamed, hmatches⟩ := List.mem_filter.mp parameter
    obtain ⟨id, hid, rfl⟩ := List.mem_map.mp hnamed
    have hstem : query.stem = none := by simpa [Query.isCompleting] using whole
    simp only [nameMatches, hstem, beq_iff_eq] at hmatches
    exact absurd hmatches (parameters id hid)
  · simp only [definitionHits, bare.renamed, List.filter_nil, List.mergeSort_nil] at renamed
    exact absurd renamed List.not_mem_nil

end Table

namespace Analysis

/-- A name whose declarations may stand beside each other is never ambiguous in their scope.  The lookup
is for the name itself, in one scope without bases, and follows no using-directives. -/
theorem moves_lookup_exact {careful : Prop} {table : Table} (scope : SymbolId) (name : Name)
    {options : LookupOptions} (sound : (Regime.copying table.size floor).Sound table)
    (ends : table.LinksEnd) (lt : scope.index < table.size)
    (overloadable : table.Overloadable careful (table.resolveNamespace scope)
      (table.members (table.resolveNamespace scope) name))
    (bare : (table.symbol (table.resolveNamespace scope)).Bare)
    (parameters : ∀ parameter ∈ (table.symbol (table.resolveNamespace scope)).parameters,
      (table.symbol parameter).name ≠ name)
    (qualified : options.qualified = true) (completing : options.completing = false)
    (directives : options.ignoreDirectives = true) (below : options.Below table.size) :
    MovesAt (.copying table.size floor) (lookup scope name options) (fun _ _ => True) table := by
  have hinner := sound.represented.resolveNamespace_lt lt
  have hwhole : (table.query name options).isCompleting = false := by
    simp [Query.isCompleting, Table.query, completing]
  have hlookup : Search.MovesAt (.copying table.size floor)
      (Search.answer (table.query name options) (table.resolveNamespace scope)) (fun _ _ => True)
      table := by
    have hqualified : (table.query name options).options.qualified = true := qualified
    refine .read ?_
    rw [if_pos hqualified]
    exact Search.moves_lookupInScope sound overloadable ends below
      (sound.represented.members_within _ name) hinner bare.parents directives
      (Table.scopeHits_members hwhole bare parameters)
  refine .read ?_
  rw [completing]
  exact (hlookup { fresh := table.ids }).bind sound fun found after _ _ _ => .read (.pure trivial)

end Analysis

end NameBinding
