import NameBinding.Proofs.Inheritance.Circles
import NameBinding.Proofs.Lookup.Gathered

/-!
# What completion collects from base classes

Completion searches all bases of a class, whatever they supply, and merges what they list name by name.

* `Table.ClashesWith`: two bases do not agree on a name, which is noted.
* `Search.Canvasses`: a search of the bases of a class lists what it counts, for all names at once.

The main statement is `ends_addInherited_completing`, about the bases of a scope.
-/

namespace NameBinding

/-! ## Merging siblings -/

namespace Found

variable {found : Found} {key : Name} {known : List SymbolId}

theorem names_replace (found : Found) (key : Name) (ids : List SymbolId) :
    (found.replace key ids).map (·.1) = found.map (·.1) := by
  rw [replace, List.map_map]
  refine List.map_congr_left fun entry _ => ?_
  show (if entry.1 = key then (key, ids) else entry).1 = entry.1
  split
  · rename_i same
    exact same.symm
  · rfl

theorem lookup_replace (listed : found.lookup key = some known) (ids : List SymbolId) (name : Name) :
    (found.replace key ids).lookup name = if name = key then some ids else found.lookup name := by
  induction found generalizing known with
  | nil => cases listed
  | cons entry rest ih =>
      obtain ⟨first, others⟩ := entry
      have hreplace : replace ((first, others) :: rest) key ids =
          (if first = key then (key, ids) else (first, others)) :: replace rest key ids := rfl
      rw [hreplace]
      by_cases sameKey : first = key
      · subst sameKey
        rw [if_pos rfl]
        by_cases same : name = first
        · subst same
          rw [lookup_cons_self, if_pos rfl]
        · rw [lookup_cons_of_ne same, lookup_cons_of_ne same, if_neg same]
          cases hrest : List.lookup first rest with
          | some => rw [ih hrest, if_neg same]
          | none =>
              have hnone : ∀ entry ∈ rest, entry.1 ≠ first := by
                intro entry member same
                exact lookup_eq_none_iff.mp hrest (same ▸ List.mem_map_of_mem member)
              have hsame : replace rest first ids = rest :=
                (List.map_congr_left fun entry member => if_neg (hnone entry member)).trans (List.map_id rest)
              rw [hsame]
      · rw [lookup_cons_of_ne (Ne.symm sameKey)] at listed
        rw [if_neg sameKey]
        by_cases same : name = first
        · subst same
          rw [lookup_cons_self, lookup_cons_self, if_neg sameKey]
        · rw [lookup_cons_of_ne same, lookup_cons_of_ne same, ih listed]

end Found

/-- Both lists have an entry for the name, and what these list does not agree. -/
def Table.ClashesWith (table : Table) (merged found : Found) (name : Name) : Prop :=
  ∃ known ids, merged.lookup name = some known ∧ found.lookup name = some ids ∧ table.compared known ids = false

namespace Search

variable {table : Table} {query : Query} {wanted : Name → Prop} {merged found : Found}

theorem ends_mergeEntry_completing (completion : query.IsCompletion) (table : Table) (trail : Trail)
    (lists : merged.Lists wanted) {entry : Name × List SymbolId} (isWanted : wanted entry.1) :
    ∃ (result : Found) (ambiguous : List Name),
      (mergeEntry query merged entry).Ends table trail (.ok (result, { trail with ambiguous })) ∧
        result.Lists wanted ∧
        (∀ name, result.lookup name =
          Option.merge table.joined (merged.lookup name) (List.lookup name [entry])) ∧
        Notes (table.ClashesWith merged [entry]) trail.ambiguous ambiguous := by
  obtain ⟨key, ids⟩ := entry
  have hother : ∀ {name}, name ≠ key → List.lookup name [(key, ids)] = none := fun differs =>
    Found.lookup_cons_of_ne differs ids []
  have hclashes : ∀ name, table.ClashesWith merged [(key, ids)] name ↔
      name = key ∧ ∃ known, merged.lookup key = some known ∧ table.compared known ids = false := by
    intro name
    unfold Table.ClashesWith
    by_cases same : name = key
    · simp [same]
    · simp [same, hother same]
  cases hmerged : merged.lookup key with
  | none =>
      refine ⟨merged ++ [(key, ids)], trail.ambiguous, .read ?_, ?_, fun name => ?_, .refl ?_ _⟩
      · dsimp only
        rw [hmerged]
        exact .pure _
      · refine lists.append ⟨List.nodup_singleton key, List.forall_mem_singleton.mpr isWanted⟩ ?_
        exact List.forall_mem_singleton.mpr hmerged
      · rw [List.lookup_append]
        by_cases same : name = key
        · rw [same, hmerged, Option.none_or, Option.merge_none_left]
        · rw [hother same, Option.or_none, Option.merge_none_right]
      · simp [hclashes, hmerged]
  | some known =>
      by_cases agree : table.compared known ids = true
      · refine ⟨merged, trail.ambiguous, .read ?_, lists, fun name => ?_, .refl ?_ _⟩
        · dsimp only
          rw [hmerged]
          change Ends (if table.compared known ids = true then _ else _) table trail _
          rw [if_pos agree]
          exact .pure _
        · by_cases same : name = key
          · rw [same, hmerged, Found.lookup_cons_self]
            show some known = some (table.joined known ids)
            rw [Table.joined, if_pos agree]
          · rw [hother same, Option.merge_none_right]
        · simp [hclashes, hmerged, agree]
      · obtain ⟨ambiguous, hnoted, hnotes⟩ := ends_ambiguity_completing completion table trail key
        refine ⟨merged.replace key (addNew known ids), ambiguous, .read ?_,
          lists.of_names (merged.names_replace key _), fun name => ?_, hnotes.congr ?_⟩
        · dsimp only
          rw [hmerged]
          change Ends (if table.compared known ids = true then _ else _) table trail _
          rw [if_neg agree]
          exact hnoted.bind_ok (.pure _)
        · rw [Found.lookup_replace hmerged]
          by_cases same : name = key
          · rw [if_pos same, same, hmerged, Found.lookup_cons_self]
            show _ = some (table.joined known ids)
            rw [Table.joined, if_neg agree]
          · rw [if_neg same, hother same, Option.merge_none_right]
        · simp [hclashes, hmerged, agree]

/-- What a base lists is joined, name by name, with what its siblings list, and where it does not agree with that
the name is noted. -/
theorem ends_mergeSibling_completing (completion : query.IsCompletion) (table : Table) (trail : Trail)
    (lists : merged.Lists wanted) (lists' : found.Lists wanted) :
    ∃ (result : Found) (ambiguous : List Name),
      (mergeSibling query merged found).Ends table trail (.ok (result, { trail with ambiguous })) ∧
        result.Lists wanted ∧
        (∀ name, result.lookup name = Option.merge table.joined (merged.lookup name) (found.lookup name)) ∧
        Notes (table.ClashesWith merged found) trail.ambiguous ambiguous := by
  induction found generalizing merged trail with
  | nil =>
      exact ⟨merged, trail.ambiguous, .pure merged, lists, fun name => Option.merge_none_right.symm,
        .refl (fun name ⟨_, _, _, impossible, _⟩ => nomatch impossible) _⟩
  | cons entry rest ih =>
      have hrest : Found.Lists rest wanted := lists'.of_sublist (List.sublist_cons_self _ _)
      obtain ⟨next, between, hentry, hlists, hnext, hnotes⟩ := ends_mergeEntry_completing completion
        table trail lists (lists'.wanted entry.1 List.mem_cons_self)
      obtain ⟨result, ambiguous, hends, hresult, hlookup, hnotesRest⟩ :=
        ih { trail with ambiguous := between } hlists hrest
      obtain ⟨key, ids⟩ := entry
      have hmissing : List.lookup key rest = none :=
        Found.lookup_eq_none_iff.mpr (List.nodup_cons.mp lists'.nodup).1
      have hlater : ∀ {name}, name ≠ key → List.lookup name ((key, ids) :: rest) = List.lookup name rest ∧
          List.lookup name [(key, ids)] = none ∧ next.lookup name = merged.lookup name := by
        intro name differs
        have hnone : List.lookup name [(key, ids)] = none := Found.lookup_cons_of_ne differs ids []
        exact ⟨Found.lookup_cons_of_ne differs ids rest, hnone, by rw [hnext, hnone, Option.merge_none_right]⟩
      refine ⟨result, ambiguous, hentry.bind_ok hends, hresult, fun name => ?_,
        (hnotes.trans hnotesRest).congr fun name => ?_⟩
      · by_cases same : name = key
        · subst same
          rw [hlookup, hnext, hmissing, Option.merge_none_right, Found.lookup_cons_self, Found.lookup_cons_self]
        · obtain ⟨hhere, -, hsame⟩ := hlater same
          rw [hlookup, hhere, hsame]
      · unfold Table.ClashesWith
        by_cases same : name = key
        · subst same
          simp [hmissing]
        · obtain ⟨hhere, hnone, hsame⟩ := hlater same
          simp [hhere, hnone, hsame]

end Search

/-! ## The bases of a class -/

namespace Search

variable {table : Table} {query : Query} {wanted : Name → Prop} {merged found : Found} {trail : Trail}
  {id : SymbolId} {path : List SymbolId} {deeper : SymbolId → Search Found}

/-- A search of the bases of a class lists, for all names that are looked for, what it counts for them, and notes
the names for which that does not agree. -/
def Canvasses (table : Table) (query : Query) (wanted : Name → Prop) (search : Search Found) (id : SymbolId) :
    Prop :=
  ∀ trail : Trail, ∃ (found : Found) (after : List SymbolId) (ambiguous : List Name),
    search.Ends table trail (.ok (found, { trail with virtualBases := after, ambiguous })) ∧
      found.Lists wanted ∧
      ∀ name, table.nameMatches query name = true → ∀ here, table.Canvassed (query.exactly name) here id
        trail.virtualBases after (found.lookup name) (name ∈ trail.ambiguous) (name ∈ ambiguous)

section Completing

variable (represented : table.Represented) (completion : query.IsCompletion)
  (names : ∀ scope, ∀ hit ∈ table.scopeHits query scope, wanted hit.1)

include represented completion

/-- What completion lists for the scope itself under one of the names. -/
theorem lookup_listing_scopeHits {name : Name} (isMatch : table.nameMatches query name = true) (id : SymbolId) :
    (table.listing (table.scopeHits query id)).lookup name =
      (Found.under name (table.offers (query.exactly name) id)).lookup name := by
  rw [Table.lookup_listing, Table.scopeHits_filter represented completion isMatch]
  rfl

/-- The declarations of a class exclude each other if the class does not settle them for the exact query. -/
theorem clashesAt_scopeHits {name : Name} (isMatch : table.nameMatches query name = true) (id : SymbolId) :
    table.ClashesAt (table.scopeHits query id) name ↔ ¬ table.Settles (query.exactly name) id := by
  have hclashes := Table.clashesAt_flatMap represented completion isMatch [id]
  rw [List.flatMap_singleton] at hclashes
  rw [hclashes, Table.Clashes, List.flatMap_singleton, Table.Settles, Bool.not_eq_false]

/-- What a class offers itself hides what its bases list. -/
theorem gathered_fill {name : Name} (isMatch : table.nameMatches query name = true) (here : Subobject)
    {rest : Found} {inner : List (Subobject × SymbolId)}
    (gathered : table.Gathered (query.exactly name) inner (rest.lookup name)) :
    (table.supply (query.exactly name) id ≠ [] ∧ table.Gathered (query.exactly name) [(here, id)]
        (((table.listing (table.scopeHits query id)).fill rest).lookup name)) ∨
      (table.supply (query.exactly name) id = [] ∧ table.Gathered (query.exactly name) inner
        (((table.listing (table.scopeHits query id)).fill rest).lookup name)) := by
  rw [Found.lookup_fill, lookup_listing_scopeHits represented completion isMatch]
  by_cases hsupply : table.supply (query.exactly name) id = []
  · right
    rw [Table.offers_eq_nil_iff.mpr hsupply, Found.under_nil, List.lookup_nil, Option.none_or]
    exact ⟨hsupply, gathered⟩
  · left
    rw [Found.under_of_ne_nil (mt Table.offers_eq_nil_iff.mp hsupply), Found.lookup_cons_self, Option.some_or]
    exact ⟨hsupply, .single (here, id)⟩

include names

/-- A base lists what it offers itself, and for the other names what its own bases list. -/
theorem ends_searchBase_completing {base : SymbolId × Bool}
    (canvasses : Canvasses table query wanted (deeper base.1) base.1) (trail : Trail) :
    ∃ (found : Found) (after : List SymbolId) (ambiguous : List Name),
      (searchBase query deeper base.1).Ends table trail
          (.ok (found, { trail with virtualBases := after, ambiguous })) ∧
        found.Lists wanted ∧
        ∀ name, table.nameMatches query name = true →
          table.Marks (query.exactly name) [base] (¬ table.Settles (query.exactly name) base.1)
            (found.lookup name) (name ∈ trail.ambiguous) (name ∈ ambiguous) ∧
          ∀ here, ∃ inner,
            Surveys table.classBases (table.supply (query.exactly name)) here [] (table.classBases base.1)
                trail.virtualBases inner after ∧
              ((table.supply (query.exactly name) base.1 ≠ [] ∧
                  table.Gathered (query.exactly name) [(here, base.1)] (found.lookup name)) ∨
                (table.supply (query.exactly name) base.1 = [] ∧
                  table.Gathered (query.exactly name) inner (found.lookup name) ∧
                  (¬ table.Concordant (query.exactly name) inner → name ∈ ambiguous))) := by
  obtain ⟨id, isVirtual⟩ := base
  obtain ⟨between, hlevel, hnotes⟩ :=
    ends_collectLevel_completing completion table trail (table.scopeHits query id)
  have hlists := table.lists_listing (names id)
  have hunsatisfied := completion.unsatisfied (table.listing (table.scopeHits query id))
  -- Whether there are bases or not, something is listed for them, and completed by what the class offers.
  obtain ⟨inherited, after, ambiguous, hends, hinherited, hcounts⟩ :
      ∃ (inherited : Found) (after : List SymbolId) (ambiguous : List Name),
        (searchBase query deeper id).Ends table trail
          (.ok ((table.listing (table.scopeHits query id)).fill inherited,
            { trail with virtualBases := after, ambiguous })) ∧
        inherited.Lists wanted ∧
        ∀ name, table.nameMatches query name = true → ∀ here, table.Canvassed (query.exactly name) here id
          trail.virtualBases after (inherited.lookup name) (name ∈ between) (name ∈ ambiguous) := by
    by_cases hparents : (table.symbol id).parents = []
    · have hnone : table.classBases id = [] := by rw [Table.classBases, hparents, List.filterMap_nil]
      refine ⟨[], trail.virtualBases, between, .read (hlevel.bind_ok (.read ?_)), .nil wanted,
        fun name isMatch here => .nothing hnone here _ _⟩
      rw [hparents, hunsatisfied]
      simp only [List.isEmpty_nil, Bool.or_true, if_true, Found.fill, List.filter_nil, List.append_nil]
      exact .pure _
    · obtain ⟨inherited, after, ambiguous, hdeeper, hinherited, hcounts⟩ :=
        canvasses { trail with ambiguous := between }
      refine ⟨inherited, after, ambiguous, .read (hlevel.bind_ok (.read ?_)), hinherited, hcounts⟩
      rw [if_neg (by simp [hunsatisfied, hparents])]
      exact hdeeper.bind_ok (.pure _)
  refine ⟨_, after, ambiguous, hends, hlists.fill hinherited, fun name isMatch => ⟨?_, fun here => ?_⟩⟩
  · obtain ⟨hits, hrun, -, hmarks⟩ := hcounts name isMatch {}
    have hlevel := (hnotes name).trans (or_congr_right (clashesAt_scopeHits represented completion isMatch id))
    refine .base hlevel hrun hmarks fun none => ?_
    rw [Found.lookup_fill, lookup_listing_scopeHits represented completion isMatch, Option.or_eq_none_iff]
      at none
    refine ⟨fun unsettled => ?_, none.2⟩
    have hoffers := mt Table.offers_eq_nil_iff.mp (Table.supply_ne_nil_of_not_settles unsettled)
    rw [Found.under_of_ne_nil hoffers, Found.lookup_cons_self] at none
    cases none.1
  · obtain ⟨inner, hrun, hgathered, hmarks⟩ := hcounts name isMatch here
    refine ⟨inner, hrun, ?_⟩
    rcases gathered_fill represented completion isMatch here hgathered with counts | ⟨hsilent, hlisted⟩
    · exact .inl counts
    · exact .inr ⟨hsilent, hlisted, hmarks.noted⟩

/-- Following the remaining links of a class joins what they list with what the earlier ones do. -/
theorem ends_foldlM_followLink_completing
    (offs : ∀ base, table.HasBase id base → base ∉ path)
    (canvasses : ∀ base, table.HasBase id base → Canvasses table query wanted (deeper base) base)
    (links : List BaseLink) (listed : ∀ link ∈ links, link ∈ (table.symbol id).parents)
    (lists : merged.Lists wanted) (trail : Trail) :
    ∃ (found : Found) (after : List SymbolId) (ambiguous : List Name),
      (links.foldlM (followLink query deeper path) merged).Ends table trail
          (.ok (found, { trail with virtualBases := after, ambiguous })) ∧
        found.Lists wanted ∧
        ∀ name, table.nameMatches query name = true → (name ∈ trail.ambiguous → name ∈ ambiguous) ∧
          ∀ here before earlier, table.Gathered (query.exactly name) earlier (merged.lookup name) → ∃ hits,
            Surveys table.classBases (table.supply (query.exactly name)) here before
                (links.filterMap table.classBase?) trail.virtualBases hits after ∧
              table.Gathered (query.exactly name) (earlier ++ hits) (found.lookup name) ∧
              (table.Concordant (query.exactly name) earlier →
                table.Marks (query.exactly name) (links.filterMap table.classBase?)
                  (¬ table.Concordant (query.exactly name) (earlier ++ hits)) (found.lookup name)
                  (name ∈ trail.ambiguous) (name ∈ ambiguous)) := by
  induction links generalizing merged trail with
  | nil =>
      refine ⟨merged, trail.virtualBases, trail.ambiguous, .pure merged, lists, fun name _ => ⟨fun old => old,
        fun here before earlier gathered => ⟨[], .done, ?_, fun concordant => ?_⟩⟩⟩
      · rwa [List.append_nil]
      · rw [List.append_nil]
        exact .nil (not_not_intro concordant) _ _
  | cons link rest ih =>
      have hlisted := fun other member => listed other (List.mem_cons_of_mem link member)
      cases hbase : table.classBase? link with
      | none =>
          obtain ⟨found, after, ambiguous, hends, hfound, hcounts⟩ := ih hlisted lists trail
          refine ⟨found, after, ambiguous, ?_, hfound, ?_⟩
          · rw [List.foldlM_cons]
            exact (ends_followLink_dependent hbase).bind_ok hends
          · rwa [List.filterMap_cons_none hbase]
      | some base =>
          have hhas : table.HasBase id base.1 :=
            ⟨base.2, List.mem_filterMap.mpr ⟨link, listed link List.mem_cons_self, hbase⟩⟩
          rw [List.filterMap_cons_some hbase]
          by_cases old : base.2 = true ∧ base.1 ∈ trail.virtualBases
          · -- A virtual base that has been searched already.
            obtain ⟨found, after, ambiguous, hends, hfound, hcounts⟩ := ih hlisted lists trail
            refine ⟨found, after, ambiguous, ?_, hfound, fun name isMatch => ?_⟩
            · rw [List.foldlM_cons]
              exact (ends_followLink_again hbase (offs _ hhas) old).bind_ok hends
            · obtain ⟨hkeeps, hruns⟩ := hcounts name isMatch
              refine ⟨hkeeps, fun here before earlier gathered => ?_⟩
              obtain ⟨hits, hrun, hgathered, hmarks⟩ := hruns here (before ++ [base]) earlier gathered
              exact ⟨hits, .again old hrun, hgathered, fun concordant => (hmarks concordant).again old.1⟩
          · obtain ⟨new, between, noted, hsearch, hnew, hcountsNew⟩ := ends_searchBase_completing represented
              completion names (canvasses base.1 hhas)
              { trail with virtualBases := entered base trail.virtualBases }
            obtain ⟨next, noted', hmerge, hnext, hjoined, hnotes⟩ := ends_mergeSibling_completing
              completion table { trail with virtualBases := between, ambiguous := noted } lists hnew
            obtain ⟨found, after, ambiguous, hends, hfound, hcounts⟩ := ih hlisted hnext
              { trail with virtualBases := between, ambiguous := noted' }
            refine ⟨found, after, ambiguous, ?_, hfound, fun name isMatch => ?_⟩
            · rw [List.foldlM_cons]
              exact (Ends.congr (hsearch.bind_ok hmerge)
                (followLink_apply hbase (offs _ hhas) old)).bind_ok hends
            · obtain ⟨hkeeps, hruns⟩ := hcounts name isMatch
              obtain ⟨hmarksNew, hcountsNew⟩ := hcountsNew name isMatch
              have hmerged : name ∈ noted → name ∈ noted' := fun before => (hnotes name).mpr (.inl before)
              refine ⟨fun before => hkeeps (hmerged (hmarksNew.keeps before)),
                fun here before earlier gathered => ?_⟩
              obtain ⟨inner, hdeeper, hcounted⟩ := hcountsNew (here.along base (before.count base))
              obtain ⟨counted, hgathered, hsettles, hdiscordant, hstep⟩ :=
                hmarksNew.exists_counted old hdeeper hcounted
              obtain ⟨hits, hrun, hall, hmarks⟩ := hruns here (before ++ [base]) _
                ((hjoined name).symm ▸ gathered.append hgathered)
              refine ⟨counted ++ hits, hstep hrun, List.append_assoc earlier counted hits ▸ hall,
                fun concordant => ?_⟩
              rw [← List.append_assoc]
              exact .step concordant gathered hgathered hall hmarksNew hsettles hdiscordant (hnotes name) hkeeps
                hmarks

/-- The search of bases without circles lists what it counts. -/
theorem canvasses_searchParents {depth : Nat} (acyclic : table.AcyclicBases id)
    (came : CameBy table.Derives path id) (enough : depth + path.length = table.size + 1) :
    Canvasses table query wanted (searchParents query depth (id :: path) id) id := by
  induction depth generalizing path id with
  | zero =>
      have hlength := came.length_le Table.Derives.lt_size
      omega
  | succ depth ih =>
      intro trail
      have hcame : ∀ {base}, table.HasBase id base → CameBy table.Derives (id :: path) base :=
        fun hasBase => came.step (acyclic id .refl) hasBase.derives
      have hcanvasses : ∀ base, table.HasBase id base →
          Canvasses table query wanted (searchParents query depth (base :: id :: path) base) base := by
        intro base hasBase
        refine ih (acyclic.of_derives hasBase.derives) (hcame hasBase) ?_
        rw [List.length_cons]
        omega
      have hoffs : ∀ base, table.HasBase id base → base ∉ id :: path := fun base hasBase =>
        (hcame hasBase).not_mem (acyclic.of_derives hasBase.derives base .refl)
      obtain ⟨found, after, ambiguous, hends, hfound, hcounts⟩ := ends_foldlM_followLink_completing represented
        completion names hoffs hcanvasses (table.symbol id).parents (fun _ listed => listed) (.nil wanted) trail
      refine ⟨found, after, ambiguous, ?_, hfound, fun name isMatch here => ?_⟩
      · rw [searchParents_succ]
        exact .read hends
      · obtain ⟨hits, hrun, hgathered, hmarks⟩ := (hcounts name isMatch).2 here [] [] .nothing
        exact ⟨hits, hrun, hgathered, hmarks (.nil table _)⟩

/-- Either there is circular inheritance and it is reported, or what the bases of a scope list for the names
that are not found yet is added. -/
theorem ends_addInherited_completing (trail : Trail) (isProved : table.Proved trail.acyclic)
    (id : SymbolId) (collected : Found) :
    (table.CircularAbove id ∧ ∃ on, (addInherited query id collected).Ends table trail
        (.error (table.circular on))) ∨
      (table.AcyclicBases id ∧ ∃ (inherited : Found) (after proved : List SymbolId) (ambiguous : List Name),
        (addInherited query id collected).Ends table trail (.ok (collected.fill inherited,
            { trail with virtualBases := after, acyclic := proved, ambiguous })) ∧
          table.Proved proved ∧ inherited.Lists wanted ∧
          ∀ name, table.nameMatches query name = true → table.Canvassed (query.exactly name) {} id
            trail.virtualBases after (inherited.lookup name) (name ∈ trail.ambiguous) (name ∈ ambiguous)) := by
  by_cases hparents : (table.symbol id).parents = []
  · have hacyclic : table.AcyclicBases id := by
      refine .of_bases fun base derives => ?_
      rw [Table.Derives, Table.bases, hparents] at derives
      exact absurd derives List.not_mem_nil
    have hnone : table.classBases id = [] := by rw [Table.classBases, hparents, List.filterMap_nil]
    refine .inr ⟨hacyclic, [], trail.virtualBases, trail.acyclic, trail.ambiguous, ?_, isProved, .nil wanted,
      fun name _ => .nothing hnone {} _ _⟩
    rw [Found.fill, List.filter_nil, List.append_nil]
    exact ends_addInherited_of_parentless hparents query trail collected
  · rcases isProved.checkAcyclic_cases id with
      ⟨acyclic, proved, hchecked, hproved⟩ | ⟨on, above, circle, hchecked⟩
    · right
      have hcheck : (checkInheritance id).Ends table trail (.ok ((), { trail with acyclic := proved })) := by
        refine .read (.get ?_)
        rw [hchecked]
        exact .set (.pure _)
      have hcanvasses : Canvasses table query wanted (searchParents query (table.size + 1) [id] id) id :=
        canvasses_searchParents represented completion names acyclic (.nil table.Derives id) rfl
      obtain ⟨inherited, after, ambiguous, hends, hlists, hcounts⟩ := hcanvasses { trail with acyclic := proved }
      refine ⟨acyclic, inherited, after, proved, ambiguous, .read ?_, hproved, hlists, fun name isMatch =>
        hcounts name isMatch {}⟩
      have hunsatisfied := completion.unsatisfied collected
      have hsearch : (lookupInParents query id).Ends table { trail with acyclic := proved }
          (.ok (inherited, { trail with virtualBases := after, acyclic := proved, ambiguous })) :=
        .read hends
      rw [if_neg (by simpa using hparents)]
      refine hcheck.bind_ok ?_
      rw [if_neg (by simp [hunsatisfied])]
      exact hsearch.bind_ok (.pure _)
    · left
      have hcheck : (checkInheritance id).Ends table trail (.error (table.circular on)) := by
        refine .read (.get ?_)
        rw [hchecked]
        exact .fail _
      refine ⟨⟨on, above, circle⟩, on, .read ?_⟩
      rw [if_neg (by simpa using hparents)]
      exact hcheck.bind_error _

end Completing

end Search

end NameBinding
