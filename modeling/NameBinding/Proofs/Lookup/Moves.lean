import NameBinding.Lookup.Position
import NameBinding.Proofs.Overload.Moves

/-!
# Lookups move the table

A lookup changes the table only by making the instances that a call deduces, and what it finds are
symbols of the table.  The lemmas follow a lookup through the merging of declarations, base classes
and scopes; a lookup carries its `Trail` along, and `Search.MovesAt` is the statement for one of its
steps.

The main statements are `moves_lookup` and those about the lookups at the positions of a program.
-/

namespace NameBinding

namespace LookupOptions

/-- The argument types of a call exist. -/
def Below (size : Nat) (options : LookupOptions) : Prop :=
  ∀ args, options.arguments = some args → ∀ arg ∈ args, arg.Below size

variable {size : Nat} {options : LookupOptions}

theorem Below.mono {bound : Nat} (below : options.Below size) (le : size ≤ bound) :
    options.Below bound :=
  fun args given arg member => (below args given arg member).mono le

theorem Below.of_none (absent : options.arguments = none) : options.Below size := by
  intro args given
  rw [absent] at given
  cases given

theorem Below.of_some {args : List Descriptor} (given : options.arguments = some args)
    (below : ∀ arg ∈ args, arg.Below size) : options.Below size := by
  intro others hothers
  rw [given] at hothers
  cases hothers
  exact below

end LookupOptions

/-! ## What is found -/

/-- Everything that was found exists. -/
def Found.Below (size : Nat) (found : Found) : Prop := ∀ entry ∈ found, Within size entry.2

namespace Found.Below

variable {size : Nat} {found other : Found}

theorem nil (size : Nat) : Found.Below size [] := fun _ member => absurd member List.not_mem_nil

theorem mono {bound : Nat} (below : found.Below size) (le : size ≤ bound) : found.Below bound :=
  fun entry member => (below entry member).mono le

theorem append (below : found.Below size) (rest : other.Below size) :
    Found.Below size (found ++ other) := by
  intro entry member
  rcases List.mem_append.mp member with old | new
  · exact below entry old
  · exact rest entry new

theorem fill (below : found.Below size) (rest : other.Below size) :
    (found.fill other).Below size :=
  below.append fun entry member => rest entry (List.mem_filter.mp member).1

theorem replace (below : found.Below size) {ids : List SymbolId} (within : Within size ids)
    (name : Name) : (found.replace name ids).Below size := by
  intro entry member
  obtain ⟨old, hold, rfl⟩ := List.mem_map.mp member
  split
  · exact within
  · exact below old hold

theorem add (below : found.Below size) {ids : List SymbolId} (within : Within size ids)
    (name : Name) : (found.add name ids).Below size := by
  induction found with
  | nil =>
      intro entry member
      rw [List.mem_singleton.mp member]
      exact within
  | cons first rest ih =>
      have hfirst := below first List.mem_cons_self
      have hrest : Found.Below size rest := fun entry member =>
        below entry (List.mem_cons_of_mem first member)
      intro entry member
      simp only [Found.add] at member
      split at member
      · rcases List.mem_cons.mp member with rfl | later
        · exact Within.append.mpr ⟨hfirst, within⟩
        · exact hrest entry later
      · rcases List.mem_cons.mp member with rfl | later
        · exact hfirst
        · exact ih hrest entry later

/-- Hits that exist, grouped by name. -/
theorem ofHits {hits : List Hit} (within : ∀ hit ∈ hits, hit.2.index < size) :
    (Found.ofHits hits).Below size := by
  have hfold : ∀ (found : Found), found.Below size →
      Found.Below size (hits.foldl (fun found hit => found.add hit.1 [hit.2]) found) := by
    induction hits with
    | nil => exact fun found below => below
    | cons hit rest ih =>
        intro found below
        refine ih (fun other member => within other (List.mem_cons_of_mem hit member)) _ ?_
        exact below.add (by simpa using within hit List.mem_cons_self) hit.1
  exact hfold [] (nil size)

end Found.Below

/-- What survives the removal of duplicates was there before. -/
theorem mem_of_mem_eraseDupsBy {α : Type} {same : α → α → Bool} {list : List α} {element : α}
    (member : element ∈ list.eraseDupsBy same) : element ∈ list := by
  induction hlength : list.length using Nat.strongRecOn generalizing list with
  | _ length ih =>
      cases list with
      | nil => simp at member
      | cons first rest =>
          rw [List.eraseDupsBy_cons] at member
          rcases List.mem_cons.mp member with rfl | later
          · exact List.mem_cons_self
          · have hshorter : (rest.filter fun other => decide (same other first = false)).length
                < length := by
              have hle := List.length_filter_le (fun other => decide (same other first = false)) rest
              simp only [List.length_cons] at hlength
              omega
            have hkept := ih _ hshorter later rfl
            exact List.mem_cons_of_mem first (List.mem_filter.mp hkept).1

namespace Table

variable {table : Table}

/-- What was found is sorted into the entities that it stands for. -/
theorem exists_of_mem_classify {found : List SymbolId} {pair : SymbolId × Option SymbolId}
    (member : pair ∈ (table.classify found).tags ∨ pair ∈ (table.classify found).objects ∨
      pair ∈ (table.classify found).functions ∨ pair ∈ (table.classify found).templates) :
    ∃ id ∈ found, pair = (table.canonical id, table.declaredIn id (table.canonical id)) := by
  simp only [classify, List.mem_filter, List.mem_map] at member
  have hdeclared : ∃ known : SymbolId × SymbolId,
      known ∈ (found.map fun id => (id, table.canonical id)).eraseDupsBy (fun a b => a.2 == b.2) ∧
        pair = (known.2, table.declaredIn known.1 known.2) := by
    rcases member with h | h | ⟨h, -⟩ | ⟨h, -⟩ <;>
      exact ⟨_, h.1.choose_spec.1.1, h.1.choose_spec.2.symm⟩
  obtain ⟨known, hknown, rfl⟩ := hdeclared
  obtain ⟨id, hid, rfl⟩ := List.mem_map.mp (mem_of_mem_eraseDupsBy hknown)
  exact ⟨id, hid, rfl⟩

theorem exists_of_mem_visible {found : List SymbolId} {entity : SymbolId}
    (member : entity ∈ (table.classify found).visible) :
    ∃ id ∈ found, entity = table.canonical id := by
  simp only [classify, List.mem_filter, List.mem_map] at member
  obtain ⟨_, ⟨known, ⟨hknown, -⟩, rfl⟩, rfl⟩ := member
  obtain ⟨id, hid, rfl⟩ := List.mem_map.mp (mem_of_mem_eraseDupsBy hknown)
  exact ⟨id, hid, rfl⟩

namespace Represented

variable (represented : table.Represented)

include represented

/-- The entities that were found exist. -/
theorem classify_lt {found : List SymbolId} (within : Within table.size found)
    {pair : SymbolId × Option SymbolId}
    (member : pair ∈ (table.classify found).tags ∨ pair ∈ (table.classify found).objects ∨
      pair ∈ (table.classify found).functions ∨ pair ∈ (table.classify found).templates) :
    pair.1.index < table.size := by
  obtain ⟨id, hid, rfl⟩ := exists_of_mem_classify member
  exact represented.canonical_lt (within id hid)

/-- What a scope answers exists. -/
theorem scopeHits_lt (query : Query) (scope : SymbolId) :
    ∀ hit ∈ table.scopeHits query scope, hit.2.index < table.size := by
  have hwithin := represented.within scope
  intro hit member
  obtain ⟨hmember, -⟩ := List.mem_filter.mp member
  simp only [List.mem_append] at hmember
  rcases hmember with (declared | parameter) | renamed
  · unfold memberHits at declared
    split at declared
    · obtain ⟨hnamed, -⟩ := List.mem_filter.mp declared
      obtain ⟨id, hid, rfl⟩ := List.mem_map.mp hnamed
      exact Symbol.contents_within hwithin id hid
    · obtain ⟨id, hid, rfl⟩ := List.mem_map.mp declared
      exact represented.members_within scope query.name id hid
  · obtain ⟨hnamed, -⟩ := List.mem_filter.mp parameter
    obtain ⟨id, hid, rfl⟩ := List.mem_map.mp hnamed
    exact represented.parameters_within scope id hid
  · simp only [definitionHits, List.mem_mergeSort, List.mem_filter] at renamed
    cases hdata : (table.symbol scope).templateData? with
    | none => simp [hdata] at renamed
    | some data =>
        have hdefined := represented.templateData_within hdata
        simp only [hdata, Option.map_some, Option.getD_some] at renamed
        simp only [TemplateData.mentions, Within.append] at hdefined
        exact hdefined.2 hit.2 (List.mem_map_of_mem renamed.1)

end Represented

end Table

/-! ## Steps of a lookup -/

/-- What function templates contribute exists; as long as there are no partial specializations, it is
never ambiguous. -/
theorem Analysis.moves_foldTemplates {base floor : Nat} {table : Table} {options : LookupOptions}
    {templates : List SymbolId}
    (sound : (Regime.copying base floor).Sound table) (below : options.Below table.size)
    (within : Within table.size templates) :
    MovesAt (.copying base floor) (foldTemplates options templates)
      (fun after folded => Within after.size folded) table := by
  unfold foldTemplates
  split
  · exact .pure within
  · rename_i args hargs
    split
    · exact .pure within
    · refine .foldlM sound (by simp) fun folded template _ after hmoved hsound hfolded => ?_
      have hgiven := (below.mono hmoved.size_le) args hargs
      refine (moves_deducedInstance? template hsound hgiven).bind hsound ?_
      intro found last hlater _ hfound
      have hkept := hfolded.mono hlater.size_le
      cases found with
      | none => exact .pure hkept
      | some made =>
          have hmade := hfound made rfl
          exact .pure (Within.append.mpr ⟨hkept, by simpa using hmade⟩)

namespace Search

/-- From this table, the step of a lookup only does what the regime allows, and gives a value that
satisfies `result`, whatever the lookup remembers. -/
def MovesAt {α : Type} (regime : Regime) (search : Search α) (result : Table → α → Prop)
    (table : Table) : Prop :=
  ∀ trail, Analysis.MovesAt regime (search.run trail)
    (fun after found => result after found.1) table

variable {α β : Type} {regime : Regime} {table : Table}

namespace MovesAt

variable {search : Search α} {result : Table → α → Prop}

theorem pure {value : α} (holds : result table value) : MovesAt regime (Pure.pure value) result table :=
  fun _ => Analysis.MovesAt.pure holds

theorem bind {next : α → Search β} {last : Table → β → Prop}
    (sound : regime.Sound table) (first : MovesAt regime search result table)
    (second : ∀ value after, Moved regime table after → regime.Sound after →
      result after value → MovesAt regime (next value) last after) :
    MovesAt regime (search >>= next) last table :=
  fun trail => (first trail).bind sound fun found after hmoved hsound hfound =>
    second found.1 after hmoved hsound hfound found.2

theorem lift {step : Analysis α} (sound : regime.Sound table)
    (moves : Analysis.MovesAt regime step result table) :
    MovesAt regime (liftM step) result table :=
  fun _ => moves.bind sound fun _ _ _ _ hvalue => .pure hvalue

/-- Going on with the table that was read. -/
theorem read {next : Table → Search β} {last : Table → β → Prop}
    (second : MovesAt regime (next table) last table) : MovesAt regime (Search.table >>= next) last table :=
  second

theorem get {next : Trail → Search β} {last : Table → β → Prop}
    (second : ∀ trail, MovesAt regime (next trail) last table) :
    MovesAt regime (MonadState.get >>= next) last table :=
  fun trail => second trail trail

theorem set {next : PUnit → Search β} {last : Table → β → Prop} (trail : Trail)
    (second : MovesAt regime (next ⟨⟩) last table) :
    MovesAt regime (MonadStateOf.set trail >>= next) last table :=
  fun _ => second trail

theorem fail {error : SemanticError} :
    MovesAt .declaring (liftM (Analysis.fail error : Analysis α)) result table :=
  fun _ => .of_error rfl (.refl _ table) fun quiet => quiet.elim

theorem foldlM {list : List α} {each : β → α → Search β} {inv : Table → β → Prop}
    (sound : regime.Sound table) {start : β} (holds : inv table start)
    (moves : ∀ state, ∀ element ∈ list, ∀ after, Moved regime table after →
      regime.Sound after → inv after state → MovesAt regime (each state element) inv after) :
    MovesAt regime (list.foldlM each start) inv table := by
  induction list generalizing table start with
  | nil => exact pure holds
  | cons first rest ih =>
      rw [List.foldlM_cons]
      have hfirst := moves start first List.mem_cons_self table (.refl _ table) sound holds
      refine hfirst.bind sound fun next middle hmoved hsound hnext => ih hsound hnext ?_
      intro state element member after hlater
      exact moves state element (List.mem_cons_of_mem first member) after (hmoved.trans hlater)

end MovesAt

/-- A search whose finds exist. -/
def FindsAt (search : Search Found) (table : Table) : Prop :=
  MovesAt .declaring search (fun after found => found.Below after.size) table

theorem moves_ambiguity (query : Query) (name : Name) :
    MovesAt .declaring (ambiguity query name) (fun _ _ => True) table := by
  unfold ambiguity
  split
  · exact fun _ => Analysis.MovesAt.pure trivial
  · exact .fail

theorem moves_collectSymbol {query : Query} (name : Name) {found : List SymbolId}
    (sound : Regime.declaring.Sound table) (below : query.options.Below table.size)
    (within : Within table.size found) :
    MovesAt .declaring (collectSymbol query name found) (fun after ids => Within after.size ids) table := by
  have hrepresented := sound.represented
  have hclassify : ∀ {pair : SymbolId × Option SymbolId}, _ → pair.1.index < table.size :=
    fun member => hrepresented.classify_lt within member
  refine .read ?_
  dsimp only
  split
  · refine (moves_ambiguity query name).bind sound fun _ after hmoved _ _ => .pure ?_
    intro entity member
    obtain ⟨id, hid, rfl⟩ := Table.exists_of_mem_visible member
    exact Nat.lt_of_lt_of_le (hrepresented.canonical_lt (within id hid)) hmoved.size_le
  · split
    · rename_i object rest hobjects
      have hobject : object.1.index < table.size := hclassify (.inr (.inl (by simp [hobjects])))
      exact .pure (by simpa using hobject)
    · have htemplates : Within table.size ((table.classify found).templates.map (·.1)) := by
        intro id member
        obtain ⟨pair, hpair, rfl⟩ := List.mem_map.mp member
        exact hclassify (.inr (.inr (.inr hpair)))
      have hfold := Analysis.moves_foldTemplates sound.copying below htemplates
      refine (MovesAt.lift sound (hfold.mono (Regime.declaring_allows_copying 0 0))).bind sound ?_
      intro instances after hmoved _ hinstances
      refine .pure ?_
      -- Functions and instances come first; a tag that nothing hides is last.
      unfold Candidates.select
      have hfunctions : Within after.size ((table.classify found).functions.map (·.1)) := by
        intro id member
        obtain ⟨pair, hpair, rfl⟩ := List.mem_map.mp member
        exact Nat.lt_of_lt_of_le (hclassify (.inr (.inr (.inl hpair)))) hmoved.size_le
      dsimp only
      split
      · exact Within.append.mpr ⟨hfunctions, hinstances⟩
      · split
        · simp
        · intro id member
          obtain ⟨pair, hpair, rfl⟩ := List.mem_map.mp member
          have htag := hclassify (.inl (List.mem_of_mem_take hpair))
          exact Nat.lt_of_lt_of_le htag hmoved.size_le

theorem moves_collectLevel {query : Query} {hits : List Hit}
    (sound : Regime.declaring.Sound table) (below : query.options.Below table.size)
    (within : ∀ hit ∈ hits, hit.2.index < table.size) :
    FindsAt (collectLevel query hits) table := by
  have hfound := Found.Below.ofHits within
  refine .foldlM sound (.nil _) fun collected entry member after hmoved hsound hcollected => ?_
  refine (moves_collectSymbol entry.1 hsound (below.mono hmoved.size_le)
    ((hfound entry member).mono hmoved.size_le)).bind hsound ?_
  intro ids last hlater _ hids
  have hkept := hcollected.mono hlater.size_le
  refine .pure ?_
  split
  · exact hkept
  · refine hkept.append fun entry member => ?_
    rw [List.mem_singleton.mp member]
    exact hids

/-! ### Base classes -/

theorem addNew_within {size : Nat} {known ids : List SymbolId} (within : Within size known)
    (rest : Within size ids) : Within size (addNew known ids) := by
  induction ids generalizing known with
  | nil => exact within
  | cons id ids ih =>
      obtain ⟨hid, hids⟩ := (Within.cons id).mp rest
      refine ih ?_ hids
      dsimp only
      split
      · exact within
      · exact Within.append.mpr ⟨within, by simpa using hid⟩

theorem moves_mergeEntry (query : Query) {merged : Found} {entry : Name × List SymbolId}
    (sound : Regime.declaring.Sound table) (below : merged.Below table.size)
    (within : Within table.size entry.2) : FindsAt (mergeEntry query merged entry) table := by
  refine .read ?_
  split
  · refine .pure (below.append fun other member => ?_)
    rw [List.mem_singleton.mp member]
    exact within
  · rename_i known hknown
    split
    · exact .pure below
    · refine (moves_ambiguity query entry.1).bind sound fun _ after hmoved _ _ => .pure ?_
      have hold := below _ (mem_of_lookup hknown)
      exact (below.mono hmoved.size_le).replace
        (addNew_within (hold.mono hmoved.size_le) (within.mono hmoved.size_le)) entry.1

theorem moves_searchBase {query : Query} {deeper : SymbolId → Search Found} (parent : SymbolId)
    (searches : ∀ id after, Moved .declaring table after → Regime.declaring.Sound after →
      FindsAt (deeper id) after)
    (sound : Regime.declaring.Sound table) (below : query.options.Below table.size) :
    FindsAt (searchBase query deeper parent) table := by
  refine .read ?_
  refine (moves_collectLevel sound below
    (sound.represented.scopeHits_lt query parent)).bind sound ?_
  intro found after hmoved hsound hfound
  refine .read ?_
  split
  · exact .pure hfound
  · refine (searches parent after hmoved hsound).bind hsound ?_
    intro inherited last hlater _ hinherited
    exact .pure ((hfound.mono hlater.size_le).fill hinherited)

theorem moves_searchParents {query : Query} (depth : Nat) :
    ∀ path id table, Regime.declaring.Sound table → query.options.Below table.size →
      FindsAt (searchParents query depth path id) table := by
  induction depth with
  | zero => exact fun path id table sound below => .read .fail
  | succ depth ih =>
      intro path id table sound below
      unfold searchParents
      refine .read (.foldlM sound (.nil _) ?_)
      intro merged link _ after hmoved hsound hmerged
      refine .read (.get fun trail => ?_)
      -- Whatever the trail remembers, a base is searched and merged with its siblings.
      have hbase : FindsAt (do
          let found ← searchBase query
            (fun base => searchParents query depth (base :: path) base)
            (after.classOf link.parent)
          mergeSibling query merged found) after := by
        have hbelow := below.mono hmoved.size_le
        have hsearch := moves_searchBase (after.classOf link.parent)
          (fun base later hlater hlaterSound => ih (base :: path) base later hlaterSound
            (hbelow.mono hlater.size_le)) hsound hbelow
        refine hsearch.bind hsound fun found last hlater hlast hfound => ?_
        refine .foldlM hlast (hmerged.mono hlater.size_le) ?_
        intro state entry member final hfinal hfinalSound hstate
        exact moves_mergeEntry query hfinalSound hstate
          ((hfound entry member).mono hfinal.size_le)
      dsimp only
      split
      · exact .pure hmerged
      · split
        · exact .fail
        · split
          · exact .pure hmerged
          · split
            · exact .set _ hbase
            · exact hbase

theorem moves_addInherited {query : Query} (scope : SymbolId) {collected : Found}
    (sound : Regime.declaring.Sound table) (below : query.options.Below table.size)
    (known : collected.Below table.size) :
    FindsAt (addInherited query scope collected) table := by
  refine .read ?_
  split
  · exact .pure known
  · have hcheck : MovesAt .declaring (checkInheritance scope) (fun _ _ => True) table := by
      refine .read (.get fun trail => ?_)
      have hacyclic : Analysis.MovesAt .declaring
          (Analysis.ofExcept (table.checkAcyclic trail.acyclic scope)) (fun _ _ => True) table :=
        .ofExcept (fun _ _ => trivial) fun _ _ quiet => quiet.elim
      refine (MovesAt.lift sound hacyclic).bind sound fun acyclic after _ _ _ => ?_
      exact fun _ => Analysis.MovesAt.pure trivial
    refine hcheck.bind sound fun _ after hmoved hsound _ => ?_
    have hkept := known.mono hmoved.size_le
    split
    · exact .pure hkept
    · have hparents : FindsAt (lookupInParents query scope) after :=
        .read (moves_searchParents _ _ _ after hsound (below.mono hmoved.size_le))
      refine hparents.bind hsound fun inherited last hlater _ hinherited => ?_
      exact .pure ((hkept.mono hlater.size_le).fill hinherited)

/-! ### Scopes -/

theorem moves_levelHits (query : Query) (scope : SymbolId)
    (sound : Regime.declaring.Sound table) :
    MovesAt .declaring (levelHits query scope)
      (fun after hits => ∀ hit ∈ hits, hit.2.index < after.size) table := by
  have hscope : ∀ (scopes : List SymbolId) (after : Table), Moved .declaring table after →
      ∀ hit ∈ table.scopeHits query scope ++ scopes.flatMap (table.scopeHits query),
        hit.2.index < after.size := by
    intro scopes after hmoved hit member
    refine Nat.lt_of_lt_of_le ?_ hmoved.size_le
    rcases List.mem_append.mp member with own | other
    · exact sound.represented.scopeHits_lt query scope hit own
    · obtain ⟨reached, -, hreached⟩ := List.mem_flatMap.mp other
      exact sound.represented.scopeHits_lt query reached hit hreached
  have hfollows : MovesAt .declaring (followsDirectives query) (fun _ _ => True) table :=
    .read (.pure trivial)
  refine .read (hfollows.bind sound fun follows after hmoved _ _ => ?_)
  split
  · exact .get fun trail => .set _ (.pure (hscope _ after hmoved))
  · exact .pure (by simpa using hscope [] after hmoved)

theorem moves_walk {query : Query} (scopes : List SymbolId) :
    ∀ found table, Regime.declaring.Sound table → query.options.Below table.size →
      found.Below table.size → FindsAt (walk query scopes found) table := by
  induction scopes with
  | nil => exact fun found table sound below known => .pure known
  | cons scope outer ih =>
      intro found table sound below known
      refine (moves_levelHits query scope sound).bind sound fun hits first hfirst hsound hhits => ?_
      have hbelow := below.mono hfirst.size_le
      refine (moves_collectLevel hsound hbelow hhits).bind hsound ?_
      intro collected second hsecond hsound hcollected
      have hbelow := hbelow.mono hsecond.size_le
      refine (moves_addInherited scope hsound hbelow hcollected).bind hsound ?_
      intro level third hthird hsound hlevel
      have hbelow := hbelow.mono hthird.size_le
      have hfilled : (found.fill level).Below third.size := by
        have hknown := known.mono (((hfirst.trans hsecond).trans hthird).size_le)
        exact hknown.fill hlevel
      dsimp only
      split
      · exact .pure hfilled
      · exact ih _ third hsound hbelow hfilled

theorem moves_lookupIn {query : Query} (scope : SymbolId) (sound : Regime.declaring.Sound table)
    (below : query.options.Below table.size) : FindsAt (lookupIn query scope) table := by
  have hscope := sound.represented.scopeHits_lt query
  have hfollows : MovesAt .declaring (followsDirectives query) (fun _ _ => True) table :=
    .read (.pure trivial)
  refine .read (hfollows.bind sound fun directives after hmoved hsound _ => ?_)
  -- Whichever hits there are, they are merged and completed by the bases.
  have hrest : ∀ hits : List Hit, (∀ hit ∈ hits, hit.2.index < table.size) →
      FindsAt (do
        let collected ← collectLevel query hits
        addInherited query scope collected) after := by
    intro hits hhits
    have hbelow := below.mono hmoved.size_le
    refine (moves_collectLevel hsound hbelow fun hit member => Nat.lt_of_lt_of_le (hhits hit member)
      hmoved.size_le).bind hsound ?_
    intro collected last hlater hlast hcollected
    exact moves_addInherited scope hlast (hbelow.mono hlater.size_le) hcollected
  have hchosen : ∀ hits : List Hit, (∀ hit ∈ hits, hit.2.index < table.size) →
      FindsAt (do
        let hits ← (pure hits : Search (List Hit))
        let collected ← collectLevel query hits
        addInherited query scope collected) after :=
    fun hits hhits => hrest hits hhits
  dsimp only
  split
  · refine .get fun trail => hchosen _ fun hit member => ?_
    rcases List.mem_append.mp member with own | other
    · exact hscope scope hit own
    · obtain ⟨reached, -, hreached⟩ := List.mem_flatMap.mp other
      exact hscope reached hit hreached
  · exact hchosen _ (hscope scope)

theorem moves_answer {query : Query} (scope : SymbolId) (sound : Regime.declaring.Sound table)
    (below : query.options.Below table.size) : FindsAt (answer query scope) table := by
  refine .read ?_
  split
  · exact moves_lookupIn scope sound below
  · exact moves_walk _ _ table sound below (.nil _)

end Search

/-! ## Lookups -/

namespace Analysis

variable {table : Table}

theorem moves_lookup (scope : SymbolId) (name : Name) {options : LookupOptions}
    (sound : Regime.declaring.Sound table) (below : options.Below table.size) :
    MovesAt .declaring (lookup scope name options)
      (fun after found => Within after.size found.symbols) table := by
  refine .read ?_
  split
  · exact .violated _
  · have hanswer : Search.FindsAt
        (Search.answer (table.query name options) (table.resolveNamespace scope)) table :=
      Search.moves_answer _ sound below
    refine (hanswer { fresh := table.ids }).bind sound ?_
    intro found after hmoved _ hfound
    refine .read (.pure ?_)
    have hentries : ∀ entry ∈ (after.lookupResult (table.query name options) found.1
        found.2.ambiguous).entries, Within after.size entry.2 := by
      intro entry member
      simp only [Table.lookupResult] at member
      split at member
      · exact hfound entry (List.mem_mergeSort.mp member)
      · exact hfound entry member
    unfold LookupResult.symbols
    split
    · simp
    · rename_i entry rest hfirst
      exact hentries entry (by simp [hfirst])

theorem moves_resolveSingle (name : Name) (ids : List SymbolId)
    (sound : Regime.declaring.Sound table) :
    MovesAt .declaring (resolveSingle name ids) (fun _ _ => True) table := by
  refine .read ?_
  split
  · exact .pure trivial
  · exact .pure trivial
  · split
    · exact moves_resolveFunction _ sound fun types given => by cases given
    · exact .fail fun quiet => quiet.elim

theorem moves_lookupName (scope : SymbolId) (name : Name) (sound : Regime.declaring.Sound table) :
    MovesAt .declaring (lookupName scope name) (fun _ _ => True) table :=
  (moves_lookup scope name sound (.of_none rfl)).bind sound fun _ _ _ hsound _ =>
    moves_resolveSingle name _ hsound

theorem moves_qualifiedLookup (qualifier : SymbolId) (name : Name)
    (sound : Regime.declaring.Sound table) :
    MovesAt .declaring (qualifiedLookup qualifier name) (fun _ _ => True) table :=
  (moves_lookup qualifier name sound (.of_none rfl)).bind sound fun _ _ _ hsound _ =>
    moves_resolveSingle name _ hsound

theorem moves_lookupNestedName (scope : SymbolId) (name : Name) (qualified : Bool)
    (sound : Regime.declaring.Sound table) :
    MovesAt .declaring (lookupNestedName scope name qualified) (fun _ _ => True) table := by
  refine (moves_lookup scope name sound (.of_none rfl)).bind sound fun found after _ _ _ => .read ?_
  split
  · exact .pure trivial
  · exact .pure trivial
  · exact .fail fun quiet => quiet.elim

section Calls

variable {args : List Descriptor}

theorem moves_argumentDependentCandidates (name : Name) (sound : Regime.declaring.Sound table)
    (given : ∀ arg ∈ args, arg.Below table.size) :
    MovesAt .declaring (argumentDependentCandidates name args) (fun _ _ => True) table := by
  refine .read ?_
  have hfind : ∀ scopes : List SymbolId, MovesAt .declaring
      (scopes.mapM fun scope => do
        let result ← lookup scope name
          { qualified := true, ignoreDirectives := true, filter := .functions,
            arguments := some args }
        pure result.symbols)
      (fun after found => ∀ ids ∈ found, Within after.size ids) table := by
    intro scopes
    have hmono : ∀ size bound (ids : List SymbolId), size ≤ bound → Within size ids →
        Within bound ids := fun _ _ _ le within => within.mono le
    refine .mapM hmono sound fun scope _ after hsound le => ?_
    have hoptions : LookupOptions.Below after.size
        { qualified := true, ignoreDirectives := true, filter := .functions,
          arguments := some args } :=
      .of_some rfl fun arg member => (given arg member).mono le
    exact (moves_lookup scope name hsound hoptions).bind hsound fun _ _ _ _ hfound => .pure hfound
  exact (hfind _).bind sound fun _ _ _ _ _ => .read (.pure trivial)

/-- A call goes on with its candidates, whether argument types contribute or not. -/
theorem moves_resolveFound (name : Name) (candidates : List SymbolId)
    {next : Analysis (Option SymbolId)}
    (resolves : MovesAt .declaring next (fun _ _ => True) table)
    (sound : Regime.declaring.Sound table) :
    MovesAt .declaring
      (do
        match ← ofExcept (table.nonFunction name candidates) with
        | some single => pure (some single)
        | none => next)
      (fun _ _ => True) table := by
  have hsingle : MovesAt .declaring (ofExcept (table.nonFunction name candidates))
      (fun after _ => after = table) table := by
    cases table.nonFunction name candidates with
    | ok single => exact .pure rfl
    | error error => exact .fail fun quiet => quiet.elim
  refine hsingle.bind sound fun single after _ _ hsame => ?_
  cases single with
  | some single => exact .pure trivial
  | none =>
      rw [hsame]
      exact resolves

theorem moves_lookupFunction (scope : SymbolId) (name : Name)
    (sound : Regime.declaring.Sound table) (given : ∀ arg ∈ args, arg.Below table.size) :
    MovesAt .declaring (lookupFunction scope name args) (fun _ _ => True) table := by
  refine (moves_lookup scope name sound (.of_some rfl given)).bind sound ?_
  intro found after hmoved hsound _
  have hgiven : ∀ arg ∈ args, arg.Below after.size :=
    fun arg member => (given arg member).mono hmoved.size_le
  refine .read (moves_resolveFound name found.symbols ?_ hsound)
  split
  · refine (moves_argumentDependentCandidates name hsound hgiven).bind hsound ?_
    intro more last hlater hlast _
    refine moves_resolveFunction _ hlast fun types same => ?_
    cases same
    exact fun arg member => (hgiven arg member).mono hlater.size_le
  · refine moves_resolveFunction _ hsound fun types same => ?_
    cases same
    exact hgiven

theorem moves_qualifiedFunctionLookup (qualifier : SymbolId) (name : Name)
    (sound : Regime.declaring.Sound table) (given : ∀ arg ∈ args, arg.Below table.size) :
    MovesAt .declaring (qualifiedFunctionLookup qualifier name args) (fun _ _ => True) table := by
  refine (moves_lookup qualifier name sound (.of_some rfl given)).bind sound ?_
  intro found after hmoved hsound _
  refine .read (moves_resolveFound name found.symbols ?_ hsound)
  refine moves_resolveFunction _ hsound fun types same => ?_
  cases same
  exact fun arg member => (given arg member).mono hmoved.size_le

theorem moves_lookupConstructor (id : SymbolId) (sound : Regime.declaring.Sound table)
    (given : ∀ arg ∈ args, arg.Below table.size) :
    MovesAt .declaring (lookupConstructor id args) (fun _ _ => True) table := by
  refine .read (moves_resolveFunction _ sound fun types same => ?_)
  cases same
  exact given

theorem moves_lookupTemplateId (scope : SymbolId) (name : Name)
    (sound : Regime.declaring.Sound table) (given : ∀ arg ∈ args, arg.Below table.size) :
    MovesAt .declaring (lookupTemplateId scope name args) (fun _ _ => True) table := by
  refine (moves_lookup scope name sound (.of_none rfl)).bind sound ?_
  intro found after hmoved hsound _
  refine .read ?_
  split
  · exact .pure trivial
  · have hgiven : ∀ arg ∈ args, arg.Below after.size :=
      fun arg member => (given arg member).mono hmoved.size_le
    have hmade := fun template => moves_instantiate template hsound.copying hgiven
    refine ((hmade _).mono (Regime.declaring_allows_copying 0 0)).bind hsound ?_
    exact fun _ _ _ _ _ => .pure trivial
  · exact .fail fun quiet => quiet.elim
  · exact .fail fun quiet => quiet.elim

end Calls

end Analysis

end NameBinding
