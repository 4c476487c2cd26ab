import NameBinding.Proofs.Lookup.Inherited
import NameBinding.Proofs.Lookup.Listing

/-!
# What is listed and noted for one name

A search for all names at once looks behind every class.  For one of the names only some subobjects of the bases
count, and it is these that decide what is listed for the name and whether it is noted as ambiguous.  An exact
lookup of the name stops at the classes that supply it.  So the two do not enter the same bases, but they come to
the same first subobject, and what counts is among what the exact lookup meets.

* `Table.joined`: what two bases list together for one name.
* `Table.Gathered`: what may be listed for a name by a search that counts the given subobjects.
* `Table.Marks`: what may be noted about a name by a search that looks behind the given links.
* `Table.Canvassed`: the bases of a class have been searched with what is listed and noted for a name.
* `Table.Announces`: how the exact lookup of a name ends, given what is listed for it.

The main statement is `announces_reported`, about the bases of one class.
-/

namespace NameBinding

open Relation

/-! ## What two bases list together -/

namespace Search

theorem mem_addNew {known ids : List SymbolId} {id : SymbolId} :
    id ∈ addNew known ids ↔ id ∈ known ∨ id ∈ ids := by
  induction ids generalizing known with
  | nil => simp [addNew]
  | cons first rest ih =>
      have hstep : addNew known (first :: rest) =
          addNew (if first ∈ known then known else known ++ [first]) rest := rfl
      rw [hstep, ih, List.mem_cons]
      split
      · rename_i old
        constructor
        · exact fun listed => listed.imp_right .inr
        · rintro (before | rfl | later)
          · exact .inl before
          · exact .inl old
          · exact .inr later
      · rw [List.mem_append, List.mem_singleton, or_assoc]

theorem addNew_of_subset {known ids : List SymbolId} (old : ids ⊆ known) : addNew known ids = known := by
  induction ids with
  | nil => rfl
  | cons first rest ih =>
      obtain ⟨hfirst, hrest⟩ := List.cons_subset.mp old
      have hstep : addNew known (first :: rest) = addNew (if first ∈ known then known else _) rest := rfl
      rw [hstep, if_pos hfirst, ih hrest]

end Search

namespace Table

variable {table : Table} {query : Query} {known ids : List SymbolId} {id origin : SymbolId}

/-- Do two bases list the same entities for a name, none of which depends on the path? -/
def compared (table : Table) (known ids : List SymbolId) : Bool :=
  known.length == ids.length && ids.all (· ∈ known) && ids.all table.isPathIndependent

/-- What completion lists for a name that two bases list. -/
def joined (table : Table) (known ids : List SymbolId) : List SymbolId :=
  if table.compared known ids then known else Search.addNew known ids

theorem mem_joined (listed : id ∈ table.joined known ids) : id ∈ known ∨ id ∈ ids := by
  unfold joined at listed
  split at listed
  · exact .inl listed
  · exact Search.mem_addNew.mp listed

theorem joined_of_subset (old : ids ⊆ known) : table.joined known ids = known := by
  unfold joined
  split
  · rfl
  · exact Search.addNew_of_subset old

/-- What completion lists for what a class itself has. -/
def offers (table : Table) (query : Query) (id : SymbolId) : List SymbolId :=
  table.offered (table.answers query id)

theorem offers_eq_nil_iff : table.offers query id = [] ↔ table.supply query id = [] :=
  offered_eq_nil_iff

theorem Settles.offers_eq (settles : table.Settles query id) :
    table.offers query id = table.supply query id :=
  offered_of_clear settles

/-- What completion may list for a name if the subobjects count: nothing without one, and otherwise entities
that some of them offer.  If the first one offers all that the others do, it is just what the first one
offers. -/
inductive Gathered (table : Table) (query : Query) :
    List (Subobject × SymbolId) → Option (List SymbolId) → Prop where
  | nothing : Gathered table query [] none
  | something {first : Subobject × SymbolId} {rest : List (Subobject × SymbolId)} {ids : List SymbolId}
      (offered : ∀ id ∈ ids, ∃ hit ∈ first :: rest, id ∈ table.offers query hit.2)
      (settled : (∀ hit ∈ rest, table.offers query hit.2 ⊆ table.offers query first.2) →
        ids = table.offers query first.2) :
      Gathered table query (first :: rest) (some ids)

namespace Gathered

variable {earlier new : List (Subobject × SymbolId)} {listed others : Option (List SymbolId)}

/-- One subobject. -/
theorem single (hit : Subobject × SymbolId) :
    table.Gathered query [hit] (some (table.offers query hit.2)) :=
  .something (fun _ member => ⟨hit, List.mem_cons_self, member⟩) fun _ => rfl

/-- What is listed for earlier subobjects and for new ones is joined. -/
theorem append (gathered : table.Gathered query earlier listed) (gathered' : table.Gathered query new others) :
    table.Gathered query (earlier ++ new) (Option.merge table.joined listed others) := by
  cases gathered with
  | nothing =>
      rw [Option.merge_none_left]
      exact gathered'
  | @something first rest ids offered settled =>
      cases gathered' with
      | nothing =>
          rw [Option.merge_none_right, List.append_nil]
          exact .something offered settled
      | @something second rest' ids' offered' settled' =>
          refine .something (fun id member => ?_) fun covered => ?_
          · rcases mem_joined member with before | later
            · obtain ⟨hit, hhit, hid⟩ := offered id before
              exact ⟨hit, List.mem_append_left (second :: rest') hhit, hid⟩
            · obtain ⟨hit, hhit, hid⟩ := offered' id later
              exact ⟨hit, List.mem_append_right (first :: rest) hhit, hid⟩
          · -- The first subobject offers everything, so the new ones add nothing.
            obtain ⟨hrest, hnew⟩ := List.forall_mem_append.mp covered
            have hids := settled hrest
            have hold : ids' ⊆ ids := by
              intro id member
              obtain ⟨hit, hhit, hid⟩ := offered' id member
              exact hids ▸ hnew hit hhit hid
            rw [joined_of_subset hold, hids]

/-- Nothing is listed if nothing counts. -/
theorem eq_none (gathered : table.Gathered query [] listed) : listed = none := by
  cases gathered
  rfl

theorem eq_nil (gathered : table.Gathered query earlier none) : earlier = [] := by
  cases gathered
  rfl

/-- For subobjects that agree, what the first one supplies is listed. -/
theorem eq_supply {first : Subobject × SymbolId} {rest : List (Subobject × SymbolId)} {ids : List SymbolId}
    (gathered : table.Gathered query (first :: rest) (some ids))
    (concordant : table.Concordant query (first :: rest)) : ids = table.supply query first.2 := by
  cases gathered with
  | something _ settled =>
      have hsettles := concordant.1
      rw [← (hsettles first List.mem_cons_self).offers_eq]
      refine settled fun hit later => ?_
      rw [(hsettles hit (List.mem_cons_of_mem first later)).offers_eq,
        (hsettles first List.mem_cons_self).offers_eq]
      exact ((List.pairwise_cons.mp concordant.2).1 hit later).1.2

/-- Earlier subobjects agree with new ones exactly if what is listed for both agrees. -/
theorem concordant_append_iff (gathered : table.Gathered query earlier listed)
    (gathered' : table.Gathered query new others) (concordant : table.Concordant query earlier)
    (concordant' : table.Concordant query new) :
    table.Concordant query (earlier ++ new) ↔
      ∀ known ids, listed = some known → others = some ids → table.compared known ids = true := by
  rcases earlier with _ | ⟨first, earlier⟩
  · simp [gathered.eq_none, concordant']
  rcases new with _ | ⟨second, new⟩
  · simp [gathered'.eq_none, concordant]
  rcases listed with _ | known
  · cases gathered.eq_nil
  rcases others with _ | ids
  · cases gathered'.eq_nil
  -- Either list is what the first of its subobjects supplies, so comparing the lists compares these two.
  have hknown := gathered.eq_supply concordant
  have hids := gathered'.eq_supply concordant'
  have hcompared : table.compared known ids = true ↔
      table.Agree (table.supply query first.2) (table.supply query second.2) := by
    rw [hknown, hids]
    exact Agree.iff_compared table (table.nodup_supply query first.2) (table.nodup_supply query second.2)
  rw [concordant.append_iff concordant', concordant.2.append concordant'.2, ← hcompared]
  simp

end Gathered

end Table

/-! ## What is noted -/

namespace Table

variable {table : Table} {query : Query} {id : SymbolId} {link : SymbolId × Bool}
  {links : List (SymbolId × Bool)} {visited after : List SymbolId}
  {hits : List (Subobject × SymbolId)} {listed new : Option (List SymbolId)} {clash before noted later : Prop}

/-- One of the links leads to the class or to a class that it is above of. -/
def AboveLinks (table : Table) (links : List (SymbolId × Bool)) (above : SymbolId) : Prop :=
  ∃ link ∈ links, ReflTransGen table.HasBase link.1 above

/-- A search that looks behind every class counts subobjects of the class that do not settle or do not agree, if
some virtual bases have been entered before. -/
def Discordant (table : Table) (query : Query) (id : SymbolId) : Prop :=
  ∃ visited hits after, Surveys table.classBases (table.supply query) {} [] (table.classBases id) visited hits
    after ∧ ¬ table.Concordant query hits

/-- Such a search counts subobjects that agree. -/
def Harmonious (table : Table) (query : Query) (id : SymbolId) : Prop :=
  ∃ visited hits after, Surveys table.classBases (table.supply query) {} [] (table.classBases id) visited hits
    after ∧ table.Concordant query hits

/-- What is noted about a name while a search looks behind the links.  A name that was noted before stays noted.
Otherwise it is noted for a reason, and then it is listed: what counts clashes, or the bases of a class above do.
Above a link with no virtual bases all classes have been looked at. -/
structure Marks (table : Table) (query : Query) (links : List (SymbolId × Bool)) (clash : Prop)
    (listed : Option (List SymbolId)) (before later : Prop) : Prop where
  keeps : before → later
  noted : clash → later
  lists : later → before ∨ listed ≠ none
  cause : later → before ∨ clash ∨ ∃ above, table.AboveLinks links above ∧ table.Discordant query above
  thorough : ∀ link ∈ links, link.2 = false → NoVirtualAbove table.classBases link.1 → ¬ later →
    ∀ above, ReflTransGen table.HasBase link.1 above → table.Harmonious query above

theorem aboveLinks_cons {above : SymbolId} : table.AboveLinks (link :: links) above ↔
    ReflTransGen table.HasBase link.1 above ∨ table.AboveLinks links above :=
  List.exists_mem_cons_iff _ _ _

theorem aboveLinks_classBases {above : SymbolId} (further : table.AboveLinks (table.classBases id) above) :
    ReflTransGen table.HasBase id above := by
  obtain ⟨link, hlisted, habove⟩ := further
  exact .head ⟨link.2, hlisted⟩ habove

namespace Marks

/-- Without links nothing is noted. -/
theorem nil (agree : ¬ clash) (listed : Option (List SymbolId)) (before : Prop) :
    table.Marks query [] clash listed before before where
  keeps := fun old => old
  noted := fun clash => absurd clash agree
  lists := .inl
  cause := .inl
  thorough := fun _ impossible => nomatch impossible

/-- The name is noted because what counts does not agree. -/
theorem of_clash (clashes : clash) (isNoted : later) (something : listed ≠ none) :
    table.Marks query links clash listed before later where
  keeps := fun _ => isNoted
  noted := fun _ => isNoted
  lists := fun _ => .inr something
  cause := fun _ => .inr (.inl clashes)
  thorough := fun _ _ _ _ unnoted => absurd isNoted unnoted

/-- What is noted about a class: its own declarations clash, or its bases give cause. -/
theorem base {inner : Option (List SymbolId)} (level : noted ↔ before ∨ clash)
    (run : Surveys table.classBases (table.supply query) {} [] (table.classBases link.1) visited hits after)
    (deeper : table.Marks query (table.classBases link.1) (¬ table.Concordant query hits) inner noted later)
    (unlisted : listed = none → ¬ clash ∧ inner = none) :
    table.Marks query [link] clash listed before later where
  keeps old := deeper.keeps (level.mpr (.inl old))
  noted clashes := deeper.keeps (level.mpr (.inr clashes))
  lists now := by
    rw [Classical.or_iff_not_imp_right, not_not]
    intro none
    obtain ⟨hclear, hinner⟩ := unlisted none
    have hnoted := (deeper.lists now).resolve_right (not_not_intro hinner)
    exact (level.mp hnoted).resolve_right hclear
  cause now := by
    rcases deeper.cause now with noted | discordant | ⟨above, further, discordant⟩
    · exact (level.mp noted).imp_right .inl
    · exact .inr (.inr
        ⟨link.1, ⟨link, List.mem_singleton_self link, .refl⟩, visited, hits, after, run, discordant⟩)
    · exact .inr (.inr ⟨above, ⟨link, List.mem_singleton_self link, aboveLinks_classBases further⟩, discordant⟩)
  thorough other member _ plain unnoted above further := by
    obtain rfl := List.mem_singleton.mp member
    rcases further.cases_head with rfl | ⟨base, ⟨isVirtual, hlisted⟩, further⟩
    · exact ⟨visited, hits, after, run, by_contra fun discordant => unnoted (deeper.noted discordant)⟩
    · obtain ⟨hplain, habove⟩ := plain.links (base, isVirtual) hlisted
      exact deeper.thorough (base, isVirtual) hlisted hplain habove unnoted above further

/-- A virtual base that was searched before gives no cause. -/
theorem again (isVirtual : link.2 = true) (rest : table.Marks query links clash listed before later) :
    table.Marks query (link :: links) clash listed before later where
  keeps := rest.keeps
  noted := rest.noted
  lists := rest.lists
  cause now := (rest.cause now).imp_right fun cause => cause.imp_right fun ⟨above, further, discordant⟩ =>
    ⟨above, aboveLinks_cons.mpr (.inr further), discordant⟩
  thorough other member plain := by
    rcases List.mem_cons.mp member with rfl | later
    · rw [isVirtual] at plain
      cases plain
    · exact rest.thorough other later plain

/-- What is noted at the first link and at the others. -/
theorem cons {clash' : Prop} (first : table.Marks query [link] clash new before noted)
    (rest : table.Marks query links clash' listed noted later) (listsBoth : listed = none → new = none) :
    table.Marks query (link :: links) (clash ∨ clash') listed before later where
  keeps old := rest.keeps (first.keeps old)
  noted clashes := clashes.elim (fun here => rest.keeps (first.noted here)) rest.noted
  lists now := by
    rcases rest.lists now with earlier | something
    · exact (first.lists earlier).imp_right fun something none => something (listsBoth none)
    · exact .inr something
  cause now := by
    rcases rest.cause now with earlier | clash | ⟨above, further, discordant⟩
    · rcases first.cause earlier with old | clash | ⟨above, ⟨other, member, further⟩, discordant⟩
      · exact .inl old
      · exact .inr (.inl (.inl clash))
      · obtain rfl := List.mem_singleton.mp member
        exact .inr (.inr ⟨above, aboveLinks_cons.mpr (.inl further), discordant⟩)
    · exact .inr (.inl (.inr clash))
    · exact .inr (.inr ⟨above, aboveLinks_cons.mpr (.inr further), discordant⟩)
  thorough other member plain isPlain unnoted := by
    rcases List.mem_cons.mp member with rfl | elsewhere
    · have hunnoted : ¬ noted := fun earlier => unnoted (rest.keeps earlier)
      exact first.thorough other (List.mem_singleton_self other) plain isPlain hunnoted
    · exact rest.thorough other elsewhere plain isPlain unnoted

/-- At a link what counts is the base itself if it supplies something, and otherwise what counts behind it. -/
theorem exists_counted {here : Subobject} {passed : List (SymbolId × Bool)} {between : List SymbolId}
    (first : table.Marks query [link] (¬ table.Settles query link.1) new before noted)
    (isNew : ¬ (link.2 = true ∧ link.1 ∈ visited))
    (deeper : Surveys table.classBases (table.supply query) (here.along link (passed.count link)) []
      (table.classBases link.1) (entered link visited) hits between)
    (counts : (table.supply query link.1 ≠ [] ∧
        table.Gathered query [(here.along link (passed.count link), link.1)] new) ∨
      (table.supply query link.1 = [] ∧ table.Gathered query hits new ∧
        (¬ table.Concordant query hits → noted))) :
    ∃ counted, table.Gathered query counted new ∧
      (table.Concordant query counted → table.Settles query link.1) ∧
      (¬ table.Concordant query counted → noted) ∧
      ∀ {others after}, Surveys table.classBases (table.supply query) here (passed ++ [link]) links between others
          after →
        Surveys table.classBases (table.supply query) here passed (link :: links) visited (counted ++ others)
          after := by
  rcases counts with ⟨hsupply, hgathered⟩ | ⟨hsilent, hgathered, hnoted⟩
  · refine ⟨[(here.along link (passed.count link), link.1)], hgathered, fun concordant => ?_,
      fun discordant => first.noted fun settles => ?_, fun run => .supplies isNew hsupply deeper run⟩
    · exact concordant.1 (here.along link (passed.count link), link.1) List.mem_cons_self
    · exact discordant (.singleton settles)
  · refine ⟨hits, hgathered, fun _ => ?_, hnoted, fun run => .silent isNew hsilent deeper run⟩
    by_contra unsettled
    exact supply_ne_nil_of_not_settles unsettled hsilent

/-- What counts for the first link is merged with what counted earlier, and then the other links are followed. -/
theorem step {earlier counted : List (Subobject × SymbolId)} {known : Option (List SymbolId)} {merged : Prop}
    (concordant : table.Concordant query earlier) (gathered : table.Gathered query earlier known)
    (gathered' : table.Gathered query counted new)
    (gatheredAll : table.Gathered query (earlier ++ counted ++ hits) listed)
    (first : table.Marks query [link] (¬ table.Settles query link.1) new before noted)
    (settles : table.Concordant query counted → table.Settles query link.1)
    (discordant : ¬ table.Concordant query counted → noted)
    (merging : merged ↔ noted ∨
      ∃ ids ids', known = some ids ∧ new = some ids' ∧ table.compared ids ids' = false)
    (keeps : merged → later)
    (rest : table.Concordant query (earlier ++ counted) → table.Marks query links
      (¬ table.Concordant query (earlier ++ counted ++ hits)) listed merged later) :
    table.Marks query (link :: links) (¬ table.Concordant query (earlier ++ counted ++ hits)) listed before
      later := by
  by_cases together : table.Concordant query (earlier ++ counted)
  · -- What counted earlier agrees with what counts here, so merging notes nothing.
    have hagree := (gathered.concordant_append_iff gathered' concordant together.right).mp together
    have hmerged : merged ↔ noted := by
      refine merging.trans (or_iff_left ?_)
      rintro ⟨ids, ids', hknown, hnew, hdiffers⟩
      rw [hagree ids ids' hknown hnew] at hdiffers
      cases hdiffers
    have hrest := rest together
    rw [hmerged] at hrest
    have hclash : (¬ table.Settles query link.1 ∨ ¬ table.Concordant query (earlier ++ counted ++ hits)) ↔
        ¬ table.Concordant query (earlier ++ counted ++ hits) :=
      or_iff_right (not_not_intro (settles together.right))
    rw [← hclash]
    refine first.cons hrest fun none => ?_
    obtain rfl := (List.append_eq_nil_iff.mp (List.append_eq_nil_iff.mp (none ▸ gatheredAll).eq_nil).1).2
    exact gathered'.eq_none
  · -- The first link leads to what does not agree with what counted earlier, or not with itself.
    have hmerged : merged := by
      rw [merging, Classical.or_iff_not_imp_left]
      intro unnoted
      by_contra agree
      have hcounted : table.Concordant query counted := by_contra fun clash => unnoted (discordant clash)
      refine together ((gathered.concordant_append_iff gathered' concordant hcounted).mpr ?_)
      intro ids ids' hknown hnew
      by_contra differs
      exact agree ⟨ids, ids', hknown, hnew, Bool.eq_false_iff.mpr differs⟩
    refine .of_clash (fun all => together all.left) (keeps hmerged) ?_
    rintro rfl
    exact together ((List.append_eq_nil_iff.mp gatheredAll.eq_nil).1 ▸ .nil table query)

end Marks

/-- A search that looks behind every class has counted subobjects of the bases of a class for a name, has listed
something for the name, and may have noted it. -/
def Canvassed (table : Table) (query : Query) (here : Subobject) (id : SymbolId) (visited after : List SymbolId)
    (listed : Option (List SymbolId)) (before later : Prop) : Prop :=
  ∃ hits, Surveys table.classBases (table.supply query) here [] (table.classBases id) visited hits after ∧
    table.Gathered query hits listed ∧
    table.Marks query (table.classBases id) (¬ table.Concordant query hits) listed before later

/-- Nothing is counted in a class without bases. -/
theorem Canvassed.nothing (none : table.classBases id = []) (here : Subobject) (visited : List SymbolId)
    (before : Prop) : table.Canvassed query here id visited visited .none before before := by
  refine ⟨[], ?_, .nothing, ?_⟩ <;> rw [none]
  · exact .done
  · exact .nil (not_not_intro (.nil table query)) _ _

end Table

/-! ## One name -/

namespace Table

variable {table : Table} {query : Query} {origin : SymbolId}

/-- What completion lists for a name announces how an exact lookup of the name ends: without an entry it finds
nothing, and with one it finds what the entry lists, or the name is ambiguous. -/
inductive Announces (name : Name) : Option (List SymbolId) → Except SemanticError Found → Prop where
  | absent : Announces name none (.ok [])
  | found {ids : List SymbolId} (nonempty : ids ≠ []) : Announces name (some ids) (.ok [(name, ids)])
  | ambiguous {ids : List SymbolId} : Announces name (some ids) (.error (.ambiguous name))

/-- Without an entry nothing is found, and only then. -/
theorem Announces.eq_none {name : Name} {listed : Option (List SymbolId)}
    (announces : Announces name listed (.ok [])) : listed = none := by
  cases announces
  rfl

/-- What completion lists for the bases of a class announces what the exact lookup of a name reports, if that
begins with the same virtual bases entered.  If nothing is listed, both go on with the same ones. -/
theorem announces_reported {visited after after' : List SymbolId} {hits counted : List (Subobject × SymbolId)}
    {listed : Option (List SymbolId)}
    (run : Explores table.classBases (table.supply query) {} [] (table.classBases origin) visited hits after)
    (survey : Surveys table.classBases (table.supply query) {} [] (table.classBases origin) visited counted
      after')
    (silent : table.supply query origin = []) (gathered : table.Gathered query counted listed) :
    Announces query.name listed (table.reported query hits) ∧ (listed = none → after = after') := by
  obtain ⟨hhead, hvisited⟩ := run.agrees survey
  cases gathered with
  | nothing =>
      obtain rfl := List.head?_eq_none_iff.mp hhead
      rw [reported_of_concordant (.nil table query)]
      exact ⟨.absent, fun _ => hvisited rfl⟩
  | @something first rest ids _ settled =>
      obtain ⟨others, rfl⟩ := List.head?_eq_some_iff.mp hhead
      refine ⟨?_, fun impossible => nomatch impossible⟩
      by_cases concordant : table.Concordant query (first :: others)
      · have hsettles := concordant.1
        have hcounted := survey.sound (fun _ entered => entered) .whole silent rfl
        have hcovered : ∀ hit ∈ rest, table.offers query hit.2 ⊆ table.offers query first.2 := by
          intro hit member
          obtain ⟨hexposed, hfound⟩ := hcounted hit (List.mem_cons_of_mem first member)
          have hmet := run.meets silent hexposed hfound
          rw [(hsettles hit hmet).offers_eq, (hsettles first List.mem_cons_self).offers_eq]
          rcases List.mem_cons.mp hmet with rfl | later
          · exact List.Subset.refl _
          · exact ((List.pairwise_cons.mp concordant.2).1 hit later).1.2
        have hfirst := run.supplied first List.mem_cons_self
        rw [settled hcovered, (hsettles first List.mem_cons_self).offers_eq, reported_of_concordant concordant,
          firstSupply, Found.under_of_ne_nil hfirst]
        exact .found hfirst
      · rw [reported_of_not_concordant concordant]
        exact .ambiguous

end Table

end NameBinding
