import NameBinding.Proofs.Template.SameArguments
import NameBinding.Proofs.Template.DeducedArguments
import NameBinding.Template.Specialization
import NameBinding.Proofs.Analysis.Tracks
import NameBinding.Table.Attach

/-!
# What deduction matches

Deduction takes the operators, qualifiers and template-ids of a pattern off an argument, level by level, and binds
each parameter to what is left where it is used.  Putting what the parameters are bound to in the place of their
uses puts all of this back.

* `TypeTerm`: a type read as a term, in which a template is applied to arguments in one way only.
* `Table.replaced?`: a pattern with its parameters replaced.
* `Table.ReadsAs`: what an argument reads as.
* `Table.Matches`: the patterns, so replaced, are what the arguments read as.
* `Bindings.Deduces`: a step of deduction keeps what is bound, and promises something of all later bindings.
* `Table.deduces_deduceType`: a pattern that was matched reads like the argument once its parameters are replaced.

The main statement is `deduction_sound`.
-/

namespace NameBinding

/-- A type as a term: a template applied to arguments, below operators and qualifiers, or any other type. -/
inductive TypeTerm where
  | plain (type : Descriptor)
  | applied (ops : List PtrOp) (cv : Cv) (template : SymbolId) (args : List TypeTerm)

namespace Table

/-- What a type reads as.  A template-id may be written out, or stand as a placeholder or an instance; other types
are compared as they are written, without specifiers. -/
inductive ReadsAs (table : Table) : Descriptor → TypeTerm → Prop where
  | plain {type written : Descriptor}
      (same : type.stripSpecifiers.same written.stripSpecifiers = true) : ReadsAs table type (.plain written)
  | applied {type : Descriptor} {template : SymbolId} {args : List Descriptor} {terms : List TypeTerm}
      (parts : table.templateIdParts? type = some (template, args))
      (each : List.Forall₂ (fun arg term => ReadsAs table (table.flattenType arg) term) args terms) :
      ReadsAs table type (.applied type.ops type.baseCv (table.canonical template) terms)

/-- The template that a template-id names once a parameter at its head is replaced. -/
def replacedHead (table : Table) (bound : SymbolId → Option Descriptor) (template : SymbolId) : SymbolId :=
  ((bound template).bind (·.link)).getD (table.canonical template)

/-- A pattern in which the base of every use of a parameter is replaced, and every parameter at the head of a
template-id, at all depths; nothing if it is deeper than `depth`.  Typedefs are seen through, and placeholders are
template-ids. -/
def replaced? (table : Table) (bound : SymbolId → Option Descriptor) : Nat → Descriptor → Option TypeTerm
  | 0, _ => none
  | depth + 1, type =>
      let flat := table.flattenType type
      match flat.link with
      | none => some (.plain flat)
      | some link =>
          match (bound link).filter fun _ => flat.templateArgs.isEmpty with
          | some replacement => some (.plain (flat.substituteBase replacement))
          | none =>
              if flat.templateArgs.isEmpty && !(table.symbol link).isPlaceholder then some (.plain flat)
              else do
                let (template, args) ← table.templateIdParts? flat
                let terms ← args.mapM (replaced? table bound depth)
                some (.applied flat.ops flat.baseCv (table.replacedHead bound template) terms)

/-- A pattern is deep enough to be replaced throughout, and what comes out is what the argument reads as. -/
def ReadsLike (table : Table) (bound : SymbolId → Option Descriptor) (depth : Nat) (pattern arg : Descriptor) :
    Prop :=
  ∃ term, table.replaced? bound depth pattern = some term ∧ table.ReadsAs (table.flattenType arg) term

/-- Each parameter is bound to one argument, and the patterns read like the arguments once these are put in the
place of the parameters. -/
structure Matches (table : Table) (parameters : List SymbolId) (patterns args deduced : List Descriptor) :
    Prop where
  bindsAll : deduced.length = parameters.length
  reads : List.Forall₂
    (table.ReadsLike (fun parameter => (parameters.zip deduced).lookup parameter) table.config.nestingLimit)
    patterns args

end Table

/-! ## Operators and qualifiers -/

theorem Cv.diff_union_of_includes {level cv : Cv} (includes : level.includes cv = true) :
    (level.diff cv).union cv = level := by
  obtain ⟨isConst, isVolatile⟩ := level
  obtain ⟨isConst', isVolatile'⟩ := cv
  revert includes
  cases isConst <;> cases isVolatile <;> cases isConst' <;> cases isVolatile' <;> decide

/-- Operators that fit those of an argument exactly are its first ones. -/
theorem append_drop_of_fits {pattern arg : List PtrOp} (shorter : pattern.length ≤ arg.length)
    (fits : ∀ pair ∈ pattern.zip arg,
      (pair.1.sameShape pair.2 && DeductionMode.exact.fits pair.1.cv pair.2.cv) = true) :
    pattern ++ arg.drop pattern.length = arg := by
  induction pattern generalizing arg with
  | nil => rfl
  | cons op rest ih =>
      cases arg with
      | nil => simp at shorter
      | cons argOp argRest =>
          have hop : op = argOp := by
            have hfits := fits (op, argOp) List.mem_cons_self
            obtain ⟨kind, cv, memberOf⟩ := op
            obtain ⟨kind', cv', memberOf'⟩ := argOp
            simpa [PtrOp.sameShape, DeductionMode.fits, and_assoc, and_comm, and_left_comm] using hfits
          have hrest := ih (Nat.le_of_succ_le_succ shorter) fun pair member => fits pair (.tail _ member)
          rw [hop, List.length_cons, List.drop_succ_cons, List.cons_append, hrest]

namespace Descriptor

/-- Specifiers take part in no comparison once they are stripped. -/
theorem bare_stripSpecifiers {a b : Descriptor} (same : a.bare = b.bare) :
    a.stripSpecifiers.bare = b.stripSpecifiers.bare := by
  obtain ⟨hkind, hflags, hops, hlink, hargs, hsort, hconstant⟩ := (bare_eq_iff a b).mp same
  rw [bare_eq_iff]
  exact ⟨hkind, congrArg (fun flags : Flags => { flags with specifiers := {} }) hflags, hops, hlink, hargs, hsort,
    hconstant⟩

/-- What is left of an argument when operators and qualifiers are taken off gives it back when a use with these
operators and qualifiers is put around it. -/
theorem bare_substituteBase_rest {pattern arg rest : Descriptor}
    (left : rest = { arg with ops := arg.ops.drop pattern.ops.length }.stripSpecifiers.stripDefault)
    (ops : pattern.ops ++ arg.ops.drop pattern.ops.length = arg.ops)
    (includes : rest.topCv.includes pattern.baseCv = true) :
    (pattern.substituteBase (rest.setTopCv (rest.topCv.diff pattern.baseCv))).stripSpecifiers.bare =
      arg.stripSpecifiers.bare := by
  have hcv := Cv.diff_union_of_includes includes
  rw [bare_eq_iff]
  -- The qualifiers are those of the first operator that is left, or else of the base.
  cases hops : arg.ops.drop pattern.ops.length with
  | nil =>
      rw [hops, List.append_nil] at ops
      subst left
      simp only [hops, topCv, baseCv, stripSpecifiers, stripDefault] at hcv
      simp [ops, hcv, substituteBase, withTopCv, setTopCv, setBaseCv, topCv, baseCv, stripSpecifiers, stripDefault]
  | cons op more =>
      rw [hops] at ops
      subst left
      simp only [hops, topCv, baseCv, stripSpecifiers, stripDefault] at hcv
      simp [hops, ops, hcv, substituteBase, withTopCv, setTopCv, topCv, baseCv, stripSpecifiers,
        stripDefault]

end Descriptor

/-! ## Bindings -/

namespace Bindings

variable {parameters : List SymbolId} {before known after : Bindings} {parameter : SymbolId}
  {type : Descriptor} {bound : SymbolId → Option Descriptor}

/-- What is bound stays bound to the same. -/
def StaysIn (before after : Bindings) : Prop :=
  ∀ parameter type, before.lookup parameter = some type → after.lookup parameter = some type

/-- The parameters are bound as `known` says, and nothing else is bound. -/
structure Binds (parameters : List SymbolId) (known : Bindings) (bound : SymbolId → Option Descriptor) :
    Prop where
  agrees : ∀ parameter ∈ parameters, ∀ type, known.lookup parameter = some type → bound parameter = some type
  only : ∀ parameter type, bound parameter = some type → parameter ∈ parameters

/-- A step that leads from `before` to `after` keeps what is bound, and whatever binds the parameters in the end
satisfies `holds`. -/
structure Deduces (parameters : List SymbolId) (before after : Bindings)
    (holds : (SymbolId → Option Descriptor) → Prop) : Prop where
  stays : before.StaysIn after
  holds : ∀ bound, Binds parameters after bound → holds bound

theorem StaysIn.refl (known : Bindings) : known.StaysIn known := fun _ _ found => found

theorem StaysIn.trans (first : before.StaysIn known) (second : known.StaysIn after) : before.StaysIn after :=
  fun parameter type found => second parameter type (first parameter type found)

theorem Binds.of_stays (binds : Binds parameters after bound) (stays : known.StaysIn after) :
    Binds parameters known bound :=
  ⟨fun parameter member type found => binds.agrees parameter member type (stays parameter type found),
    binds.only⟩

/-- A step after which nothing is bound that was not before. -/
theorem Deduces.still {holds : (SymbolId → Option Descriptor) → Prop}
    (all : ∀ bound, Binds parameters known bound → holds bound) : Deduces parameters known known holds :=
  ⟨.refl known, all⟩

/-- Two steps in turn. -/
theorem Deduces.trans {first second : (SymbolId → Option Descriptor) → Prop}
    (start : Deduces parameters before known first) (next : Deduces parameters known after second) :
    Deduces parameters before after fun bound => first bound ∧ second bound :=
  ⟨start.stays.trans next.stays, fun bound binds =>
    ⟨start.holds bound (binds.of_stays next.stays), next.holds bound binds⟩⟩

theorem Deduces.imp {first second : (SymbolId → Option Descriptor) → Prop}
    (start : Deduces parameters before after first)
    (implies : ∀ bound, Binds parameters after bound → first bound → second bound) :
    Deduces parameters before after second :=
  ⟨start.stays, fun bound binds => implies bound binds (start.holds bound binds)⟩

/-- A parameter that is bound, or was bound already, is bound to the same type. -/
theorem deduces_bindOrMatch (member : parameter ∈ parameters)
    (ends : known.bindOrMatch parameter type = some after) :
    Deduces parameters known after fun bound =>
      ∃ replacement, bound parameter = some replacement ∧ replacement.bare = type.bare := by
  unfold bindOrMatch at ends
  split at ends
  · rename_i found hfound
    split at ends
    · rename_i same
      cases ends
      exact .still fun bound binds =>
        ⟨found, binds.agrees parameter member found hfound, (Descriptor.same_iff _ _).mp same⟩
    · cases ends
  · rename_i hfree
    cases ends
    refine ⟨fun other otherType found => ?_, fun bound binds => ⟨type, ?_, rfl⟩⟩
    · have hother : other ≠ parameter := by
        rintro rfl
        rw [hfree] at found
        cases found
      rw [List.lookup_cons, beq_eq_false_iff_ne.mpr hother]
      exact found
    · exact binds.agrees parameter member type List.lookup_cons_self

/-- Going through a list of pairs. -/
theorem deduces_foldlM {step : Bindings → Descriptor × Descriptor → Option Bindings}
    {holds : Descriptor × Descriptor → (SymbolId → Option Descriptor) → Prop}
    {pairs : List (Descriptor × Descriptor)}
    (each : ∀ pair ∈ pairs, ∀ known next, step known pair = some next →
      Deduces parameters known next (holds pair))
    (ends : pairs.foldlM step before = some after) :
    Deduces parameters before after fun bound => ∀ pair ∈ pairs, holds pair bound := by
  induction pairs generalizing before with
  | nil =>
      cases ends
      exact .still fun _ _ _ member => absurd member List.not_mem_nil
  | cons pair rest ih =>
      rw [List.foldlM_cons] at ends
      obtain ⟨next, hnext, hrest⟩ := Option.bind_eq_some_iff.mp ends
      have hfirst := each pair List.mem_cons_self before next hnext
      refine (hfirst.trans (ih (fun other member => each other (.tail _ member)) hrest)).imp ?_
      rintro bound - ⟨hpair, hothers⟩ other member
      rcases List.mem_cons.mp member with rfl | later
      · exact hpair
      · exact hothers other later

/-- Once all parameters are bound, the list of what they are bound to says the same. -/
theorem binds_of_mapM {deduced : List Descriptor}
    (ends : parameters.mapM (fun parameter => known.lookup parameter) = some deduced) :
    deduced.length = parameters.length ∧
      Binds parameters known fun parameter => (parameters.zip deduced).lookup parameter := by
  induction parameters generalizing deduced with
  | nil =>
      cases ends
      exact ⟨rfl, fun _ member => absurd member List.not_mem_nil, fun _ _ found => nomatch found⟩
  | cons first rest ih =>
      rw [List.mapM_cons] at ends
      obtain ⟨type, htype, hends⟩ := Option.bind_eq_some_iff.mp ends
      obtain ⟨types, htypes, hdeduced⟩ := Option.bind_eq_some_iff.mp hends
      cases hdeduced
      obtain ⟨hlength, hrest⟩ := ih htypes
      refine ⟨by rw [List.length_cons, List.length_cons, hlength], fun parameter member found hfound => ?_,
        fun parameter found hfound => ?_⟩
      · rw [List.zip_cons_cons]
        by_cases hfirst : parameter = first
        · subst hfirst
          rw [htype] at hfound
          rw [List.lookup_cons_self, hfound]
        · rw [List.lookup_cons, beq_eq_false_iff_ne.mpr hfirst]
          exact hrest.agrees parameter ((List.mem_cons.mp member).resolve_left hfirst) found hfound
      · rw [List.zip_cons_cons] at hfound
        by_cases hfirst : parameter = first
        · exact hfirst ▸ List.mem_cons_self
        · rw [List.lookup_cons, beq_eq_false_iff_ne.mpr hfirst] at hfound
          exact List.mem_cons_of_mem first (hrest.only parameter found hfound)

end Bindings

/-! ## Deduction -/

namespace Table

variable {table : Table} {parameters : List SymbolId} {before after : Bindings} {pattern arg : Descriptor}
  {bound : SymbolId → Option Descriptor} {depth : Nat}

open Bindings

/-- What a parameter is bound to gives the argument back in its use. -/
theorem deduces_bindParameter {parameter : SymbolId} (member : parameter ∈ parameters)
    (ends : table.bindParameter parameter .exact before pattern arg = some after) :
    Deduces parameters before after fun bound =>
      ∃ replacement, bound parameter = some replacement ∧
        table.ReadsAs arg (.plain (pattern.substituteBase replacement)) := by
  simp only [bindParameter] at ends
  split at ends
  · cases ends
  · rename_i outer
    split at ends
    · cases ends
    · rename_i level
      split at ends
      · simp only [Bool.or_eq_true, decide_eq_true_eq, Bool.not_eq_true', not_or, Nat.not_lt,
          Bool.not_eq_false, List.all_eq_true] at outer
        have hops := append_drop_of_fits outer.1 outer.2
        have hincludes : ({ arg with ops := arg.ops.drop pattern.ops.length }.stripSpecifiers.stripDefault.topCv
            ).includes pattern.baseCv = true := by
          simpa using level
        refine (deduces_bindOrMatch member ends).imp ?_
        rintro bound - ⟨replacement, hbound, hsame⟩
        refine ⟨replacement, hbound, .plain ((Descriptor.same_iff _ _).mpr ?_)⟩
        have huse := Descriptor.bare_substituteBase (rfl : pattern.bare = pattern.bare) hsame
        rw [← Descriptor.bare_substituteBase_rest rfl hops hincludes]
        exact Descriptor.bare_stripSpecifiers huse.symm
      · cases ends

/-- Patterns that read like arguments one by one are replaced all together. -/
theorem mapM_of_readsLike {patterns args : List Descriptor}
    (reads : List.Forall₂ (table.ReadsLike bound depth) patterns args) :
    ∃ terms, patterns.mapM (table.replaced? bound depth) = some terms ∧
      List.Forall₂ (fun arg term => table.ReadsAs (table.flattenType arg) term) args terms := by
  induction reads with
  | nil => exact ⟨[], rfl, .nil⟩
  | cons first _ ih =>
      obtain ⟨term, hterm, hreads⟩ := first
      obtain ⟨terms, hterms, hothers⟩ := ih
      exact ⟨term :: terms, by rw [List.mapM_cons, hterm, hterms]; rfl, .cons hreads hothers⟩

/-- A template-id pattern reads like the argument if its own arguments do. -/
theorem deduces_deduceTemplateId {deduce : Bindings → Descriptor → Descriptor → Option Bindings}
    (inner : ∀ known next inner given, deduce known inner given = some next →
      Deduces parameters known next fun bound => table.ReadsLike bound depth inner given)
    (ends : table.deduceTemplateId parameters deduce .exact before pattern arg = some after) :
    Deduces parameters before after fun bound =>
      ∃ template args terms, table.templateIdParts? pattern = some (template, args) ∧
        args.mapM (table.replaced? bound depth) = some terms ∧
        table.ReadsAs arg
          (.applied pattern.ops pattern.baseCv (table.replacedHead bound template) terms) := by
  simp only [deduceTemplateId] at ends
  obtain ⟨⟨template, args⟩, hpattern, hends⟩ := Option.bind_eq_some_iff.mp ends
  obtain ⟨⟨argTemplate, argArgs⟩, harg, hends⟩ := Option.bind_eq_some_iff.mp hends
  obtain ⟨_, hlevels, hends⟩ := Option.bind_eq_some_iff.mp hends
  dsimp only at hends
  have hhead : ∃ known, Deduces parameters before known (fun bound =>
        table.replacedHead bound template = table.canonical argTemplate) ∧
      (do
        guard (args.length == argArgs.length)
        (args.zip argArgs).foldlM (fun known pair => deduce known pair.1 pair.2) known) = some after := by
    split at hends
    · rename_i member
      obtain ⟨known, hknown, hrest⟩ := Option.bind_eq_some_iff.mp hends
      refine ⟨known, (deduces_bindOrMatch member hknown).imp ?_, hrest⟩
      rintro bound - ⟨replacement, hbound, hsame⟩
      rw [replacedHead, hbound, Option.bind_some, Descriptor.link_of_bare hsame]
      rfl
    · rename_i free
      split at hends
      · rename_i same
        refine ⟨before, .still fun bound binds => ?_, hends⟩
        have hfree : bound template = none := by
          cases hbound : bound template with
          | none => rfl
          | some found => exact absurd (binds.only template found hbound) free
        rw [replacedHead, hfree]
        exact same
      · cases hends
  obtain ⟨known, hhead, hrest⟩ := hhead
  obtain ⟨_, hlength, hfold⟩ := Option.bind_eq_some_iff.mp hrest
  have hargs : Deduces parameters known after fun bound =>
      ∀ pair ∈ args.zip argArgs, table.ReadsLike bound depth pair.1 pair.2 :=
    deduces_foldlM (fun pair _ known next => inner known next pair.1 pair.2) hfold
  refine (hhead.trans hargs).imp ?_
  rintro bound - ⟨hreplaced, heach⟩
  -- The levels of the pattern are those of the argument.
  rw [Option.guard_eq_some', Bool.and_eq_true, Bool.and_eq_true, Descriptor.samePtrShape, Bool.and_eq_true,
    beq_iff_eq, List.all_eq_true, List.all_eq_true] at hlevels
  obtain ⟨⟨⟨hcount, hshapes⟩, hqualifiers⟩, hcv⟩ := hlevels
  have hops : pattern.ops = arg.ops := by
    have happend := append_drop_of_fits hcount.le fun pair member => by
      rw [hshapes pair member, hqualifiers pair member]
      rfl
    rwa [hcount, List.drop_length, List.append_nil] at happend
  have hbase : pattern.baseCv = arg.baseCv := eq_of_beq hcv
  rw [Option.guard_eq_some', beq_iff_eq] at hlength
  obtain ⟨terms, hterms, hread⟩ :=
    mapM_of_readsLike (List.forall₂_iff_zip.mpr ⟨hlength, fun member => heach _ member⟩)
  refine ⟨template, args, terms, hpattern, hterms, ?_⟩
  rw [hops, hbase, hreplaced]
  exact .applied harg hread

/-- A pattern that was matched against a type reads like it once the parameters are replaced. -/
theorem deduces_deduceType (depth : Nat) : ∀ before after pattern arg,
    table.deduceType parameters depth .exact before pattern arg = some after →
      Deduces parameters before after fun bound => table.ReadsLike bound depth pattern arg := by
  induction depth with
  | zero => exact fun before after pattern arg ends => nomatch ends
  | succ depth ih =>
      intro before after pattern arg ends
      simp only [deduceType] at ends
      -- Where the pattern is compared as it is written, it holds no parameter to be replaced.
      have hwritten : (∀ bound, Binds parameters before bound →
          table.replaced? bound (depth + 1) pattern = some (.plain (table.flattenType pattern))) →
          (if (table.flattenType pattern).stripSpecifiers.same (table.flattenType arg).stripSpecifiers then
            some before else none) = some after →
          Deduces parameters before after fun bound => table.ReadsLike bound (depth + 1) pattern arg := by
        intro unreplaced hends
        split at hends
        · rename_i same
          cases hends
          refine .still fun bound binds => ?_
          exact ⟨_, unreplaced bound binds,
            .plain ((Descriptor.same_iff _ _).mpr ((Descriptor.same_iff _ _).mp same).symm)⟩
        · cases hends
      split at ends
      · rename_i hlink
        exact hwritten (fun bound _ => by simp only [replaced?, hlink]) ends
      · rename_i link hlink
        split at ends
        · rename_i use
          rw [Bool.and_eq_true, decide_eq_true_eq] at use
          refine (deduces_bindParameter use.1 ends).imp ?_
          rintro bound - ⟨replacement, hbound, hreads⟩
          exact ⟨_, by simp only [replaced?, hlink, hbound, Option.filter_some, use.2, if_true], hreads⟩
        · rename_i noUse
          have hunused : ∀ bound : SymbolId → Option Descriptor,
              (∀ parameter type, bound parameter = some type → parameter ∈ parameters) →
              (bound link).filter (fun _ => (table.flattenType pattern).templateArgs.isEmpty) = none := by
            intro bound only
            rw [Option.filter_eq_none_iff]
            intro replacement hbound isUse
            exact noUse (by simp [only link replacement hbound, isUse])
          rw [Bool.and_eq_true, decide_eq_true_eq, not_and, Bool.not_eq_true] at noUse
          split at ends
          · rename_i opens
            have hopens : ((table.flattenType pattern).templateArgs.isEmpty &&
                !(table.symbol link).isPlaceholder) = false := by
              rw [Bool.or_eq_true, Bool.or_eq_true, decide_eq_true_eq] at opens
              rcases opens with (member | written) | placeholder
              · rw [noUse member, Bool.false_and]
              · rw [Bool.not_eq_true'] at written
                rw [written, Bool.false_and]
              · rw [placeholder, Bool.not_true, Bool.and_false]
            refine (deduces_deduceTemplateId ih ends).imp ?_
            rintro bound binds ⟨template, args, terms, hparts, hterms, hreads⟩
            refine ⟨_, ?_, hreads⟩
            simp only [replaced?, hlink, hunused bound binds.only, hopens, hparts, hterms, Bool.false_eq_true,
              if_false, Option.bind_eq_bind, Option.bind_some]
          · rename_i closed
            have hclosed : ((table.flattenType pattern).templateArgs.isEmpty &&
                !(table.symbol link).isPlaceholder) = true := by
              simp only [Bool.or_eq_true, Bool.not_eq_true', not_or, Bool.not_eq_false] at closed
              rw [closed.1.2, Bool.eq_false_iff.mpr closed.2]
              rfl
            refine hwritten (fun bound binds => ?_) ends
            simp only [replaced?, hlink, hunused bound binds.only, hclosed, if_true]

/-- Patterns that were matched against arguments match them. -/
theorem matches_of_deduceFromPatterns {patterns args deduced : List Descriptor}
    (deduces : table.deduceFromPatterns parameters patterns args = some deduced) :
    table.Matches parameters patterns args deduced := by
  simp only [deduceFromPatterns] at deduces
  obtain ⟨_, hlength, hends⟩ := Option.bind_eq_some_iff.mp deduces
  obtain ⟨known, hfold, hall⟩ := Option.bind_eq_some_iff.mp hends
  rw [Option.guard_eq_some', beq_iff_eq] at hlength
  have hreads : Deduces parameters [] known fun bound =>
      ∀ pair ∈ patterns.zip args, table.ReadsLike bound table.config.nestingLimit pair.1 pair.2 :=
    deduces_foldlM
      (fun pair _ before next => deduces_deduceType table.config.nestingLimit before next pair.1 pair.2) hfold
  obtain ⟨hbound, hbinds⟩ := binds_of_mapM hall
  exact ⟨hbound, List.forall₂_iff_zip.mpr ⟨hlength, fun member => hreads.holds _ hbinds _ member⟩⟩

/-- Deduction is sound: each parameter is bound to one argument, and putting these in the place of the parameters
turns the patterns into the arguments.  So a partial specialization that is chosen matches what was asked for. -/
theorem deduction_sound (table : Table) :
    (∀ parameters patterns args deduced,
      table.deduceFromPatterns parameters patterns args = some deduced →
        table.Matches parameters patterns args deduced) ∧
    ∀ template args specialization deduced,
      table.selectSpecialization template args = .ok (some (specialization, deduced)) →
        specialization ∈ (table.symbol template).specializations ∧
          ∃ data patterns, (table.symbol specialization).templateData? = some data ∧
            data.patterns = some patterns ∧ table.Matches data.parameters patterns args deduced := by
  refine ⟨fun parameters patterns args deduced => matches_of_deduceFromPatterns, ?_⟩
  intro template args specialization deduced selected
  obtain ⟨hregistered, data, patterns, hdata, hpatterns, hdeduced⟩ := matched_of_selectSpecialization selected
  exact ⟨hregistered, data, patterns, hdata, hpatterns, matches_of_deduceFromPatterns hdeduced⟩

end Table

/-! ## A run -/

open Analysis

/-- The patterns `const T *` and `TT<T>`. -/
def nestedPatterns (element template : SymbolId) : List Descriptor :=
  [((Descriptor.ofSymbol element).setBaseCv { isConst := true }).pointer,
    .templateId template [.ofSymbol element]]

/-- A class template `B<E>`, and a class template `S<A, C>` with a partial specialization `S<const T *, TT<T>>`. -/
def specializedPairs : Table :=
  finalTable (Table.new { nestingLimit := 8 }) do
    let box ← createTemplate ⟨17⟩
    let element ← createTemplateParameter ⟨18⟩ .typeName
    addTemplateParameter box element
    let primary ← createTemplate ⟨19⟩
    let first ← createTemplateParameter ⟨20⟩ .typeName
    let second ← createTemplateParameter ⟨21⟩ .typeName
    addTemplateParameter primary first
    addTemplateParameter primary second
    let element ← createTemplateParameter ⟨22⟩ .typeName
    let template ← createTemplateTemplateParameter ⟨23⟩
    let special ← createSpecialization ⟨19⟩ (nestedPatterns element template)
    addTemplateParameter special element
    addTemplateParameter special template
    addTemplateSpecialization primary special

/-- The type `const int *`. -/
def constIntPointer : Descriptor := ((Descriptor.ofKind .int).setBaseCv { isConst := true }).pointer

/-- The arguments `const int *const *` and `B<const int *>`. -/
def nestedArgs : List Descriptor :=
  [(constIntPointer.setTopCv { isConst := true }).pointer, .templateId ⟨1⟩ [constIntPointer]]

/-- `S<const int *const *, B<const int *>>` uses the partial specialization with `T` bound to `const int *` and
`TT` to `B`. -/
theorem nested_patterns_match :
    specializedPairs.deduceFromPatterns [⟨6⟩, ⟨7⟩] (nestedPatterns ⟨6⟩ ⟨7⟩) nestedArgs =
        some [constIntPointer, .ofSymbol ⟨1⟩] ∧
      specializedPairs.Matches [⟨6⟩, ⟨7⟩] (nestedPatterns ⟨6⟩ ⟨7⟩) nestedArgs [constIntPointer, .ofSymbol ⟨1⟩] ∧
      specializedPairs.selectSpecialization ⟨3⟩ nestedArgs = .ok (some (⟨8⟩, [constIntPointer, .ofSymbol ⟨1⟩])) ∧
      (⟨8⟩ : SymbolId) ∈ (specializedPairs.symbol ⟨3⟩).specializations ∧
      ∃ data patterns, (specializedPairs.symbol ⟨8⟩).templateData? = some data ∧ data.patterns = some patterns ∧
        specializedPairs.Matches data.parameters patterns nestedArgs [constIntPointer, .ofSymbol ⟨1⟩] := by
  have hdeduced : specializedPairs.deduceFromPatterns [⟨6⟩, ⟨7⟩] (nestedPatterns ⟨6⟩ ⟨7⟩) nestedArgs =
      some [constIntPointer, .ofSymbol ⟨1⟩] := by cbv
  have hselected : specializedPairs.selectSpecialization ⟨3⟩ nestedArgs =
      .ok (some (⟨8⟩, [constIntPointer, .ofSymbol ⟨1⟩])) := by cbv
  have hsound := Table.deduction_sound specializedPairs
  exact ⟨hdeduced, hsound.1 _ _ _ _ hdeduced, hselected, hsound.2 _ _ _ _ hselected⟩

end NameBinding
