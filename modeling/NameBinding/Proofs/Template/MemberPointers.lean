import NameBinding.Proofs.Operation.Repetition
import NameBinding.Proofs.Table.FunctionLinks

/-!
# Member pointers in a copy

A type of a templated declaration is read part by part, and then its base is replaced.  The operators around the
base go their own way: the class of a member pointer is looked up among the copies made so far, never among the
parameters, and one that was not copied so far stays as it is.

* `Descriptor.PointsInto`: somewhere in a type there is a pointer to a member of a class.
* `replaceBase`: what becomes of a type when all its parts are read.
* `substitute_under`: operators are carried along.
* `substitute_pointsInto`: where the classes come from that a finished type points into.
* `member_pointers_read_by_copies`: so it is in every running copy, whatever instances are made meanwhile.

The main statement is `copied_types_point_into`, about all types of a finished copy.
-/

namespace NameBinding

namespace Descriptor

/-- Somewhere in the type, also in a template argument or in the default value, there is a pointer to a member of
the class. -/
inductive PointsInto (owner : SymbolId) : Descriptor → Prop where
  | operator {type : Descriptor} (member : owner ∈ type.memberClasses) : PointsInto owner type
  | argument {type arg : Descriptor} (member : arg ∈ type.templateArgs) (inside : PointsInto owner arg) :
      PointsInto owner type
  | default {type value : Descriptor} (given : type.defaultValue = some value)
      (inside : PointsInto owner value) : PointsInto owner type

/-- The type with more operators around it. -/
def under (type : Descriptor) (ops : List PtrOp) : Descriptor := { type with ops := ops ++ type.ops }

/-- Whatever the type is linked to, it points into what its operators, arguments and default value point into. -/
theorem PointsInto.of_parts {type other : Descriptor} {owner : SymbolId} (inside : other.PointsInto owner)
    (ops : other.ops = type.ops) (args : ∀ arg ∈ other.templateArgs, arg ∈ type.templateArgs)
    (default : other.defaultValue = type.defaultValue) : type.PointsInto owner := by
  cases inside with
  | operator member => exact .operator (by rwa [memberClasses, ← ops])
  | argument member inside => exact .argument (args _ member) inside
  | default given inside => exact .default (default ▸ given) inside

/-- A type whose base is replaced points into what it pointed into, and into what its new base points into. -/
theorem PointsInto.of_substituteBase {use replacement : Descriptor} {owner : SymbolId}
    (inside : (use.substituteBase replacement).PointsInto owner) :
    use.PointsInto owner ∨ replacement.PointsInto owner := by
  cases inside with
  | operator member =>
      rw [memberClasses_substituteBase] at member
      exact (List.mem_append.mp member).imp .operator .operator
  | argument member inside =>
      rw [templateArgs_substituteBase] at member
      exact .inr (.argument member inside)
  | default given inside => exact .inl (.default given inside)

end Descriptor

namespace CopyContext

/-- Operators as they read in the copy: a class that was copied is replaced by its copy. -/
def readOps (context : CopyContext) (ops : List PtrOp) : List PtrOp :=
  ops.map fun op => { op with memberOf := op.memberOf.map context.copyOf }

/-- A type as it reads in the copy, with its base not yet replaced. -/
def readType (context : CopyContext) (type : Descriptor) (args : List Descriptor)
    (value : Option Descriptor) : Descriptor :=
  { type with templateArgs := args, defaultValue := value, ops := context.readOps type.ops }

theorem memberClasses_readType (context : CopyContext) (type : Descriptor) (args : List Descriptor)
    (value : Option Descriptor) :
    (context.readType type args value).memberClasses = type.memberClasses.map context.copyOf := by
  show ((type.ops.map _).filterMap _) = _
  rw [List.filterMap_map, Descriptor.memberClasses, List.map_filterMap]
  rfl

end CopyContext

namespace Analysis

variable {instanceOf : SymbolId → List Descriptor → Analysis (Option SymbolId)}
  {inner : Descriptor → Analysis (Option Descriptor)} {table after : Table} {context : CopyContext}
  {type result : Descriptor} {owner : SymbolId}

/-- Replace the base of a type whose operators, arguments and default value are read already. -/
def replaceBase (instanceOf : SymbolId → List Descriptor → Analysis (Option SymbolId))
    (inner : Descriptor → Analysis (Option Descriptor)) (table : Table) (context : CopyContext)
    (type : Descriptor) : Analysis (Option Descriptor) :=
  match type.link with
  | none => pure (some type)
  | some link =>
      match context.bindings.lookup link with
      | some replacement =>
          if type.templateArgs.isEmpty then pure (some (type.substituteBase replacement))
          else
            match replacement.link with
            | none => fail (.badTypeInfo (table.symbol link).name)
            | some template => relink instanceOf { type with templateArgs := [] } template type.templateArgs
      | none =>
          match context.copies.lookup link with
          | some copy => pure (some { type with link := some copy })
          | none =>
              match (table.symbol link).placeholder? with
              | some use => do
                  let some useArgs ← mapReady inner use.args | pure none
                  relink instanceOf type (context.templateOf use.template) useArgs
              | none =>
                  if link ≠ context.templated && table.isWithin link context.templated then pure none
                  else if !type.templateArgs.isEmpty && (table.symbol (table.canonical link)).isTemplate then
                    relink instanceOf { type with templateArgs := [] } link type.templateArgs
                  else pure (some type)

/-- A type is read part by part before its base is replaced. -/
theorem substitute_succ (position depth : Nat) (type : Descriptor) :
    substitute instanceOf position (depth + 1) type =
      (do
        let some args ← mapReady (substitute instanceOf position depth) type.templateArgs | pure none
        let some defaults ← mapReady (substitute instanceOf position depth) type.defaultValue.toList
          | pure none
        let table ← get
        replaceBase instanceOf (substitute instanceOf position depth) table (table.copyContext position)
          ((table.copyContext position).readType type args defaults.head?)) :=
  rfl

/-- Operators do not take part in the replacement of the base. -/
theorem replaceBase_under (type : Descriptor) (ops : List PtrOp) :
    replaceBase instanceOf inner table context (type.under ops) =
      Option.map (·.under ops) <$> replaceBase instanceOf inner table context type := by
  have hrelink : ∀ (other : Descriptor) (template : SymbolId) (args : List Descriptor),
      relink instanceOf (other.under ops) template args =
        Option.map (·.under ops) <$> relink instanceOf other template args := by
    intro other template args
    rw [relink, relink, map_bind]
    refine bind_congr fun made => ?_
    rw [map_pure, Option.map_map]
    rfl
  unfold replaceBase
  show (match type.link with | none => _ | some link => _ : Analysis (Option Descriptor)) = _
  cases type.link with
  | none => rw [map_pure]; rfl
  | some link =>
      dsimp only
      split
      · rename_i replacement _
        show (if type.templateArgs.isEmpty then _ else _ : Analysis (Option Descriptor)) = _
        split
        · rw [map_pure, Option.map_some]
          refine congrArg (fun ready => pure (some ready)) ?_
          simp only [Descriptor.substituteBase, Descriptor.under, List.append_assoc]
          rfl
        · split
          · rfl
          · exact hrelink { type with templateArgs := [] } _ _
      · split
        · rw [map_pure]; rfl
        · split
          · rw [map_bind]
            refine bind_congr fun useArgs => ?_
            cases useArgs with
            | none => rw [map_pure]; rfl
            | some useArgs => exact hrelink type _ _
          · split
            · rw [map_pure]; rfl
            · show (if !type.templateArgs.isEmpty && _ then _ else _ : Analysis (Option Descriptor)) = _
              split
              · exact hrelink { type with templateArgs := [] } _ _
              · rw [map_pure]; rfl

/-- A type that is linked to an instance differs in its link alone. -/
theorem relink_eq_ok {template : SymbolId} {args : List Descriptor}
    (ends : relink instanceOf type template args table = .ok (some result) after) :
    ∃ made, result = { type with link := some made } := by
  obtain ⟨made, middle, -, ends⟩ := bind_eq_ok.mp ends
  cases made with
  | none => cases ends
  | some made => cases ends; exact ⟨made, rfl⟩

/-- A base that is replaced brings in the classes of what it is replaced by, and nothing else. -/
theorem pointsInto_of_replaceBase
    (ends : replaceBase instanceOf inner table context type table = .ok (some result) after)
    (inside : result.PointsInto owner) :
    type.PointsInto owner ∨ ∃ pair ∈ context.bindings, pair.2.PointsInto owner := by
  cases hlink : type.link with
  | none =>
      simp only [replaceBase, hlink] at ends
      cases ends
      exact .inl inside
  | some link =>
      cases hbound : context.bindings.lookup link with
      | some replacement =>
          simp only [replaceBase, hlink, hbound] at ends
          split at ends
          · cases ends
            exact inside.of_substituteBase.imp_right fun found => ⟨_, mem_of_lookup hbound, found⟩
          · cases htemplate : replacement.link with
            | none => simp only [htemplate] at ends; cases ends
            | some template =>
                simp only [htemplate] at ends
                obtain ⟨made, rfl⟩ := relink_eq_ok ends
                exact .inl (inside.of_parts rfl (by simp) rfl)
      | none =>
          refine .inl ?_
          cases hcopy : context.copies.lookup link with
          | some copy =>
              simp only [replaceBase, hlink, hbound, hcopy] at ends
              cases ends
              exact inside.of_parts rfl (fun _ member => member) rfl
          | none =>
              cases huse : (table.symbol link).placeholder? with
              | some use =>
                  simp only [replaceBase, hlink, hbound, hcopy, huse] at ends
                  obtain ⟨useArgs, middle, -, ends⟩ := bind_eq_ok.mp ends
                  cases useArgs with
                  | none => cases ends
                  | some useArgs =>
                      obtain ⟨made, rfl⟩ := relink_eq_ok ends
                      exact inside.of_parts rfl (fun _ member => member) rfl
              | none =>
                  simp only [replaceBase, hlink, hbound, hcopy, huse] at ends
                  split at ends
                  · cases ends
                  · split at ends
                    · obtain ⟨made, rfl⟩ := relink_eq_ok ends
                      exact inside.of_parts rfl (by simp) rfl
                    · cases ends
                      exact inside

/-- What a step gave for the elements of a list, it gave for each of them where the elements before it led. -/
theorem exists_of_mem_mapReady {α β : Type} {step : α → Analysis (Option β)} (inv : Table → Prop)
    {list : List α} {found : List β} {value : β}
    (keeps : ∀ x ∈ list, ∀ y before last, inv before → step x before = .ok (some y) last → inv last)
    (start : inv table) (ends : mapReady step list table = .ok (some found) after) (member : value ∈ found) :
    ∃ x ∈ list, ∃ before last, inv before ∧ step x before = .ok (some value) last := by
  induction list generalizing table found with
  | nil => cases ends; cases member
  | cons first rest ih =>
      obtain ⟨ready, middle, hready, ends⟩ := bind_eq_ok.mp ends
      cases ready with
      | none => cases ends
      | some head =>
          obtain ⟨others, last, hothers, ends⟩ := bind_eq_ok.mp ends
          cases others with
          | none => cases ends
          | some others =>
              cases ends
              rcases List.mem_cons.mp member with rfl | later
              · exact ⟨first, .head rest, table, middle, start, hready⟩
              · obtain ⟨x, hx, found⟩ := ih (fun x hx => keeps x (.tail first hx))
                  (keeps first (.head rest) head table middle start hready) hothers later
                exact ⟨x, .tail first hx, found⟩

/-! ## A type of a copy -/

section Substitution

variable {base floor position : Nat}

/-- A step in a copy leaves running copies alone. -/
theorem copyContext_moved {regime : Regime} (moved : Moved regime table after) (lt : position < regime.floor) :
    after.copyContext position = table.copyContext position := by
  rw [Table.copyContext, Table.copyContext, Array.getD_eq_getD_getElem?, Array.getD_eq_getD_getElem?,
    moved.changes.contexts lt]

variable {regime : Regime}
  (resolves : ∀ template args table, regime.Sound table → (∀ arg ∈ args, arg.Below table.size) →
    MovesAt regime (instanceOf template args)
      (fun after made => ∀ id, made = some id → id.index < after.size) table)

include resolves

/-- The parts of a type are read with the same copies as the type. -/
theorem mapReady_moved (lt : position < regime.floor) {depth : Nat} {types found : List Descriptor}
    (sound : regime.Sound table) (below : ∀ type ∈ types, type.Below table.size)
    (ends : mapReady (substitute instanceOf position depth) types table = .ok (some found) after) :
    regime.Sound after ∧ table.size ≤ after.size ∧
      after.copyContext position = table.copyContext position := by
  have hmoves := moves_mapReady types table sound below (moves_substitute resolves position depth)
  obtain ⟨hmoved, -⟩ := hmoves.ok ends
  exact ⟨hmoved.sound sound, hmoved.size_le, copyContext_moved hmoved lt⟩

/-- Operators are read by the copies made so far, and make no difference otherwise. -/
theorem substitute_under (lt : position < regime.floor) (depth : Nat) (sound : regime.Sound table)
    (below : type.Below table.size) :
    substitute instanceOf position depth type table =
      (Option.map (·.under ((table.copyContext position).readOps type.ops)) <$>
        substitute instanceOf position depth { type with ops := [] }) table := by
  cases depth with
  | zero => rfl
  | succ depth =>
      rw [substitute_succ, substitute_succ, map_bind]
      show (mapReady _ type.templateArgs >>= _) table = (mapReady _ type.templateArgs >>= _) table
      cases hargs : mapReady (substitute instanceOf position depth) type.templateArgs table with
      | error interrupt middle => rw [bind_error hargs, bind_error hargs]
      | ok args middle =>
          rw [bind_ok hargs, bind_ok hargs]
          cases args with
          | none => rfl
          | some args =>
              obtain ⟨hsound, hle, hcontext⟩ := mapReady_moved resolves lt sound below.args hargs
              have hvalue : ∀ value ∈ type.defaultValue.toList, value.Below middle.size := fun value member =>
                (below.default (Option.mem_toList.mp member)).mono hle
              dsimp only
              rw [map_bind]
              cases hdefaults : mapReady (substitute instanceOf position depth) type.defaultValue.toList
                  middle with
              | error interrupt last => rw [bind_error hdefaults, bind_error hdefaults]
              | ok defaults last =>
                  rw [bind_ok hdefaults, bind_ok hdefaults]
                  cases defaults with
                  | none => rfl
                  | some defaults =>
                      obtain ⟨-, -, hlater⟩ := mapReady_moved resolves lt hsound hvalue hdefaults
                      have hread : (last.copyContext position).readType type args defaults.head? =
                          ((last.copyContext position).readType { type with ops := [] } args
                            defaults.head?).under ((table.copyContext position).readOps type.ops) := by
                        rw [hlater, hcontext, CopyContext.readType, CopyContext.readType, Descriptor.under]
                        simp [CopyContext.readOps]
                      show replaceBase _ _ last _ _ last = _
                      rw [hread, replaceBase_under]
                      rfl

/-- A class that a finished type points into was read by the copies, or it comes with an argument. -/
theorem substitute_pointsInto (lt : position < regime.floor) (depth : Nat) (sound : regime.Sound table)
    (below : type.Below table.size)
    (ends : substitute instanceOf position depth type table = .ok (some result) after)
    (inside : result.PointsInto owner) :
    (∃ source, type.PointsInto source ∧ (table.copyContext position).copyOf source = owner) ∨
      ∃ pair ∈ (table.copyContext position).bindings, pair.2.PointsInto owner := by
  induction depth generalizing type result table after with
  | zero => cases ends
  | succ depth ih =>
      -- The parts of the type are read in tables in which nothing has become of the context.
      have hpart : ∀ {types found : List Descriptor} {part : Descriptor} {now last : Table},
          regime.Sound now → now.copyContext position = table.copyContext position →
          (∀ type ∈ types, type.Below now.size) →
          mapReady (substitute instanceOf position depth) types now = .ok (some found) last →
          part ∈ found → part.PointsInto owner →
          (∃ type ∈ types, ∃ source, type.PointsInto source ∧
            (table.copyContext position).copyOf source = owner) ∨
          ∃ pair ∈ (table.copyContext position).bindings, pair.2.PointsInto owner := by
        intro types found part now last hnow hsame htypes hfound hmember hinside
        obtain ⟨type, htype, before, reached, ⟨hbefore, hle, hcontext⟩, hread⟩ := exists_of_mem_mapReady
          (fun now' => regime.Sound now' ∧ now.size ≤ now'.size ∧
            now'.copyContext position = table.copyContext position)
          (fun type htype part before reached ⟨hbefore, hle, hcontext⟩ hread => by
            obtain ⟨hmoved, -⟩ := (moves_substitute resolves position depth type before hbefore
              ((htypes type htype).mono hle)).ok hread
            exact ⟨hmoved.sound hbefore, Nat.le_trans hle hmoved.size_le,
              (copyContext_moved hmoved lt).trans hcontext⟩)
          ⟨hnow, Nat.le_refl _, hsame⟩ hfound hmember
        have hclass := ih hbefore ((htypes type htype).mono hle) hread hinside
        rw [hcontext] at hclass
        exact hclass.imp_left fun found => ⟨type, htype, found⟩
      rw [substitute_succ] at ends
      obtain ⟨args, middle, hargs, ends⟩ := bind_eq_ok.mp ends
      cases args with
      | none => cases ends
      | some args =>
          obtain ⟨defaults, last, hdefaults, ends⟩ := bind_eq_ok.mp ends
          cases defaults with
          | none => cases ends
          | some defaults =>
              obtain ⟨hsound, hle, hcontext⟩ := mapReady_moved resolves lt sound below.args hargs
              have hvalue : ∀ value ∈ type.defaultValue.toList, value.Below middle.size := fun value member =>
                (below.default (Option.mem_toList.mp member)).mono hle
              obtain ⟨-, -, hlater⟩ := mapReady_moved resolves lt hsound hvalue hdefaults
              have hreplaced : replaceBase instanceOf (substitute instanceOf position depth) last
                  (last.copyContext position)
                  ((last.copyContext position).readType type args defaults.head?) last =
                  .ok (some result) after := ends
              rw [hlater.trans hcontext] at hreplaced
              refine (pointsInto_of_replaceBase hreplaced inside).elim (fun read => ?_) .inr
              cases read with
              | operator member =>
                  rw [CopyContext.memberClasses_readType] at member
                  obtain ⟨source, hsource, same⟩ := List.mem_map.mp member
                  exact .inl ⟨source, .operator hsource, same⟩
              | argument member inside =>
                  refine (hpart sound rfl below.args hargs member inside).imp_left ?_
                  rintro ⟨arg, harg, source, hsource, same⟩
                  exact ⟨source, .argument harg hsource, same⟩
              | default given inside =>
                  refine (hpart hsound hcontext hvalue hdefaults (List.mem_of_mem_head? given) inside).imp_left ?_
                  rintro ⟨value, hvalue, source, hsource, same⟩
                  exact ⟨source, .default (Option.mem_toList.mp hvalue) hsource, same⟩

end Substitution

/-! ## Member pointers -/

/-- Whatever a running copy resolves in a type, it only does what a copy may. -/
theorem moves_resolveWithin (bound depth base floor : Nat) (eager : Bool) :
    ∀ template args table, (Regime.copying base floor).Sound table → (∀ arg ∈ args, arg.Below table.size) →
      MovesAt (.copying base floor)
        (resolveInstance (instantiateWithin bound) (resolveTemplateIds (instantiateWithin bound) depth) eager
          template args)
        (fun after made => ∀ id, made = some id → id.index < after.size) table := by
  intro template args table sound given
  have hmakes := makesInstances_instantiateWithin bound base floor
  exact moves_resolveInstance hmakes (moves_resolveTemplateIds hmakes depth) eager template sound given

/-- In a running copy, the pointers to members in a type are read by the copies made so far, and by nothing else.
The operators of a type neither make it wait nor change what becomes of it otherwise: a class that was not copied
so far stays, and so does a parameter. -/
theorem member_pointers_read_by_copies (table : Table) (represented : table.Represented)
    (work : table.WorkBelow) (copying : table.templates.depth ≠ 0) (position : Nat)
    (running : position < table.templates.contexts.size) (bound depth : Nat) (eager : Bool)
    (type : Descriptor) (below : type.Below table.size) :
    substituter (instantiateWithin bound) depth eager position type table =
      (Option.map (·.under ((table.copyContext position).readOps type.ops)) <$>
        substituter (instantiateWithin bound) depth eager position { type with ops := [] }) table := by
  have hsound : (Regime.copying 0 table.templates.contexts.size).Sound table :=
    ⟨represented, work, .inr copying, Nat.zero_le _, Nat.le_refl _⟩
  exact substitute_under (moves_resolveWithin bound depth 0 table.templates.contexts.size eager) running depth
    hsound below

/-- Every class that the type points into is a copy, or comes with an argument, or was not copied before the
declaration that has the type. -/
def pointerReading : Reading where
  holds context copy type := ∀ owner, type.PointsInto owner →
    (∃ source, (source, owner) ∈ context.copies) ∨ (∃ pair ∈ context.bindings, pair.2.PointsInto owner) ∨
      ∀ later, (owner, later) ∈ context.copies → copy.index < later.index
  younger := by
    intro context copy type source other holds lt owner inside
    rcases holds owner inside with ⟨origin, member⟩ | bound | later
    · exact .inl ⟨origin, .tail _ member⟩
    · exact .inr (.inl bound)
    · refine .inr (.inr fun next member => ?_)
      rcases List.mem_cons.mp member with same | old
      · cases same
        exact lt
      · exact later next old

/-- Types read well during a copy and when queued work is finished. -/
theorem readsTypes_pointers (bound depth : Nat) (eager : Bool) :
    ReadsTypes pointerReading (substituter (instantiateWithin bound) depth eager) := by
  intro position type table sound running below
  refine (moves_substituter (makesInstances_instantiateWithin bound _ _) depth eager position type table sound
    below).also fun after ready ends result copy same owner inside => ?_
  subst same
  have hresolves := moves_resolveWithin bound depth table.size table.templates.contexts.size eager
  rcases substitute_pointsInto hresolves running depth sound below ends inside with
    ⟨source, -, hread⟩ | hargument
  · rw [CopyContext.copyOf] at hread
    cases hcopy : (table.copyContext position).copies.lookup source with
    | some found =>
        rw [hcopy] at hread
        exact .inl ⟨source, hread ▸ mem_of_lookup hcopy⟩
    | none =>
        rw [hcopy] at hread
        obtain rfl : source = owner := hread
        refine .inr (.inr fun later member => ?_)
        exact absurd (List.lookup_eq_none_iff.mp hcopy _ member) (by simp)
  · exact .inr (.inl hargument)

/-- A class template is copied for complete arguments.  The instance and everything in it are copies, younger than
the template, and a class that a type or a return type of a copy points into, at any depth, is a copy itself, or
comes with an argument, or it was not copied before the declaration that has the type.  So neither the templated
declaration nor anything that was copied earlier is left, but parameters and what is copied later may be. -/
theorem copied_types_point_into (table : Table) (represented : table.Represented) (idle : table.Idle)
    (bound : Nat) (template : SymbolId) (args : List Descriptor) (given : ∀ arg ∈ args, arg.Below table.size)
    (absent : table.existingInstance? template args = none) (made : SymbolId) (after : Table)
    (ends : instantiateUncached (instantiateWithin bound) bound template args table = .ok made after) :
    ∃ templated middle, table.templated? template = some templated ∧
      completeCopy (instantiateWithin bound) bound template args (table.symbol template).name
        table.config.passLimit table.copyBegun = .ok made middle ∧
      after.symbols = middle.symbols ∧ (templated, made) ∈ (middle.copyContext 0).copies ∧
      ∀ copy, middle.IsCopy 0 copy →
        made.index ≤ copy.index ∧ (∀ part ∈ (after.symbol copy).parts, middle.IsCopy 0 part) ∧
        ∀ type, (after.symbol copy).type = type ∨ (after.symbol copy).returnType = some type →
          ∀ owner, type.PointsInto owner →
            middle.IsCopy 0 owner ∨ (∃ arg ∈ args, arg.PointsInto owner) ∨
              ∀ later, (owner, later) ∈ (middle.copyContext 0).copies → copy.index < later.index := by
  obtain ⟨middle, hcopy, hsymbols⟩ := instantiateUncached_ok idle ends
  have hcontexts : table.copyBegun.templates.contexts.size = 0 := by
    show table.templates.contexts.size = 0
    rw [idle]
    rfl
  have hcalm : table.copyBegun.templates.queue = [] := by
    show table.templates.queue = []
    rw [idle]
  have hsound := idle.sound_copyBegun represented
  obtain ⟨-, hcopied, hdone⟩ := (moves_completeCopy (makesInstances_instantiateWithin bound)
    (fun eager => readsTypes_pointers bound bound eager) template (table.symbol template).name
    table.config.passLimit hsound (Nat.succ_ne_zero _) hcalm given (lacks_of_existingInstance? absent)).ok hcopy
  obtain ⟨templated, htemplated, hgrown⟩ := hcopied.grown
  have hreads := hcopied.reads
  have hfresh := hcopied.fresh
  rw [hcontexts] at hgrown hreads hfresh
  -- All queued work is done, so that every type was read.
  have hread : ∀ copy part, ¬ middle.Waits [] copy part := by
    rintro copy part ⟨work, waiting, -⟩
    rw [hdone] at waiting
    cases waiting
  have hsymbol : ∀ id, after.symbol id = middle.symbol id := Table.symbol_of_symbols_eq hsymbols
  refine ⟨templated, middle, htemplated, hcopy, hsymbols, hgrown.copies _ (.head _), fun copy isCopy =>
    ⟨?_, fun part member => hreads.parts copy isCopy part (hsymbol copy ▸ member), fun type has owner inside => ?_⟩⟩
  · rw [hcopied.first]
    exact (hfresh copy isCopy).1
  · have hholds : pointerReading.holds (middle.copyContext 0) copy type := by
      rcases has with rfl | returns
      · rw [hsymbol]
        exact (hreads.types copy isCopy).resolve_left (hread copy _)
      · rw [hsymbol] at returns
        exact (hreads.returnTypes copy isCopy type returns).resolve_left (hread copy _)
    refine (hholds owner inside).imp_right (Or.imp_left ?_)
    rintro ⟨pair, member, hpair⟩
    rw [hgrown.bindings] at member
    exact ⟨pair.2, (List.of_mem_zip (List.mem_reverse.mp member)).2, hpair⟩

/-- The struct 1; and a class template 2 with the parameter 3, whose class 4 has a class 5, a pointer 7 to members
of 5, of 6 and of the parameter, and a class 6. -/
def declarePointing : List Action :=
  .perform (.createClass ⟨17⟩ .struct) :: declareTemplate 2 ⟨18⟩ (.createClass ⟨18⟩ .struct) ++
    [.perform (.createClass ⟨19⟩ .struct), .perform (.createClass ⟨20⟩ .struct),
      .perform (.createBasic ⟨21⟩
        ((((Descriptor.ofKind .int).memberPointer ⟨3⟩).memberPointer ⟨6⟩).memberPointer ⟨5⟩)),
      .perform (.addSymbol ⟨4⟩ ⟨5⟩), .perform (.addSymbol ⟨4⟩ ⟨7⟩), .perform (.addSymbol ⟨4⟩ ⟨6⟩)]

@[irreducible]
def pointingTable : Table := (Table.new {}).ran declarePointing

/-- Only the class that was copied before the pointer becomes its copy.  The struct around them could not stay. -/
theorem uncopied_owners_stay :
    ∃ after, instantiateUncached (instantiateWithin 4) 4 ⟨2⟩ [.ofSymbol ⟨1⟩] pointingTable =
        .ok ⟨8⟩ after ∧
      (after.symbol ⟨10⟩).type.memberClasses = [⟨9⟩, ⟨6⟩, ⟨3⟩] ∧
      ¬ (after.symbol ⟨10⟩).type.PointsInto ⟨4⟩ := by
  have hcalm : pointingTable.Calm := by
    have hreached : Reached Action.Joins ((Table.new {}).ran declarePointing) :=
      Reached.ran (.new _) (by decide +kernel)
    rw [pointingTable]
    exact hreached.calm
  have hgiven : ∀ arg ∈ [Descriptor.ofSymbol ⟨1⟩], arg.Below pointingTable.size := by
    intro arg member
    rw [List.mem_singleton.mp member]
    exact .ofSymbol (by decide +kernel)
  obtain ⟨after, hends, hclasses, hpart⟩ : ∃ after,
      instantiateUncached (instantiateWithin 4) 4 ⟨2⟩ [.ofSymbol ⟨1⟩] pointingTable = .ok ⟨8⟩ after ∧
        (after.symbol ⟨10⟩).type.memberClasses = [⟨9⟩, ⟨6⟩, ⟨3⟩] ∧ ⟨10⟩ ∈ (after.symbol ⟨8⟩).parts :=
    ⟨_, eq_ok_of_ending (by decide +kernel), by decide +kernel, by decide +kernel⟩
  obtain ⟨templated, middle, htemplated, -, -, hfirst, hcopies⟩ := copied_types_point_into pointingTable
    hcalm.represented hcalm.idle 4 ⟨2⟩ _ hgiven (by decide +kernel) ⟨8⟩ after hends
  refine ⟨after, hends, hclasses, fun inside => ?_⟩
  obtain rfl : ⟨4⟩ = templated := by
    have hfour : pointingTable.templated? ⟨2⟩ = some ⟨4⟩ := by decide +kernel
    exact Option.some.inj (hfour.symm.trans htemplated)
  obtain ⟨-, hparts, -⟩ := hcopies ⟨8⟩ ⟨_, hfirst⟩
  obtain ⟨-, -, htypes⟩ := hcopies ⟨10⟩ (hparts _ hpart)
  rcases htypes _ (.inl rfl) ⟨4⟩ inside with copied | ⟨arg, member, pointing⟩ | later
  · exact absurd (hcopies _ copied).1 (by decide)
  · rw [List.mem_singleton.mp member] at pointing
    cases pointing with
    | operator member => exact absurd member List.not_mem_nil
    | argument member => exact absurd member List.not_mem_nil
    | default given => exact absurd given nofun
  · exact absurd (later _ hfirst) (by decide)

end Analysis

end NameBinding
