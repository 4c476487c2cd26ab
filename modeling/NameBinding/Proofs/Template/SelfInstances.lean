import NameBinding.Proofs.Operation.CompletedTemplates
import NameBinding.Proofs.Template.SelfReferences

/-!
# One instance for a class that refers to itself

The class of a class template is copied member by member.  Where the members only refer to the template itself,
every type is read at once: no work is left for later, no further instance is made, and nothing depends on how
many passes over queued work are allowed.

* `copyContents_basic`, `copyContents_class`: what is left to copy of a data member and of a class.
* `Filling`: the members that have been copied into the instance, and what their types refer to.
* `Filling.copyMember` and `Filling.copyMembers`: one more member, and then all of them.
* `completeCopy_data`: the whole copy succeeds.

The main statement is `instantiate_self_referential`.
-/

namespace NameBinding

open Analysis

/-! ## Parts of a copy -/

namespace Analysis

variable {substitute : Substituter} {now : Table} {source copy member scope : SymbolId} {position depth : Nat}

/-- A symbol that holds nothing has no part but its type. -/
theorem copyContents_basic (basic : (now.symbol source).payload = .basic) :
    copyContents substitute position (depth + 1) source copy now =
      substituteInto substitute position copy .type (now.symbol source).type now := by
  have hparameters : (now.symbol source).parameters = [] := by rw [Symbol.parameters, basic]
  have hreturn : (now.symbol source).returnType = none := by
    rw [Symbol.returnType, Symbol.functionData?, basic]
    rfl
  have hclass : (now.symbol source).classData? = none := by rw [Symbol.classData?, basic]
  have hdecls : (now.symbol source).decls? = none := by rw [Symbol.decls?, basic]
  rw [copyContents, get_bind]
  simp [hparameters, hreturn, hclass, hdecls, Symbol.parents, Symbol.contents, Symbol.directives,
    Symbol.constructors, Symbol.conversions, copyParameters, copyReturnType, copyBases, copyMembers,
    copyDirectives, copySpecialFunctions]

/-- A class without bases and functions of its own consists of its type, its members and its directives. -/
theorem copyContents_class {decls : Declarations} (isClass : (now.symbol source).payload = .cls { decls }) :
    copyContents substitute position (depth + 1) source copy now =
      (do
        substituteInto substitute position copy .type (now.symbol source).type
        copyMembers (copyMember (copyContents substitute position depth) position) copy decls.contents
        copyDirectives copy decls.directives) now := by
  have hparameters : (now.symbol source).parameters = [] := by rw [Symbol.parameters, isClass]
  have hreturn : (now.symbol source).returnType = none := by
    rw [Symbol.returnType, Symbol.functionData?, isClass]
    rfl
  have hclass : (now.symbol source).classData? = some { decls } := by rw [Symbol.classData?, isClass]
  have hdecls : (now.symbol source).decls? = some decls := by rw [Symbol.decls?, isClass]
  rw [copyContents, get_bind]
  simp [hparameters, hreturn, hclass, hdecls, Symbol.parents, Symbol.contents, Symbol.directives,
    Symbol.constructors, Symbol.conversions, copyParameters, copyReturnType, copyBases,
    copySpecialFunctions]

/-- A type that is read at once is put into its place. -/
theorem substituteInto_read {type result : Descriptor}
    (reads : substitute position type now = .ok (some result) now) :
    substituteInto substitute position copy .type type now =
      .ok () (now.perform copy (.assign (.type result))) := by
  rw [substituteInto, bind_ok reads]
  rfl

end Analysis

/-! ## Steps of the copy -/

namespace CopyRunning

variable {table now next : Table} {template templated made copy : SymbolId} {args : List Descriptor}
  {copies : List (SymbolId × SymbolId)}

/-- Editing a copy. -/
theorem modify (running : CopyRunning table template templated args made copies now)
    (ltTemplate : template.index < table.size) (id : SymbolId) (change : Symbol → Symbol)
    (symbols : next.symbols = now.symbols.modify id.index change) (config : next.config = now.config)
    (templates : next.templates = now.templates) (fresh : table.size ≤ id.index) :
    CopyRunning table template templated args made copies next where
  grows := running.grows.modify_behind symbols config fresh
  contexts := templates ▸ running.contexts
  noWork := templates ▸ running.noWork
  cached := by
    have hother : ¬ (id = template ∧ template.index < now.size) := by
      rintro ⟨rfl, -⟩
      omega
    rw [Table.symbol_of_modify symbols, if_neg hother]
    exact running.cached
  sources := running.sources
  fresh := running.fresh

theorem perform (running : CopyRunning table template templated args made copies now)
    (ltTemplate : template.index < table.size) {id : SymbolId} (edit : Edit) (fresh : table.size ≤ id.index) :
    CopyRunning table template templated args made copies (now.perform id edit) :=
  running.modify ltTemplate id edit.apply rfl rfl rfl fresh

theorem write (running : CopyRunning table template templated args made copies now)
    (ltTemplate : template.index < table.size) {id : SymbolId} (edit : Edit) (fresh : table.size ≤ id.index) :
    CopyRunning table template templated args made copies (now.write id edit) :=
  running.modify ltTemplate id edit.apply rfl rfl rfl fresh

theorem create (running : CopyRunning table template templated args made copies now)
    (ltTemplate : template.index < table.size) (symbol : Symbol) :
    CopyRunning table template templated args made copies (now.allocate symbol).2 where
  grows := running.grows.trans (.allocate now symbol)
  contexts := running.contexts
  noWork := running.noWork
  cached := by
    rw [Table.symbol_allocate (Nat.lt_of_lt_of_le ltTemplate running.grows.size_le)]
    exact running.cached
  sources := running.sources
  fresh := running.fresh

/-- Remembering a copy of a declaration of the class. -/
theorem recordCopy (running : CopyRunning table template templated args made copies now)
    (source copy : SymbolId) (inside : table.InsideOf source templated) (fresh : table.size ≤ copy.index) :
    ∃ next, Analysis.recordCopy 0 source copy now = .ok () next ∧ next.symbols = now.symbols ∧
      CopyRunning table template templated args made ((source, copy) :: copies) next := by
  refine ⟨_, rfl, rfl, ?_⟩
  exact
    { grows := running.grows.trans (.of_symbols rfl rfl)
      contexts := by
        simp only [running.contexts]
        rfl
      noWork := running.noWork
      cached := running.cached
      sources := List.forall_mem_cons.mpr ⟨.inr inside, running.sources⟩
      fresh := List.forall_mem_cons.mpr ⟨fresh, running.fresh⟩ }

theorem enroll (running : CopyRunning table template templated args made copies now)
    (ltTemplate : template.index < table.size) (freshScope : table.size ≤ made.index)
    (fresh : table.size ≤ copy.index) :
    CopyRunning table template templated args made copies (now.enroll made copy) :=
  (running.perform ltTemplate _ fresh).perform ltTemplate _ freshScope

end CopyRunning

/-! ## The instance -/

/-- The copy of a member is a symbol that refers to the instance if the member refers to the template. -/
structure MemberCopied (table now : Table) (template templated member copy : SymbolId) : Prop where
  lt : copy.index < now.size
  refers : table.SelfReference template templated (table.symbol member).type →
    (now.symbol copy).type.link = some ⟨table.size⟩

/-- The members of the class have been copied into the instance, the symbol behind the table. -/
structure InstanceFilled (table : Table) (template templated : SymbolId) (members : List SymbolId)
    (now : Table) : Prop where
  size : now.size = table.size + 1 + members.length
  holds : (now.symbol ⟨table.size⟩).holdsMembers = true
  copied : List.Forall₂ (MemberCopied table now template templated) members (now.symbol ⟨table.size⟩).contents

namespace InstanceFilled

variable {table now next : Table} {template templated : SymbolId} {members : List SymbolId}

/-- Changes that leave the types of all symbols and the members of the instance alone. -/
theorem of_quiet (filled : InstanceFilled table template templated members now) (size : next.size = now.size)
    (types : ∀ id, (next.symbol id).type = (now.symbol id).type)
    (holds : (next.symbol ⟨table.size⟩).holdsMembers = (now.symbol ⟨table.size⟩).holdsMembers)
    (contents : (next.symbol ⟨table.size⟩).contents = (now.symbol ⟨table.size⟩).contents) :
    InstanceFilled table template templated members next where
  size := size.trans filled.size
  holds := holds.trans filled.holds
  copied := by
    rw [contents]
    refine filled.copied.imp fun member copy copied => ⟨size ▸ copied.lt, fun refers => ?_⟩
    rw [types]
    exact copied.refers refers

/-- One more member has been copied, into the next symbol. -/
theorem extend (filled : InstanceFilled table template templated members now) {member : SymbolId}
    (size : next.size = now.size + 1)
    (types : ∀ id : SymbolId, id.index ≠ now.size → (next.symbol id).type = (now.symbol id).type)
    (holds : (next.symbol ⟨table.size⟩).holdsMembers = (now.symbol ⟨table.size⟩).holdsMembers)
    (contents : (next.symbol ⟨table.size⟩).contents = (now.symbol ⟨table.size⟩).contents ++ [⟨now.size⟩])
    (refers : table.SelfReference template templated (table.symbol member).type →
      (next.symbol ⟨now.size⟩).type.link = some ⟨table.size⟩) :
    InstanceFilled table template templated (members ++ [member]) next where
  size := by
    rw [size, filled.size, List.length_append, List.length_singleton, Nat.add_assoc]
  holds := holds.trans filled.holds
  copied := by
    rw [contents]
    refine List.rel_append ?_ (.cons ⟨?_, refers⟩ .nil)
    · refine filled.copied.imp fun member copy copied => ⟨?_, fun refers => ?_⟩
      · exact size ▸ Nat.lt_succ_of_lt copied.lt
      · rw [types copy (Nat.ne_of_lt copied.lt)]
        exact copied.refers refers
    · show now.size < next.size
      omega

end InstanceFilled

/-- The class is being copied, and these members have been copied. -/
structure Filling (table : Table) (template templated : SymbolId) (args : List Descriptor)
    (copies : List (SymbolId × SymbolId)) (members : List SymbolId) (now : Table) : Prop where
  running : CopyRunning table template templated args ⟨table.size⟩ copies now
  filled : InstanceFilled table template templated members now

namespace Filling

variable {table now : Table} {template templated : SymbolId} {args : List Descriptor}
  {copies : List (SymbolId × SymbolId)} {members : List SymbolId}

/-- Writing what is neither a type nor a member. -/
theorem write (filling : Filling table template templated args copies members now)
    (ltTemplate : template.index < table.size) (id : SymbolId) (fresh : table.size ≤ id.index) (edit : Edit)
    (type : ∀ symbol, (edit.apply symbol).type = symbol.type)
    (holds : ∀ symbol, (edit.apply symbol).holdsMembers = symbol.holdsMembers)
    (contents : ∀ symbol, (edit.apply symbol).contents = symbol.contents) :
    Filling table template templated args copies members (now.write id edit) := by
  have hread : ∀ {α : Type} (reader : Symbol → α), (∀ symbol, reader (edit.apply symbol) = reader symbol) →
      ∀ x, reader ((now.write id edit).symbol x) = reader (now.symbol x) := by
    intro α reader blind x
    rw [Table.symbol_write]
    split
    · exact blind _
    · rfl
  exact ⟨filling.running.write ltTemplate edit fresh,
    filling.filled.of_quiet (Table.size_write now id edit) (hread Symbol.type type)
      (hread Symbol.holdsMembers holds _) (hread Symbol.contents contents _)⟩

end Filling

/-! ## Copying the members -/

section Members

variable {table now : Table} {template templated made member : SymbolId} {args : List Descriptor}
  {copies : List (SymbolId × SymbolId)} {members : List SymbolId} (inst : Instantiator) (bound depth : Nat)
  (calm : table.Calm) (dataClass : table.DataClass template templated)
  (given : table.NewArguments template args)

include calm dataClass given

/-- A data member is copied into the next symbol.  No other symbol changes, and nothing is made for its type. -/
theorem CopyRunning.copyMember (running : CopyRunning table template templated args made copies now)
    (fresh : table.size ≤ now.size) (dataMember : table.DataMember template templated member)
    (new : copies.lookup member = none) :
    ∃ next, Analysis.copyMember (copyContents (substituter inst (bound + 2) false) 0 (depth + 1)) 0 member now =
        .ok ⟨now.size⟩ next ∧
      CopyRunning table template templated args made ((member, ⟨now.size⟩) :: copies) next ∧
      next.size = now.size + 1 ∧
      (∀ id : SymbolId, id.index ≠ now.size → next.symbol id = now.symbol id) ∧
      (table.SelfReference template templated (table.symbol member).type →
        (next.symbol ⟨now.size⟩).type.link = some made) := by
  have hlt := dataClass.lt_size
  have hmember : member.index < table.size := dataMember.inside.lt_size
  have hcopies : (now.copyContext 0).copies.lookup member = none := by rw [running.copyContext_eq, new]
  -- The copy begins as an empty symbol.
  obtain ⟨shell, hcreate⟩ : ∃ shell : Symbol, { (now.symbol member).shell with
      inTemplate := now.insideMemberTemplate member (now.copyContext 0).templated } = shell := ⟨_, rfl⟩
  have hcreated : Analysis.create shell now = .ok ⟨now.size⟩ (now.allocate shell).2 := rfl
  obtain ⟨recorded, hrecord, hsymbols, hrecorded⟩ :=
    (running.create hlt shell).recordCopy member ⟨now.size⟩ dataMember.inside fresh
  have hpushed : recorded.symbols = now.symbols.push shell := hsymbols
  have hgrown : recorded.size = now.size + 1 := Table.size_of_push hpushed
  -- Its type is read at once.
  obtain ⟨result, hread, hrefers⟩ := hrecorded.substitute_memberType calm dataClass given
    dataMember.type dataMember.noDefault (calm.represented.type_below member)
  have hfill : copyContents (substituter inst (bound + 2) false) 0 (depth + 1) member ⟨now.size⟩ recorded =
      .ok () (recorded.perform ⟨now.size⟩ (.assign (.type result))) := by
    have hbasic := (dataMember.grown hrecorded.grows calm hlt).basic
    rw [copyContents_basic hbasic, (hrecorded.grows.symbols member hmember).type]
    exact substituteInto_read hread
  refine ⟨recorded.perform ⟨now.size⟩ (.assign (.type result)), ?_, hrecorded.perform hlt _ fresh, ?_,
    fun id differs => ?_, fun refers => ?_⟩
  · rw [Analysis.copyMember, get_bind]
    simp only [hcopies, hcreate]
    rw [bind_ok hcreated, bind_ok hrecord, bind_ok hfill]
    rfl
  · rw [Table.size_perform, hgrown]
  · have hne : (⟨now.size⟩ : SymbolId) ≠ id := by
      rintro rfl
      exact differs rfl
    rw [Table.symbol_perform_of_ne _ _ hne, Table.symbol_of_push hpushed, if_neg differs]
  · have hbound : (⟨now.size⟩ : SymbolId) = ⟨now.size⟩ ∧ now.size < recorded.size := ⟨rfl, by omega⟩
    rw [Table.symbol_perform, if_pos hbound]
    exact hrefers refers

/-- One more member is copied and declared in the instance. -/
theorem Filling.copyMember (filling : Filling table template templated args copies members now)
    (dataMember : table.DataMember template templated member) (new : copies.lookup member = none) :
    ∃ next, Analysis.copyMember (copyContents (substituter inst (bound + 2) false) 0 (depth + 1)) 0 member now =
        .ok ⟨now.size⟩ next ∧ (next.symbol ⟨table.size⟩).holdsMembers = true ∧
      Filling table template templated args ((member, ⟨now.size⟩) :: copies) (members ++ [member])
        (next.enroll ⟨table.size⟩ ⟨now.size⟩) := by
  have hlt := dataClass.lt_size
  have hsize := filling.filled.size
  have hfresh : table.size ≤ now.size := by omega
  obtain ⟨next, hcopy, hrunning, hgrown, hother, hrefers⟩ :=
    filling.running.copyMember inst bound depth calm dataClass given hfresh dataMember new
  have hinstance : next.symbol ⟨table.size⟩ = now.symbol ⟨table.size⟩ :=
    hother ⟨table.size⟩ (show table.size ≠ now.size by omega)
  have hholds : (next.symbol ⟨table.size⟩).holdsMembers = true := by
    rw [hinstance]
    exact filling.filled.holds
  have hhead := fun id => Table.sameHead_enroll next ⟨table.size⟩ ⟨now.size⟩ id
  refine ⟨next, hcopy, hholds, hrunning.enroll hlt (Nat.le_refl _) hfresh, ?_⟩
  refine filling.filled.extend ?_ (fun id differs => ?_) ?_ ?_ fun refers => ?_
  · rw [Table.size_enroll, hgrown]
  · rw [(hhead id).type, hother id differs]
  · rw [(hhead _).holdsMembers, hinstance]
  · rw [Table.contents_enroll hholds, hinstance]
  · rw [(hhead _).type]
    exact hrefers refers

/-- The members that have not been copied yet are copied one by one. -/
theorem Filling.copyMembers (rest : List SymbolId)
    (filling : Filling table template templated args copies members now)
    (dataMembers : ∀ member ∈ rest, table.DataMember template templated member)
    (distinct : rest.Nodup) (new : ∀ member ∈ rest, copies.lookup member = none) :
    ∃ next copies, Analysis.copyMembers
        (Analysis.copyMember (copyContents (substituter inst (bound + 2) false) 0 (depth + 1)) 0)
        ⟨table.size⟩ rest now = .ok () next ∧
      Filling table template templated args copies (members ++ rest) next := by
  induction rest generalizing now copies members with
  | nil =>
      rw [List.append_nil]
      exact ⟨now, copies, rfl, filling⟩
  | cons member rest ih =>
      obtain ⟨hfirst, hrest⟩ := List.nodup_cons.mp distinct
      obtain ⟨next, hcopy, hholds, hfilling⟩ := filling.copyMember inst bound depth calm dataClass given
        (dataMembers member List.mem_cons_self) (new member List.mem_cons_self)
      have hnew : ∀ other ∈ rest, ((member, ⟨now.size⟩) :: copies).lookup other = none := by
        intro other inside
        have hother : other ≠ member := by
          rintro rfl
          exact hfirst inside
        rw [List.lookup_cons, beq_eq_false_iff_ne.mpr hother]
        exact new other (List.mem_cons_of_mem member inside)
      obtain ⟨last, others, hcopied, hend⟩ :=
        ih hfilling (fun other inside => dataMembers other (List.mem_cons_of_mem member inside)) hrest hnew
      rw [List.append_assoc] at hend
      refine ⟨last, others, ?_, hend⟩
      rw [Analysis.copyMembers, List.forM_eq_forM, List.forM_cons, bind_assoc, bind_ok hcopy,
        bind_ok (insertMember_apply hholds _)]
      exact hcopied

end Members

/-! ## The whole copy -/

/-- A step that can be taken wherever something holds, and that keeps it, can be taken for all elements of a
list. -/
theorem Analysis.forM_ok {α : Type} {good : Table → Prop} {step : α → Analysis PUnit} {list : List α}
    (each : ∀ x ∈ list, ∀ now, good now → ∃ next, step x now = .ok ⟨⟩ next ∧ good next) {now : Table}
    (start : good now) : ∃ last, list.forM step now = .ok ⟨⟩ last ∧ good last := by
  induction list generalizing now with
  | nil => exact ⟨now, rfl, start⟩
  | cons x rest ih =>
      obtain ⟨next, hstep, hnext⟩ := each x List.mem_cons_self now start
      obtain ⟨last, hrest, hlast⟩ := ih (fun y member => each y (List.mem_cons_of_mem x member)) hnext
      refine ⟨last, ?_, hlast⟩
      rw [List.forM_eq_forM, List.forM_cons, bind_ok hstep]
      exact hrest

section Whole

variable {table now begun : Table} {template templated : SymbolId} {args : List Descriptor}
  {copies : List (SymbolId × SymbolId)} {members : List SymbolId}

theorem Filling.copyDirectives (filling : Filling table template templated args copies members now)
    (ltTemplate : template.index < table.size) (directives : List UsingDirective) :
    ∃ next, Analysis.copyDirectives ⟨table.size⟩ directives now = .ok () next ∧
      Filling table template templated args copies members next := by
  refine forM_ok (fun directive _ now filling => ?_) filling
  refine ⟨_, rfl, filling.write ltTemplate ⟨table.size⟩ (Nat.le_refl _) _ ?_ ?_ ?_⟩
  all_goals
    rintro ⟨name, scope, type, inTemplate, access, target, named, origin, link, payload⟩
    cases payload <;> rfl

theorem Filling.linkCopies (filling : Filling table template templated args copies members now)
    (ltTemplate : template.index < table.size) :
    ∃ next, Analysis.linkCopies 0 now = .ok () next ∧
      Filling table template templated args copies members next := by
  rw [Analysis.linkCopies, get_bind, filling.running.copyContext_eq]
  refine forM_ok (fun pair member now filling => ?_) filling
  have hfresh := filling.running.fresh pair member
  obtain ⟨source, copy⟩ := pair
  dsimp only
  split
  · exact ⟨now, rfl, filling⟩
  · refine ⟨_, rfl, ?_⟩
    exact (filling.write ltTemplate copy hfresh _ (fun _ => rfl) (fun _ => rfl) fun _ => rfl).write ltTemplate copy
      hfresh _ (fun _ => rfl) (fun _ => rfl) fun _ => rfl

/-- The copy of the class begins: the instance is made and remembered. -/
theorem opens_copy (dataClass : table.DataClass template templated) (symbols : begun.symbols = table.symbols)
    (config : begun.config = table.config) (noWork : begun.templates.queue = [])
    (noContexts : begun.templates.contexts = #[]) (substitute : Substituter) (depth : Nat) :
    ∃ opened, copyTemplate substitute depth template args begun =
        (do
          copyContents substitute 0 depth templated ⟨table.size⟩
          linkCopies 0
          pure (⟨table.size⟩ : SymbolId) : Analysis SymbolId) opened ∧
      CopyRunning table template templated args ⟨table.size⟩ [(templated, ⟨table.size⟩)] opened ∧
      opened.size = table.size + 1 ∧
      (opened.symbol ⟨table.size⟩).payload = (table.symbol templated).payload.shell := by
  have hlt := dataClass.lt_size
  -- The copy makes the symbol of the instance, has the template remember it, and opens the context, in this order.
  have hsymbol : ∀ id, begun.symbol id = table.symbol id := Table.symbol_of_symbols_eq symbols
  have hsize : begun.size = table.size := Table.size_of_symbols_eq symbols
  have hdeclares : begun.templated? template = some templated := by
    rw [Table.templated?, hsymbol]
    exact dataClass.declares
  obtain ⟨shell, hshell⟩ : ∃ shell : Symbol, { (table.symbol templated).shell with
      scope := (table.symbol template).scope
      origin := some { template, args } } = shell := ⟨_, rfl⟩
  have hcreated : create shell begun = .ok ⟨table.size⟩ (begun.allocate shell).2 := by
    rw [← hsize]
    rfl
  have hallocated : (begun.allocate shell).2.symbol template = table.symbol template := by
    rw [Table.symbol_allocate (hsize ▸ hlt), hsymbol]
  have hisTemplate : ((begun.allocate shell).2.symbol template).isTemplate = true := by
    rw [hallocated]
    exact dataClass.isTemplate
  obtain ⟨remembered, hremembered⟩ : ∃ remembered, (begun.allocate shell).2.perform template
      (.append (.cached ⟨args, ⟨table.size⟩⟩)) = remembered := ⟨_, rfl⟩
  have hrecorded : recordInstance template args ⟨table.size⟩ (begun.allocate shell).2 = .ok () remembered := by
    rw [← hremembered]
    rfl
  have hnoContexts : remembered.templates.contexts = #[] := by
    rw [← hremembered]
    exact noContexts
  obtain ⟨context, hcontext⟩ : ∃ context : CopyContext, ⟨templated,
      ((table.symbol template).parameters.zip args).reverse, [(templated, ⟨table.size⟩)]⟩ = context := ⟨_, rfl⟩
  have hopened : openContext context remembered = .ok 0
      { remembered with templates := { remembered.templates with contexts := #[context] } } := by
    show EStateM.Result.ok remembered.templates.contexts.size { remembered with
      templates := { remembered.templates with contexts := remembered.templates.contexts.push context } } = _
    rw [hnoContexts]
    rfl
  have hgrows : table.Grows remembered := by
    rw [← hremembered]
    exact (Table.Grows.of_symbols symbols config).trans ((Table.Grows.allocate begun shell).trans
      (Table.Grows.perform _ template trivial))
  refine ⟨{ remembered with templates := { remembered.templates with contexts := #[context] } }, ?_,
    ⟨hgrows.trans (.of_symbols rfl rfl), ?_, ?_, ?_, ?_, ?_⟩, ?_, ?_⟩
  · rw [copyTemplate, get_bind]
    simp only [hdeclares]
    rw [hsymbol, hsymbol, hshell, bind_ok hcreated, bind_ok hrecorded, hcontext, bind_ok hopened]
  · rw [← hcontext]
  · show remembered.templates.queue = []
    rw [← hremembered]
    exact noWork
  · show (remembered.symbol template).instances = _
    rw [← hremembered, instances_perform hisTemplate, hallocated]
  · simp
  · simp
  · show remembered.size = _
    rw [← hremembered, Table.size_perform, Table.size_allocate, hsize]
  · show (remembered.symbol ⟨table.size⟩).payload = _
    have hne : template ≠ ⟨table.size⟩ := by
      rintro rfl
      exact Nat.lt_irrefl _ hlt
    have hpushed : (begun.allocate shell).2.symbols = begun.symbols.push shell := rfl
    rw [← hremembered, Table.symbol_perform_of_ne _ _ hne, Table.symbol_of_push hpushed, if_pos hsize.symm,
      ← hshell]
    rfl

section Contents

variable {opened : Table} (inst : Instantiator) (bound : Nat) (calm : table.Calm)
  (dataClass : table.DataClass template templated) (given : table.NewArguments template args)
  (running : CopyRunning table template templated args ⟨table.size⟩ [(templated, ⟨table.size⟩)] opened)
  (size : opened.size = table.size + 1)
  (payload : (opened.symbol ⟨table.size⟩).payload = (table.symbol templated).payload.shell)

include calm dataClass given running size payload

/-- The type of the class is read first.  The instance has no members yet. -/
theorem substituteInto_class :
    ∃ typed, substituteInto (substituter inst (bound + 2) false) 0 ⟨table.size⟩ .type
        (table.symbol templated).type opened = .ok () typed ∧
      Filling table template templated args [(templated, ⟨table.size⟩)] [] typed := by
  obtain ⟨result, hread, -⟩ := running.substitute_memberType calm dataClass given
    (.builtin dataClass.builtin dataClass.noArgs) dataClass.noDefault (calm.represented.type_below templated)
  obtain ⟨typed, htyped⟩ : ∃ typed, opened.perform ⟨table.size⟩ (.assign (.type result)) = typed := ⟨_, rfl⟩
  have hempty : (typed.symbol ⟨table.size⟩).payload = .cls {} := by
    obtain ⟨decls, hpayload⟩ := dataClass.isClass
    have hbound : (⟨table.size⟩ : SymbolId) = ⟨table.size⟩ ∧ table.size < opened.size := ⟨rfl, by omega⟩
    rw [← htyped, Table.symbol_perform, if_pos hbound]
    show (opened.symbol ⟨table.size⟩).payload = _
    rw [payload, hpayload]
    rfl
  have hnone : (typed.symbol ⟨table.size⟩).contents = [] := by
    rw [Symbol.contents, Symbol.decls?, hempty]
    rfl
  refine ⟨typed, htyped ▸ substituteInto_read hread,
    htyped ▸ running.perform dataClass.lt_size _ (Nat.le_refl _), ?_, ?_, ?_⟩
  · rw [← htyped, Table.size_perform, size]
    rfl
  · rw [Symbol.holdsMembers, Symbol.decls?, hempty]
    rfl
  · rw [hnone]
    exact .nil

/-- The contents of the class are copied into the instance. -/
theorem copyContents_data :
    ∃ last copies, copyContents (substituter inst (bound + 2) false) 0 (bound + 2) templated ⟨table.size⟩ opened =
        .ok () last ∧
      Filling table template templated args copies (table.symbol templated).contents last := by
  obtain ⟨decls, hpayload⟩ := dataClass.isClass
  have hclass := running.grows.symbols templated (calm.represented.templated?_lt dataClass.declares)
  have hisClass : (opened.symbol templated).payload = .cls { decls } :=
    (hclass.payload (by rw [Symbol.templateData?, hpayload])).trans hpayload
  have hcontents : (table.symbol templated).contents = decls.contents := by
    rw [Symbol.contents, Symbol.decls?, hpayload]
    rfl
  -- The class has a copy already, but it is no member of itself.
  have hnew : ∀ member ∈ (table.symbol templated).contents,
      [(templated, (⟨table.size⟩ : SymbolId))].lookup member = none := by
    intro member inside
    have hne : member ≠ templated := by
      rintro rfl
      have hbasic := (dataClass.members member inside).basic
      rw [hpayload] at hbasic
      cases hbasic
    rw [List.lookup_cons, beq_eq_false_iff_ne.mpr hne]
    rfl
  obtain ⟨typed, htype, htyped⟩ := substituteInto_class inst bound calm dataClass given running size payload
  obtain ⟨copied, copies, hmembers, hcopied⟩ := htyped.copyMembers inst bound bound calm dataClass given
    (table.symbol templated).contents dataClass.members dataClass.distinctMembers hnew
  obtain ⟨last, hdirectives, hlast⟩ := hcopied.copyDirectives dataClass.lt_size decls.directives
  refine ⟨last, copies, ?_, hlast⟩
  rw [copyContents_class hisClass, hclass.type, bind_ok htype, ← hcontents, bind_ok hmembers]
  exact hdirectives

end Contents

/-- The copy is complete when all members are copied: no work has been left for later. -/
theorem completeCopy_data (calm : table.Calm) (dataClass : table.DataClass template templated)
    (given : table.NewArguments template args) (symbols : begun.symbols = table.symbols)
    (config : begun.config = table.config) (noWork : begun.templates.queue = [])
    (noContexts : begun.templates.contexts = #[]) (inst : Instantiator) (bound : Nat) (name : Name) (passes : Nat) :
    ∃ last copies, completeCopy inst (bound + 2) template args name passes begun = .ok ⟨table.size⟩ last ∧
      Filling table template templated args copies (table.symbol templated).contents last := by
  obtain ⟨opened, hcopy, hrunning, hsize, hinstance⟩ := opens_copy dataClass symbols config noWork noContexts
    (substituter inst (bound + 2) false) (bound + 2)
  obtain ⟨filled, copies, hcontents, hfilled⟩ :=
    copyContents_data inst bound calm dataClass given hrunning hsize hinstance
  obtain ⟨last, hlinks, hlast⟩ := hfilled.linkCopies dataClass.lt_size
  refine ⟨last, copies, ?_, hlast⟩
  -- The queue is found empty before a pass is counted, so that even none will do.
  have hdrain : drainQueue (substituter inst (bound + 2) true) name passes last = .ok () last := by
    have hdone : last.templates.queue.isEmpty = true := List.isEmpty_iff.mpr hlast.running.noWork
    cases passes <;> rw [drainQueue, get_bind, if_pos hdone] <;> rfl
  have hmade : copyTemplate (substituter inst (bound + 2) false) (bound + 2) template args begun =
      .ok ⟨table.size⟩ last := by
    rw [hcopy, bind_ok hcontents, bind_ok hlinks]
    rfl
  rw [completeCopy, bind_ok hmade, bind_ok hdrain]
  rfl

end Whole

/-! ## Instantiating the class -/

namespace Analysis

variable {table after : Table} {inst copy : Instantiator} {depth : Nat}

/-- A resolved type is a typedef if it was one: only what it names is seen through. -/
theorem isTypedef_resolveTemplateIds {type resolved : Descriptor}
    (ends : resolveTemplateIds inst depth type table = .ok resolved after) :
    resolved.isTypedef = type.isTypedef := by
  cases depth with
  | zero => cases ends
  | succ depth =>
      have hflat := table.isTypedef_flattenSteps (table.size + 1) type
      cases resolveTemplateIds_eq_ok.mp ends with
      | plain => exact hflat
      | made => exact hflat
      | kept => exact hflat

/-- Where an argument is given for every parameter, these are resolved, and nothing is added. -/
theorem completedArguments_explicit (calm : table.Calm) {handle : SymbolId} {args completed : List Descriptor}
    {bound : Nat} (below : ∀ arg ∈ args, arg.Below table.size) (lt : handle.index < table.size)
    (explicit : args.length = (table.symbol (table.canonical handle)).parameters.length)
    (noTypedef : ∀ arg ∈ args, arg.isTypedef = false)
    (ends : completedArguments (instantiateWithin bound) depth handle args table = .ok completed after) :
    completed.length = args.length ∧
      ∀ value ∈ completed, value.isTypedef = false ∧ value.defaultValue = none := by
  obtain ⟨resolved, middle, hresolved, hcompleted⟩ := completedArguments_eq_ok.mp ends
  obtain ⟨-, hcompleted⟩ := completeArguments_eq_ok.mp hcompleted
  obtain ⟨hcount, hvalues⟩ := mapM_values hresolved
  obtain ⟨hmiddle, -⟩ :=
    ((recalls_instantiateWithin middle bound).resolveTemplateIds depth).advances_mapM calm below hresolved
  have hlength : resolved.length = (middle.symbol (table.canonical handle)).parameters.length := by
    rw [(hmiddle.grows.symbols _ (calm.represented.canonical_lt lt)).parameters, ← explicit, hcount]
  rw [completeFrom_complete hlength] at hcompleted
  cases hcompleted
  refine ⟨by rw [List.length_map, hcount], fun value member => ?_⟩
  obtain ⟨other, hother, rfl⟩ := List.mem_map.mp member
  obtain ⟨arg, harg, before, last, hvalue⟩ := hvalues other hother
  exact ⟨(isTypedef_resolveTemplateIds hvalue).trans (noTypedef arg harg), rfl⟩

end Analysis

open Table in
/-- A class template whose members mention no template but itself, applied to its own parameters, is instantiated
once, whatever number of passes over queued work is allowed.  Let the arguments be given for all parameters, valid
and without the typedef specifier; let their resolved form be concrete, fit the parameters and have no instance;
and let it name neither a typedef nor a declaration that another one stands for.  Then the instantiation succeeds.
It remembers one instance more, makes one symbol for the instance and one for each member and nothing else, and a
member that refers to the template has a copy that refers to the instance. -/
theorem instantiate_self_referential (table : Table) (calm : table.Calm) (handle template templated : SymbolId)
    (stands : table.canonical handle = template) (dataClass : table.DataClass template templated)
    (deep : 2 < table.config.nestingLimit) (args : List Descriptor)
    (below : ∀ arg ∈ args, arg.Below table.size) (valid : args.all (·.isValid) = true)
    (explicit : args.length = (table.symbol template).parameters.length)
    (noTypedef : ∀ arg ∈ args, arg.isTypedef = false) (completed : List Descriptor) (resolved : Table)
    (completes : completedFor handle args table = .ok completed resolved)
    (concrete : resolved.anyDependent completed = false)
    (fits : firstMismatch? resolved (table.symbol template).parameters completed = none)
    (unknown : resolved.existingInstance? template completed = none)
    (named : ∀ arg ∈ completed, resolved.NamesItself arg) :
    ∃ after, instantiate handle args table = .ok ⟨resolved.size⟩ after ∧
      (after.symbol template).instances =
        (resolved.symbol template).instances ++ [⟨completed, ⟨resolved.size⟩⟩] ∧
      after.size = resolved.size + 1 + (table.symbol templated).contents.length ∧
      List.Forall₂ (fun member copy => table.SelfReference template templated (table.symbol member).type →
          (after.symbol copy).type.link = some ⟨resolved.size⟩)
        (table.symbol templated).contents (after.symbol ⟨resolved.size⟩).contents := by
  obtain ⟨bound, hbound⟩ := Nat.exists_eq_add_of_lt deep
  have hlimit : table.config.nestingLimit = bound + 2 + 1 := by omega
  subst stands
  have hisTemplate := dataClass.isTemplate
  have hhandle := Table.lt_size_of_canonical hisTemplate
  have hcompleted : completedArguments (instantiateWithin (bound + 2)) (bound + 2) handle args table =
      .ok completed resolved := by
    rw [completedFor, get_bind, hlimit] at completes
    exact completes
  -- What is declared stays while the arguments are resolved.
  obtain ⟨⟨hgrows, hcalm⟩, hbelow⟩ :=
    (recalls_instantiateWithin resolved (bound + 2)).advances_completedArguments calm below hcompleted
  have hclass := dataClass.grown hgrows calm
  have htemplate := hgrows.symbols _ dataClass.lt_size
  obtain ⟨hlength, hvalues⟩ := completedArguments_explicit calm below hhandle explicit noTypedef hcompleted
  have hgiven : resolved.NewArguments (table.canonical handle) completed := by
    refine ⟨?_, hbelow, concrete, named, fun value member => (hvalues value member).1,
      fun value member => (hvalues value member).2, unknown⟩
    rw [htemplate.parameters, hlength, explicit]
  have hconcrete : ((table.symbol (table.canonical handle)).isTemplateParameter ||
      resolved.anyDependent completed) = false := by
    rw [dataClass.proper, concrete]
    rfl
  have hfits : firstMismatch? resolved (resolved.symbol (table.canonical handle)).parameters completed = none := by
    rw [htemplate.parameters]
    exact fits
  have hidle := hcalm.idle
  -- The copy starts from the table in which the arguments are resolved.
  have hbegun : resolved.copyBegun.symbols = resolved.symbols := rfl
  obtain ⟨last, copies, hcopy, hlast⟩ := completeCopy_data hcalm hclass hgiven hbegun rfl
    (by show resolved.templates.queue = []; rw [hidle]) (by show resolved.templates.contexts = #[]; rw [hidle])
    (instantiateWithin (bound + 2)) bound (resolved.symbol (table.canonical handle)).name resolved.config.passLimit
  obtain ⟨after, hafter, -, hsymbols, -⟩ :=
    outermostCopy_ok (copiesFrom_completeCopy (bound + 2) _ completed resolved _ _) hidle hcopy
  have hsymbol : ∀ id, after.symbol id = last.symbol id := Table.symbol_of_symbols_eq hsymbols
  have hcontents : (resolved.symbol templated).contents = (table.symbol templated).contents :=
    (hgrows.symbols _ (calm.represented.templated?_lt dataClass.declares)).contents
  refine ⟨after, ?_, ?_, ?_, ?_⟩
  · rw [instantiate, get_bind, hlimit]
    refine instantiateStep_eq_ok.mpr ⟨hisTemplate, valid, completed, resolved, hcompleted, ?_⟩
    rw [instanceFor_fits hconcrete hfits, concreteInstance_copied unknown hclass.noSpecializations,
      instantiateUncached_idle hidle]
    exact hafter
  · rw [hsymbol]
    exact hlast.running.cached
  · rw [Table.size_of_symbols_eq hsymbols, hlast.filled.size, hcontents]
  · rw [hsymbol, ← hcontents]
    -- What the member referred to before the arguments were resolved, it refers to afterwards.
    refine hlast.filled.copied.imp fun member copy copied refers => ?_
    have hmember := refers.lt_size
    have hbelow := calm.represented.type_below member
    rw [hsymbol]
    refine copied.refers ?_
    rw [(hgrows.symbols member hmember).type]
    exact refers.grown hgrows calm dataClass.lt_size hbelow

/-! ## A run -/

/-- A class template 1 with the parameter 2, whose class 3 has a value 4 of the parameter and links 5 and 7 to
itself, one as a template-id and one as the placeholder 6. -/
def declareLinked : List Action :=
  declareTemplate 1 ⟨17⟩ (.createClass ⟨17⟩ .struct) ++
    [.perform (.createBasic ⟨19⟩ (.ofSymbol ⟨2⟩)),
      .perform (.createBasic ⟨20⟩ (Descriptor.templateId ⟨1⟩ [.ofSymbol ⟨2⟩]).pointer),
      .perform (.instantiate ⟨1⟩ [.ofSymbol ⟨2⟩]),
      .perform (.createBasic ⟨21⟩ (Descriptor.ofSymbol ⟨6⟩).pointer),
      .perform (.addSymbol ⟨3⟩ ⟨4⟩), .perform (.addSymbol ⟨3⟩ ⟨5⟩), .perform (.addSymbol ⟨3⟩ ⟨7⟩),
      .perform (.addSymbol ⟨0⟩ ⟨1⟩)]

/-- The table in which no pass over queued work is allowed. -/
@[irreducible]
def linkedTable : Table := (Table.new { passLimit := 0, nestingLimit := 3 }).ran declareLinked

theorem calm_linkedTable : linkedTable.Calm := by
  have hreached : Reached Action.Joins ((Table.new { passLimit := 0, nestingLimit := 3 }).ran declareLinked) :=
    Reached.ran (.new _) (by decide +kernel)
  rw [linkedTable]
  exact hreached.calm

theorem outsideOf_linkedTable : linkedTable.OutsideOf ⟨1⟩ ⟨3⟩ ⟨1⟩ := by
  have hscope : (linkedTable.symbol ⟨1⟩).scope = some ⟨0⟩ := by decide +kernel
  exact ⟨by decide +kernel, _, .inside hscope (.last (by decide +kernel)), by decide⟩

/-- The first link is a template-id, and the second one is a placeholder. -/
theorem selfReferences_linkedTable :
    linkedTable.SelfReference ⟨1⟩ ⟨3⟩ (linkedTable.symbol ⟨5⟩).type ∧
      linkedTable.SelfReference ⟨1⟩ ⟨3⟩ (linkedTable.symbol ⟨7⟩).type := by
  have hown : linkedTable.OwnParameters ⟨1⟩ [.ofSymbol ⟨2⟩] := by
    have hparameters : (linkedTable.symbol ⟨1⟩).parameters = [⟨2⟩] := by decide +kernel
    rw [Table.OwnParameters, hparameters]
    exact .cons ⟨rfl, rfl, rfl, rfl, rfl⟩ .nil
  refine ⟨?templateId, ?placeholder⟩
  case templateId =>
    have htype : (linkedTable.symbol ⟨5⟩).type = (Descriptor.templateId ⟨1⟩ [.ofSymbol ⟨2⟩]).pointer := by
      rw [linkedTable]
      cbv
    rw [htype]
    exact .templateId rfl outsideOf_linkedTable (by rw [linkedTable]; cbv) (by decide +kernel) hown
  case placeholder =>
    have htype : (linkedTable.symbol ⟨7⟩).type = (Descriptor.ofSymbol ⟨6⟩).pointer := by rw [linkedTable]; cbv
    have huse : (linkedTable.symbol ⟨6⟩).placeholder? = some ⟨⟨1⟩, [.ofSymbol ⟨2⟩]⟩ := by rw [linkedTable]; cbv
    have houtside : linkedTable.OutsideOf ⟨1⟩ ⟨3⟩ ⟨6⟩ :=
      ⟨by decide +kernel, _, .last (by decide +kernel), by decide⟩
    rw [htype]
    exact .placeholder rfl houtside rfl huse rfl hown

theorem dataClass_linkedTable : linkedTable.DataClass ⟨1⟩ ⟨3⟩ := by
  have hmembers : (linkedTable.symbol ⟨3⟩).contents = [⟨4⟩, ⟨5⟩, ⟨7⟩] := by decide +kernel
  have hvalue : linkedTable.MemberType ⟨1⟩ ⟨3⟩ (linkedTable.symbol ⟨4⟩).type := by
    have htype : (linkedTable.symbol ⟨4⟩).type = .ofSymbol ⟨2⟩ := by rw [linkedTable]; cbv
    rw [htype]
    exact .parameter rfl (by decide +kernel) rfl
  exact
    { canonical := by decide +kernel
      proper := by decide +kernel
      declares := by decide +kernel
      someParameter := by decide +kernel
      distinctParameters := by decide +kernel
      noExplicits := by rw [linkedTable]; cbv
      noSpecializations := by decide +kernel
      outside := outsideOf_linkedTable
      isClass := ⟨_, by rw [linkedTable]; cbv⟩
      builtin := by decide +kernel
      noArgs := by decide +kernel
      noDefault := by decide +kernel
      distinctMembers := by decide +kernel
      members := by
        simp only [hmembers, List.forall_mem_cons, List.not_mem_nil, IsEmpty.forall_iff, implies_true, and_true]
        refine ⟨⟨?_, ?_, hvalue, ?_⟩, ⟨?_, ?_, .itself selfReferences_linkedTable.1, ?_⟩,
          ⟨?_, ?_, .itself selfReferences_linkedTable.2, ?_⟩⟩
        all_goals
          rw [linkedTable]
          cbv }

/-- For `int` there is one instance, with three members, and both links refer to it. -/
theorem linked_class_instantiated_once :
    ∃ after, instantiate ⟨1⟩ [.ofKind .int] linkedTable = .ok ⟨8⟩ after ∧
      (after.symbol ⟨1⟩).instances = [⟨[.ofKind .int], ⟨8⟩⟩] ∧ after.size = 12 ∧
      ∃ value next back, (after.symbol ⟨8⟩).contents = [value, next, back] ∧
        (after.symbol next).type.link = some ⟨8⟩ ∧ (after.symbol back).type.link = some ⟨8⟩ := by
  have hcompletes : completedFor ⟨1⟩ [.ofKind .int] linkedTable = .ok [.ofKind .int] linkedTable :=
    completedFor_full (by decide +kernel) (by decide +kernel) (by decide +kernel)
  have hmembers : (linkedTable.symbol ⟨3⟩).contents = [⟨4⟩, ⟨5⟩, ⟨7⟩] := by decide +kernel
  have hsize : linkedTable.size = 8 := by decide +kernel
  have hinstances : (linkedTable.symbol ⟨1⟩).instances = [] := by decide +kernel
  obtain ⟨after, hends, hremembered, hnew, hcopies⟩ := instantiate_self_referential linkedTable calm_linkedTable
    ⟨1⟩ ⟨1⟩ ⟨3⟩ (by decide +kernel) dataClass_linkedTable (by decide +kernel) [.ofKind .int]
    (by simpa using Descriptor.Below.ofKind _ _) (by decide +kernel) (by decide +kernel) (by decide +kernel)
    [.ofKind .int] linkedTable hcompletes (by decide +kernel) (by decide +kernel) (by decide +kernel)
    (by simp [Table.NamesItself, Descriptor.ofKind])
  rw [hsize] at hends hremembered hnew hcopies
  rw [hinstances] at hremembered
  rw [hmembers] at hnew hcopies
  refine ⟨after, hends, hremembered, hnew, ?_⟩
  generalize (after.symbol ⟨8⟩).contents = copies at hcopies
  obtain - | ⟨-, - | ⟨hnext, - | ⟨hback, - | -⟩⟩⟩ := hcopies
  exact ⟨_, _, _, rfl, hnext selfReferences_linkedTable.1, hback selfReferences_linkedTable.2⟩

end NameBinding
