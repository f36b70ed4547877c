import DecafTac.Proofs.Storage.Cycles

/-!
The order of the top level. When a program has other top-level declarations first but the same ones in
all, and no two of them have one name, then every name means what it did. So the same is wrong with the
program, and its classes stand in for the same types; where no classes extend one another in a circle,
they have the same layouts too.
-/
namespace DecafTac

open Relation (ReflTransGen TransGen)

/-- The same top-level declarations in another order, no two of them of one name. -/
structure Program.Reordered (one other : Program) : Prop where
  arena : one.arena = other.arena
  top : one.top.Perm other.top
  names : (one.top.map Decl.name).Nodup

/-- Of different names, a list has one at most under a name. -/
private theorem filter_name_eq {some_order other : List Decl} (perm : some_order.Perm other)
    (names : (some_order.map Decl.name).Nodup) (name : String) :
    some_order.filter (·.name == name) = other.filter (·.name == name) := by
  have kept := perm.filter (·.name == name)
  have single := names.sublist ((List.filter_sublist (p := (·.name == name))).map Decl.name)
  have named : ∀ d ∈ some_order.filter (·.name == name), d.name = name := by
    intro d member
    simpa using (List.mem_filter.mp member).2
  generalize some_order.filter (·.name == name) = found at kept single named ⊢
  match found with
  | [] => rw [List.nil_perm.mp kept]
  | [d] => rw [List.singleton_perm.mp kept]
  | a :: b :: rest =>
    have same : a.name = b.name := by
      rw [named a (by simp), named b (by simp)]
    simp [same] at single

namespace Program

variable {one other : Program}

theorem meaningAt_eq (program : Program) (kinds : List DeclKind) (name : String) (node : Node) :
    program.meaningAt kinds name node =
      ((program.declared node).filter (·.name == name)).reverse.find? fun d =>
        kinds.contains d.kind := by
  rw [meaningAt, ← List.filter_reverse, List.find?_filter]
  simp only [Bool.decide_and, Bool.decide_eq_true]

namespace Reordered

variable (reordered : one.Reordered other)

include reordered

theorem declared_named (node : Node) (name : String) :
    (one.declared node).filter (·.name == name) = (other.declared node).filter (·.name == name) := by
  cases node with
  | program => exact filter_name_eq reordered.top reordered.names name
  | decl | stmt | expr => simp only [declared, reordered.arena]

/-- Names mean the same. -/
theorem meaning : one.meaning = other.meaning := by
  have here : one.meaningAt = other.meaningAt := by
    funext kinds name node
    rw [meaningAt_eq, meaningAt_eq, reordered.declared_named]
  funext kinds name node
  rw [Program.meaning, Program.meaning, reordered.arena, here]

theorem superclass? : one.superclass? = other.superclass? := by
  funext d
  rw [Program.superclass?, Program.superclass?, reordered.meaning]

theorem base? : one.base? = other.base? := by
  funext d
  rw [Program.base?, Program.base?, reordered.superclass?]

theorem supertypes : one.supertypes = other.supertypes := by
  funext d
  rw [Program.supertypes, Program.supertypes, interfacesNamed, interfacesNamed, reordered.base?,
    reordered.meaning]

theorem classType : one.classType = other.classType := by
  funext d
  rw [Program.classType, Program.classType, interfacesNamed, interfacesNamed, reordered.base?,
    reordered.meaning]

theorem clauseFaults : one.clauseFaults = other.clauseFaults := by
  funext d
  rw [Program.clauseFaults, Program.clauseFaults, extendsFaults, extendsFaults, implementsFaults,
    implementsFaults, reordered.superclass?, reordered.meaning]

theorem subtrees : one.subtrees.Perm other.subtrees :=
  (reordered.top.map _).flatMap_right _

theorem classes : one.classes.Perm other.classes :=
  reordered.subtrees.filterMap _

theorem under : one.Under = other.Under := by
  funext low high
  rw [Program.Under, Program.Under, reordered.supertypes, reordered.classes.mem_iff]

theorem extends_eq : one.Extends = other.Extends := by
  funext low high
  rw [Extends, Extends, reordered.base?, reordered.classes.mem_iff]

/-- The same is wrong with every tree. -/
theorem ownFaults : one.ownFaults = other.ownFaults := by
  have names : one.nameFaults = other.nameFaults := by
    funext kinds name node
    rw [nameFaults, nameFaults, reordered.meaning]
  have types : one.typeFaults = other.typeFaults := by
    funext type node
    rw [typeFaults, typeFaults, names]
  have conflicts : one.conflictFaults = other.conflictFaults := by
    funext d outer
    rw [conflictFaults, conflictFaults, reordered.declared_named]
  have clashes : one.Clashes = other.Clashes := by
    funext cls d signature
    simp only [Clashes, clashesAt, reordered.under, reordered.declared_named]
  have overrides : one.overrideFaults = other.overrideFaults := by
    funext d
    rw [overrideFaults, overrideFaults, clashes, reordered.arena]
  funext t
  cases t with
  | decl d =>
    rw [Program.ownFaults, Program.ownFaults, declFaults, declFaults, conflicts, types, overrides,
      reordered.arena]
  | stmt => rfl
  | expr e =>
    change one.exprFaults e = other.exprFaults e
    unfold exprFaults
    rw [names, types, reordered.arena]

omit reordered in
/-- Layouts depend on what classes extend, and on nothing else. -/
theorem lays_of_base (same : one.base? = other.base?) {slotSize : Int} {cut : Decl → Prop} {cls : Decl}
    {layout : ClassLayout} (lays : one.Lays slotSize cut cls layout) :
    other.Lays slotSize cut cls layout := by
  induction lays with
  | root alone =>
    rw [same] at alone
    exact .root alone
  | derived kept link _ ih =>
    rw [same] at link
    exact .derived kept link ih

/-- Under a name stands the same declaration. -/
theorem find_top (fits : Decl → Bool) (name : String) :
    (one.top.find? fun d => fits d && d.name == name) =
      other.top.find? fun d => fits d && d.name == name := by
  apply List.find?_eq_find?_of_perm reordered.top
  rintro a ⟨first, fit⟩ b ⟨second, fit'⟩
  simp only [Bool.and_eq_true, beq_iff_eq] at fit fit'
  exact List.inj_on_of_nodup_map reordered.names first second (fit.2.trans fit'.2.symm)

/-- Under a name stands the same layout, when no link is given up in either order. -/
theorem lays_same {slotSize : Int} {name : String} {found found' : Option ClassLayout}
    (here : Option.Rel (one.Lays slotSize fun _ => False)
      (one.top.find? fun d => d.isClass && d.name == name) found)
    (there : Option.Rel (other.Lays slotSize fun _ => False)
      (other.top.find? fun d => d.isClass && d.name == name) found') : found = found' := by
  rw [← reordered.find_top Decl.isClass] at there
  generalize (one.top.find? fun d => d.isClass && d.name == name) = chosen at here there
  cases here with
  | none =>
    cases there
    rfl
  | some lays =>
    cases there with
    | some lays' => rw [lays.unique (lays_of_base reordered.base?.symm lays')]

end Reordered

/-- Where no classes extend one another in a circle, none is chosen to break one. -/
theorem Breaks.eq_nil {program : Program} {chosen : List Decl} (breaks : program.Breaks chosen)
    (acyclic : ∀ cls, ¬ TransGen program.Extends cls cls) : chosen = [] := by
  apply List.eq_nil_iff_forall_not_mem.mpr
  intro cls member
  exact acyclic cls (breaks.loops cls member).1

end Program

/-! ## Analysis -/

/-- Analysis of a program whose classes do not extend one another in a circle: what it finds is told by
the source alone. -/
theorem Program.Anchored.analyze_acyclic {program : Program} (anchored : program.Anchored)
    (acyclic : ∀ cls, ¬ TransGen program.Extends cls cls) (shape : FrameShape) :
    ∃ analysis, program.analyze shape = .ok analysis ∧
      (∀ name, Option.Rel (program.Lays shape.slotSize fun _ => False)
        (program.top.find? fun d => d.isClass && d.name == name) (analysis.layouts.class? name)) ∧
      (∀ cls, analysis.hierarchy.get? cls =
        (program.classes.find? (·.id == cls)).map program.classType) ∧
      (∀ name, analysis.layouts.functions.function? name =
        (program.top.find? fun d => d.isFunction && d.name == name).bind FunctionTable.entryOf?) ∧
      analysis.reports.Perm (program.classes.flatMap program.clauseFaults ++
        program.subtrees.flatMap program.ownFaults) := by
  obtain ⟨linked, faults, laid, settled, checked, finished, ran⟩ := anchored.analyze_run shape
  have heads := (finished.heads_break anchored settled).eq_nil acyclic
  have cuts := (finished.cuts_break anchored).eq_nil acyclic
  refine ⟨_, ran, ?_, ?_, ?_, ?_⟩
  · exact finished.lays_all anchored settled cuts
  · exact settled.hierarchy anchored
  · exact FunctionTable.function?_ofDecls program.top
  · have none : laid.reports = [] := by
      rw [finished.cutting.reports_eq, heads]
      rfl
    rw [Analysis.reports, none, List.append_nil]
    exact settled.reports.append checked

/-- Analysis of a program and of the same program in another order. -/
theorem Program.Reordered.analyze {one other : Program} (reordered : one.Reordered other)
    (first : one.Anchored) (second : other.Anchored)
    (acyclic : ∀ cls, ¬ TransGen one.Extends cls cls) (shape : FrameShape) :
    ∃ a b, one.analyze shape = .ok a ∧ other.analyze shape = .ok b ∧
      (∀ name, a.layouts.class? name = b.layouts.class? name) ∧
      (∀ cls, a.hierarchy.get? cls = b.hierarchy.get? cls) ∧
      (∀ name, a.layouts.functions.function? name = b.layouts.functions.function? name) ∧
      a.reports.Perm b.reports := by
  obtain ⟨a, ran, layouts, types, functions, reports⟩ := first.analyze_acyclic acyclic shape
  have acyclic' : ∀ cls, ¬ TransGen other.Extends cls cls := by
    rw [← reordered.extends_eq]
    exact acyclic
  obtain ⟨b, ran', layouts', types', functions', reports'⟩ := second.analyze_acyclic acyclic' shape
  refine ⟨a, b, ran, ran', ?_, ?_, ?_, ?_⟩
  · exact fun name => reordered.lays_same (layouts name) (layouts' name)
  · intro cls
    have found : one.classes.find? (·.id == cls) = other.classes.find? (·.id == cls) := by
      apply List.find?_eq_find?_of_perm reordered.classes
      rintro c ⟨member, same⟩ d ⟨member', same'⟩
      rw [beq_iff_eq] at same same'
      exact first.class_inj member member' (same.trans same'.symm)
    rw [types, types', found, reordered.classType]
  · intro name
    rw [functions, functions', reordered.find_top Decl.isFunction]
  · refine reports.trans (List.Perm.trans ?_ reports'.symm)
    rw [reordered.clauseFaults, reordered.ownFaults]
    exact (reordered.classes.flatMap_right _).append (reordered.subtrees.flatMap_right _)

/-! ## Closing over another order -/

namespace Arena

variable {arena : Arena}

private theorem modify_comm {α : Type} (xs : Array α) (i j : Nat) (f : α → α) :
    (xs.modify i f).modify j f = (xs.modify j f).modify i f := by
  apply Array.ext_getElem?
  intro index
  simp only [Array.getElem?_modify]
  by_cases first : i = index <;> by_cases second : j = index <;> simp [first, second]

/-- It does not matter in which order nodes are given their parent. -/
theorem adoptAll_perm (parent : Node) {children others : List Node} (perm : children.Perm others) :
    arena.adoptAll parent children = arena.adoptAll parent others := by
  have : RightCommutative fun (arena : Arena) (child : Node) => arena.adopt parent child := by
    constructor
    intro arena a b
    cases a <;> cases b <;> simp only [adopt, modify_comm]
  exact perm.foldl_eq arena

/-- A built arena can be closed over ready declarations. -/
theorem close_ready {top : List DeclId} (ready : arena.Ready (top.map .decl)) :
    arena.close top =
      .ok ⟨arena.adoptAll .program (top.map .decl), top.filterMap arena.decl?⟩ := by
  rw [close, Check.mapM_decl]
  · rfl
  · intro id member
    have stored := ready.stored (.decl id) (List.mem_map_of_mem member)
    simpa [tree?] using stored

theorem Ready.perm {children others : List Node} (ready : arena.Ready children)
    (perm : children.Perm others) : arena.Ready others where
  stored child member := ready.stored child (perm.mem_iff.mpr member)
  unclaimed child member := ready.unclaimed child (perm.mem_iff.mpr member)
  distinct := perm.nodup_iff.mp ready.distinct

end Arena

/-- Order of the top level. Two programs closed over the same declarations of an arena, in whatever
order, are analysed alike when no two of these have one name and no classes extend one another in a
circle: each name has the same class layout and the same function, each class can stand in for the same
types, and the same reports are made, though not in the same order. -/
theorem Program.analysis_order_free {arena : Arena} {top reordered : List DeclId} {one : Program}
    (built : arena.Built) (ready : arena.Ready (top.map .decl)) (perm : top.Perm reordered)
    (closed : arena.close top = .ok one) (names : (one.top.map Decl.name).Nodup)
    (acyclic : ∀ cls, ¬ Relation.TransGen one.Extends cls cls) (shape : FrameShape) :
    ∃ other a b, arena.close reordered = .ok other ∧
      one.analyze shape = .ok a ∧ other.analyze shape = .ok b ∧
      (∀ name, a.layouts.class? name = b.layouts.class? name) ∧
      (∀ cls, a.hierarchy.get? cls = b.hierarchy.get? cls) ∧
      (∀ name, a.layouts.functions.function? name = b.layouts.functions.function? name) ∧
      a.reports.Perm b.reports := by
  have again := ready.perm (perm.map Node.decl)
  have same := Arena.close_ready ready
  rw [closed] at same
  cases same
  have swapped : Program.Reordered ⟨arena.adoptAll .program (top.map .decl), top.filterMap arena.decl?⟩
      ⟨arena.adoptAll .program (reordered.map .decl), reordered.filterMap arena.decl?⟩ :=
    ⟨Arena.adoptAll_perm _ (perm.map _), perm.filterMap _, names⟩
  have first : Program.Built ⟨arena.adoptAll .program (top.map .decl), top.filterMap arena.decl?⟩ :=
    ⟨arena, top, built, ready, closed⟩
  have second : Program.Built
      ⟨arena.adoptAll .program (reordered.map .decl), reordered.filterMap arena.decl?⟩ :=
    ⟨arena, reordered, built, again, Arena.close_ready again⟩
  obtain ⟨a, b, alike⟩ := swapped.analyze first.anchored second.anchored acyclic shape
  exact ⟨_, a, b, Arena.close_ready again, alike⟩

/-- Where every class was made after the one it extends, no classes extend one another in a circle. -/
theorem Program.acyclic_of_older {program : Program}
    (older : ∀ cls ∈ program.classes, ∀ above ∈ program.base? cls, above.id.index < cls.id.index) :
    ∀ cls, ¬ Relation.TransGen program.Extends cls cls := by
  intro cls loop
  have lower {a b : Decl} (path : TransGen program.Extends a b) : b.id.index < a.id.index := by
    induction path with
    | single step => exact older _ step.1 _ step.2
    | tail _ step ih => exact Nat.lt_trans (older _ step.1 _ step.2) ih
  exact Nat.lt_irrefl _ (lower loop)

/-- A class `Low` below a class `High` whose method gives a type that is not there, and a function that
gives another. -/
def Program.lowHighAndMain : List Step :=
  let word (name : String) : Ident := ⟨name, default⟩
  [ .function (word "get") (.named (word "Lost")) [] none, .cls (word "High") none [] [⟨0⟩],
    .cls (word "Low") (some (word "High")) [] [],
    .function (word "main") (.named (word "Gone")) [] none ]

theorem Program.analysis_order_free_main_first :
    ∃ arena one other a b, Arena.assemble {} lowHighAndMain = some arena ∧
      arena.close [⟨2⟩, ⟨1⟩, ⟨3⟩] = .ok one ∧ arena.close [⟨3⟩, ⟨1⟩, ⟨2⟩] = .ok other ∧
      one.analyze {} = .ok a ∧ other.analyze {} = .ok b ∧
      a.reports = [.identifierNotDeclared "Lost" .cls default,
        .identifierNotDeclared "Gone" .cls default] ∧
      (∀ name, a.layouts.class? name = b.layouts.class? name) ∧
      (∀ cls, a.hierarchy.get? cls = b.hierarchy.get? cls) ∧
      (∀ name, a.layouts.functions.function? name = b.layouts.functions.function? name) ∧
      a.reports.Perm b.reports := by
  have run : ((Arena.assemble {} lowHighAndMain).bind fun arena =>
      (arena.close [⟨2⟩, ⟨1⟩, ⟨3⟩]).toOption.bind fun one =>
      (one.analyze {}).toOption.map fun a =>
        (a.reports, decide (arena.Ready ([⟨2⟩, ⟨1⟩, ⟨3⟩].map .decl)), one.top.map Decl.name,
          one.classes.all fun cls => (one.base? cls).all fun above =>
            decide (above.id.index < cls.id.index))) =
      some ([.identifierNotDeclared "Lost" .cls default, .identifierNotDeclared "Gone" .cls default],
        true, ["Low", "High", "main"], true) := by
    decide +kernel
  simp only [Option.bind_eq_some_iff, Option.map_eq_some_iff, Prod.mk.injEq, decide_eq_true_eq] at run
  obtain ⟨arena, made, one, closed, a, ran, reports, ready, names, older⟩ := run
  have closed := Arena.ok_of_toOption closed
  have perm : [(⟨2⟩ : DeclId), ⟨1⟩, ⟨3⟩].Perm [⟨3⟩, ⟨1⟩, ⟨2⟩] := by decide
  have distinct : (one.top.map Decl.name).Nodup := by
    rw [names]
    decide
  have acyclic : ∀ cls, ¬ Relation.TransGen one.Extends cls cls := by
    apply Program.acyclic_of_older
    intro cls listed above link
    have all := List.all_eq_true.mp older cls listed
    rw [Option.mem_def.mp link] at all
    simpa using all
  obtain ⟨other, found, b, second, again, last, alike⟩ := Program.analysis_order_free
    (Arena.Built.empty.assemble made) ready perm closed distinct acyclic {}
  rw [Arena.ok_of_toOption ran] at again
  cases again
  exact ⟨arena, one, other, a, b, made, closed, second, Arena.ok_of_toOption ran, last, reports, alike⟩

end DecafTac
