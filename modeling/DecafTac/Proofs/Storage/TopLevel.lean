import DecafTac.Proofs.Scope.Visibility

/-!
The layouts of an accepted program. Each top-level class is found under its name with its own layout, and
nothing else is found; the labels in its method table are those of methods that top-level classes declare.
The function table has the top-level functions, each with its name for a label.
-/
namespace DecafTac

/-- To look at the elements with a property, one after the other, is to look at those that are kept. -/
theorem flatMap_if {α β : Type} (p : α → Bool) (f : α → β) (l : List α) :
    (l.flatMap fun a => if p a then [f a] else []) = (l.filter p).map f := by
  induction l with
  | nil => rfl
  | cons a rest ih =>
    rw [List.flatMap_cons, ih, List.filter_cons]
    cases p a <;> rfl

/-! ## Labels of a method table -/

namespace ClassLayout

theorem addMethod_table (layout : ClassLayout) (name : String) (result : TypeExpr) :
    ∀ label ∈ (layout.addMethod name result).table,
      label ∈ layout.table ∨ label = methodLabel layout.name name := by
  intro label listed
  unfold addMethod at listed
  split at listed
  · exact List.mem_or_eq_of_mem_set listed
  · exact (List.mem_append.mp listed).imp_right List.mem_singleton.mp

theorem addMember_table (slotSize : Int) (layout : ClassLayout) (member : Decl) :
    ∀ label ∈ (addMember slotSize layout member).table, label ∈ layout.table ∨
      member.isFunction = true ∧ label = methodLabel layout.name member.name := by
  intro label listed
  cases member with
  | var id name type =>
    rw [addMember, addField] at listed
    split at listed <;> exact .inl listed
  | prototype | function =>
    exact (addMethod_table _ _ _ label listed).imp_right fun same => ⟨rfl, same⟩
  | cls | interface => exact .inl listed

/-- After all members are added, a label of the table was there before or is that of a member. -/
theorem addMembers_table (slotSize : Int) (members : List Decl) (layout : ClassLayout) :
    ∀ label ∈ (members.foldl (addMember slotSize) layout).table, label ∈ layout.table ∨
      ∃ member ∈ members, member.isFunction = true ∧ label = methodLabel layout.name member.name := by
  induction members generalizing layout with
  | nil => exact fun label listed => .inl listed
  | cons first rest ih =>
    intro label listed
    rcases ih _ label listed with before | ⟨member, among, isFunction, same⟩
    · rcases addMember_table slotSize layout first label before with before | ⟨isFunction, same⟩
      · exact .inl before
      · exact .inr ⟨first, List.mem_cons_self, isFunction, same⟩
    · rw [addMember_name] at same
      exact .inr ⟨member, List.mem_cons_of_mem _ among, isFunction, same⟩

theorem addMembers_name (slotSize : Int) (members : List Decl) (layout : ClassLayout) :
    (members.foldl (addMember slotSize) layout).name = layout.name := by
  induction members generalizing layout with
  | nil => rfl
  | cons first rest ih => exact (ih _).trans (addMember_name slotSize layout first)

end ClassLayout

namespace LaidOut

open Relation (ReflTransGen)

variable {arena : Arena} {graph : ScopeGraph} {slotSize : Int} {cyclic : List DeclId}
  {built : List (DeclId × ClassLayout)} {cls : DeclId} {layout : ClassLayout}

/-- A class is laid out under its own name. -/
theorem Made.name (made : Made arena graph slotSize cyclic built)
    (found : built.lookup cls = some layout) {id : DeclId} {name : Ident} {superclass : Option Ident}
    {interfaces : List Ident} {members : List Decl}
    (stored : arena.decl? cls = some (.cls id name superclass interfaces members)) :
    layout.name = name.name := by
  obtain ⟨_, _, _, _, _, _, -, -, declared, rfl, -⟩ := made.entry found
  rw [stored] at declared
  cases declared
  rw [ClassLayout.addMembers_name, startAmong_name]

/-- Every label of a method table is that of a method which the class or one above it declares. -/
theorem Made.table_declared (made : Made arena graph slotSize cyclic built)
    (found : built.lookup cls = some layout) :
    ∀ label ∈ layout.table, ∃ target name method, ReflTransGen graph.Extends cls target ∧
      arena.Declares target name method ∧ label = ClassLayout.methodLabel name.name method := by
  -- The layout of a class starts from one that was made before it, so the induction is on the record.
  induction made generalizing cls layout with
  | start => cases found
  | @next earlier other id name above interfaces members made fresh declared used ih =>
    rw [Table.lookup_cons] at found
    split at found
    · rename_i same
      subst same
      cases found
      intro label listed
      rcases ClassLayout.addMembers_table _ _ _ label listed with before | ⟨member, among, isFunction, same⟩
      · unfold startAmong at before
        split at before
        · rename_i superclass link
          split at before
          · rename_i base stands
            obtain ⟨target, name, method, chain, declares, same⟩ := ih stands label before
            exact ⟨target, name, method, .head link chain, declares, same⟩
          · cases before
        · cases before
      · rw [startAmong_name] at same
        exact ⟨cls, name, member.name, .refl,
          ⟨id, above, interfaces, members, declared, member, among, isFunction, rfl⟩, same⟩
    · exact ih found

end LaidOut

/-! ## Layouts by name -/

namespace Layouts

theorem name_of_class? {layouts : Layouts} {name : String} {layout : ClassLayout}
    (found : layouts.class? name = some layout) : layout.name = name := by
  simpa using List.find?_some found

/-- Of the layouts of one name that are added, the first is found. -/
theorem find?_addClass (added listed : List ClassLayout) (name : String) :
    (added.foldl addClass listed).find? (·.name == name) =
      (listed ++ added).find? (·.name == name) := by
  induction added generalizing listed with
  | nil => rw [List.foldl_nil, List.append_nil]
  | cons first rest ih =>
    rw [List.foldl_cons, ih, addClass]
    split
    · -- a layout of that name stands before the one that is left out
      rename_i there
      rw [List.find?_append, List.find?_append, List.find?_cons]
      by_cases same : first.name = name
      · obtain ⟨other, member, named⟩ := List.any_eq_true.mp there
        have stands : (listed.find? (·.name == name)).isSome := by
          rw [List.find?_isSome]
          exact ⟨other, member, by rw [← same]; exact named⟩
        rw [Option.or_of_isSome stands, Option.or_of_isSome stands]
      · rw [beq_false_of_ne same]
    · rw [List.append_assoc]
      rfl

end Layouts

/-! ## Functions by name -/

namespace FunctionTable

/-- What callers see of a function. -/
def entryOf? (d : Decl) : Option FunctionEntry :=
  d.signature?.map fun signature => ⟨d.name, signature.formals.length⟩

theorem function?_add (table : FunctionTable) (own name : String) (signature : Signature) :
    (table.add own signature).function? name = (table.function? name).or
      (if own = name then some ⟨own, signature.formals.length⟩ else none) := by
  unfold add
  split
  · rename_i there
    by_cases same : own = name
    · rw [← same, Option.or_of_isSome there]
    · rw [if_neg same, Option.or_none]
  · rw [function?, List.lookup_append, Table.lookup_cons, List.lookup_nil]
    by_cases same : own = name
    · rw [if_pos same, if_pos same.symm]
      rfl
    · rw [if_neg same, if_neg (Ne.symm same)]
      rfl

theorem ofDecls_eq (decls : List Decl) : ofDecls decls =
    decls.foldl (fun table d => (d.signature?.map (table.add d.name)).getD table) {} := by
  rw [ofDecls]
  congr 1
  funext table d
  cases d.signature? <;> rfl

/-- Under a name stands the first function of that name. -/
theorem function?_ofDecls (decls : List Decl) (name : String) :
    (ofDecls decls).function? name =
      (decls.find? fun d => d.isFunction && d.name == name).bind entryOf? := by
  have folds (table : FunctionTable) :
      (decls.foldl (fun table d => (d.signature?.map (table.add d.name)).getD table) table).function?
        name = (table.function? name).or
          ((decls.find? fun d => d.isFunction && d.name == name).bind entryOf?) := by
    induction decls generalizing table with
    | nil => simp
    | cons d rest ih =>
      rw [List.foldl_cons, ih, List.find?_cons]
      cases function : d.signature? with
      | none =>
        have other : d.isFunction = false := by
          rw [Decl.isFunction_eq, function]
          rfl
        rw [other, Bool.false_and]
        rfl
      | some signature =>
        have own : d.isFunction = true := by
          rw [Decl.isFunction_eq, function]
          rfl
        have entry : entryOf? d = some ⟨d.name, signature.formals.length⟩ := by
          rw [entryOf?, function]
          rfl
        rw [Option.map_some, Option.getD_some, function?_add, own, Bool.true_and, Option.or_assoc]
        congr 1
        by_cases same : d.name = name
        · simp [same, entry]
        · simp [same, beq_false_of_ne same]
  rw [ofDecls_eq]
  exact folds {}

/-- A function is found under its name, with that name for a label. -/
def Holds (table : FunctionTable) (decls : List Decl) : Prop :=
  ∀ name entry, table.function? name = some entry →
    entry.label = name ∧ ∃ d ∈ decls, d.isFunction = true ∧ d.name = name

theorem ofDecls_holds (decls : List Decl) : (FunctionTable.ofDecls decls).Holds decls := by
  intro name entry found
  rw [function?_ofDecls] at found
  obtain ⟨d, first, known⟩ := Option.bind_eq_some_iff.mp found
  obtain ⟨signature, -, rfl⟩ := Option.map_eq_some_iff.mp known
  have fits := List.find?_some first
  rw [Bool.and_eq_true, beq_iff_eq] at fits
  exact ⟨fits.2, d, List.mem_of_find?_eq_some first, fits⟩

end FunctionTable

/-! ## Accepted programs -/

/-- A label that belongs to a method of a top-level class. -/
def Program.DeclaresLabel (program : Program) (label : String) : Prop :=
  ∃ id name superclass interfaces members, .cls id name superclass interfaces members ∈ program.top ∧
    ∃ member ∈ members, member.isFunction = true ∧
      label = ClassLayout.methodLabel name.name member.name

/-- The layouts have what the program declares at its top level, and names mean one thing each. -/
structure Program.Resolved (program : Program) (layouts : Layouts) : Prop where
  names : (program.top.map Decl.name).Nodup
  members : ∀ id name superclass interfaces members,
    .cls id name superclass interfaces members ∈ program.top → (members.map Decl.name).Nodup
  found : ∀ d ∈ program.top, d.isClass = true → ∃ layout, layouts.class? d.name = some layout ∧
    ∀ label ∈ layout.table, program.DeclaresLabel label
  only : ∀ name layout, layouts.class? name = some layout →
    ∃ d ∈ program.top, d.isClass = true ∧ d.name = name
  functions : layouts.functions.Holds program.top

/-- All that lies above a top-level class is top-level. -/
theorem ScopeGraph.Rooted.top_above {graph : ScopeGraph} {program : Program}
    (rooted : graph.Rooted program) (linking : graph.Linking program) (coherent : program.Coherent)
    {d : Decl} (top : d ∈ program.top) (isClass : d.isClass = true) {above : DeclId}
    (chain : Relation.ReflTransGen graph.Extends d.id above) :
    ∃ high ∈ program.top, high.isClass = true ∧ high.id = above := by
  induction chain with
  | refl => exact ⟨d, top, isClass, rfl⟩
  | tail _ link ih =>
    obtain ⟨middle, member, kind, rfl⟩ := ih
    exact rooted.superclass linking coherent member kind link

section Resolving

variable {program : Program} {graph : ScopeGraph} {slotSize : Int} {laid : LaidOut}

/-- A layout in the record of a top-level declaration has the name of that declaration, a class. -/
theorem laid_top (coherent : program.Coherent)
    (made : LaidOut.Made program.arena graph slotSize laid.cyclic laid.built) {d : Decl}
    (top : d ∈ program.top) {layout : ClassLayout} (found : laid.built.lookup d.id = some layout) :
    d.isClass = true ∧ layout.name = d.name := by
  obtain ⟨_, id, name, superclass, interfaces, members, -, -, declared, -⟩ := made.entry found
  have stored := coherent.stored d top
  rw [declared] at stored
  cases stored
  exact ⟨rfl, made.name found declared⟩

/-- Where names are different, each top-level class is found under its name. -/
private theorem find?_topLevel (coherent : program.Coherent)
    (made : LaidOut.Made program.arena graph slotSize laid.cyclic laid.built)
    (names : (program.top.map Decl.name).Nodup) {d : Decl} (top : d ∈ program.top)
    {layout : ClassLayout} (found : laid.built.lookup d.id = some layout) :
    (laid.topLevel program.top).find? (·.name == d.name) = some layout := by
  rw [LaidOut.topLevel, Layouts.find?_addClass, List.nil_append]
  have listed : layout ∈ program.top.filterMap fun decl => laid.built.lookup decl.id :=
    List.mem_filterMap.mpr ⟨d, top, found⟩
  have some_found : ((program.top.filterMap fun decl => laid.built.lookup decl.id).find?
      (·.name == d.name)).isSome := by
    rw [List.find?_isSome]
    exact ⟨layout, listed, by simpa using (laid_top coherent made top found).2⟩
  obtain ⟨other, first⟩ := Option.isSome_iff_exists.mp some_found
  obtain ⟨d', top', found'⟩ := List.mem_filterMap.mp (List.mem_of_find?_eq_some first)
  have same : d'.name = d.name := by
    rw [← (laid_top coherent made top' found').2]
    simpa using List.find?_some first
  rw [List.inj_on_of_nodup_map names top' top same, found] at found'
  cases found'
  exact first

/-- The layouts of a program in which nothing is reported. -/
theorem Program.resolved_of_analyze {shape : FrameShape} {analysis : Analysis} (built : program.Built)
    (flat : program.Flat) (ran : program.analyze shape = .ok analysis) (clean : analysis.reports = []) :
    program.Resolved analysis.layouts := by
  obtain ⟨accepts, laid, laidOut, classes, -⟩ := Program.accepts_of_analyze built ran clean
  obtain ⟨linked, first, ran⟩ := Arena.bind_ok ran
  obtain ⟨faults, -, ran⟩ := Arena.bind_ok ran
  obtain ⟨⟨layouts, cycles⟩, third, ran⟩ := Arena.bind_ok ran
  cases ran
  have rooted : linked.graph.Rooted program := Program.link_rooted built.coherent flat first
  have functions : layouts.functions = .ofDecls program.top := by
    obtain ⟨_, -, third⟩ := Arena.bind_ok third
    cases third
    rfl
  have coherent := built.coherent
  obtain ⟨advanced, all⟩ := LaidOut.layOutAll_advances _ _ _ .start laidOut
  have made := advanced.made
  have lookUp (name : String) :
      layouts.class? name = (laid.topLevel program.top).find? (·.name == name) := by
    rw [Layouts.class?]
    exact congrArg (List.find? (·.name == name)) classes
  constructor
  · exact accepts.top_names
  · intro id name superclass interfaces members top
    have isClass : program.HasClass id members := ⟨name, superclass, interfaces,
      List.mem_flatMap.mpr ⟨_, List.mem_map_of_mem top, Tree.self_mem_subtrees _⟩⟩
    exact accepts.member_names isClass
  · intro d top isClass
    obtain ⟨layout, stands⟩ := Option.isSome_iff_exists.mp
      (all d top isClass ⟨d, coherent.stored d top, isClass⟩)
    refine ⟨layout, ?_, ?_⟩
    · rw [lookUp]
      exact find?_topLevel coherent made accepts.top_names top stands
    · intro label listed
      obtain ⟨target, name, method, chain, declares, rfl⟩ := made.table_declared stands label listed
      obtain ⟨high, member, -, rfl⟩ :=
        rooted.top_above accepts.linking coherent top isClass chain
      obtain ⟨id, superclass, interfaces, members, declared, f, among, isFunction, rfl⟩ := declares
      have stored := coherent.stored high member
      rw [declared] at stored
      cases stored
      exact ⟨id, name, superclass, interfaces, members, member, f, among, isFunction, rfl⟩
  · intro name layout found
    rw [lookUp, LaidOut.topLevel, Layouts.find?_addClass, List.nil_append] at found
    obtain ⟨d, top, stands⟩ := List.mem_filterMap.mp (List.mem_of_find?_eq_some found)
    obtain ⟨isClass, named⟩ := laid_top coherent made top stands
    have same : layout.name = name := by simpa using List.find?_some found
    exact ⟨d, top, isClass, named.symm.trans same⟩
  · rw [functions]
    exact FunctionTable.ofDecls_holds program.top

end Resolving

end DecafTac
