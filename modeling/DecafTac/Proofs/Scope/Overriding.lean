import DecafTac.Compile
import DecafTac.Proofs.Scope.Checking
import DecafTac.Proofs.Storage.Tags

/-!
Methods that share a slot. A class has the method that the nearest class above it declares, itself
included. In a program that is accepted, what a class has under a name and what a class above it has
under that name have one signature, so a call through the slot of the upper class fits whichever of the
two is found there.
-/
namespace DecafTac

/-- Types that are equivalent, or two formals that have none. -/
def Decl.SameType (a b : Decl) : Prop :=
  Option.Rel (fun s t => TypeExpr.equivalent s t = true) a.varType? b.varType?

/-- Results are equivalent, and so are the formals, in number and one by one. -/
structure Signature.Matches (a b : Signature) : Prop where
  result : a.result.equivalent b.result = true
  formals : List.Forall₂ Decl.SameType a.formals b.formals

/-- The function that a class has under a name: its own, or else the one that its superclass has. -/
inductive ScopeGraph.Nearest (graph : ScopeGraph) (arena : Arena) (method : String) :
    DeclId → Decl → Prop where
  | here {cls id : DeclId} {name : Ident} {superclass : Option Ident} {interfaces : List Ident}
      {members : List Decl} {f : Decl}
      (declared : arena.decl? cls = some (.cls id name superclass interfaces members))
      (member : f ∈ members) (isFunction : f.isFunction = true) (named : f.name = method) :
      Nearest graph arena method cls f
  | above {cls id up : DeclId} {name : Ident} {superclass : Option Ident} {interfaces : List Ident}
      {members : List Decl} {f : Decl}
      (declared : arena.decl? cls = some (.cls id name superclass interfaces members))
      (missing : ∀ d ∈ members, d.isFunction = true → d.name ≠ method)
      (link : graph.Extends cls up) (next : Nearest graph arena method up f) :
      Nearest graph arena method cls f

/-! ## Signatures -/

theorem Signature.Matches.refl (signature : Signature) : signature.Matches signature := by
  refine ⟨signature.result.equivalent_refl, List.forall₂_same.mpr fun formal _ => ?_⟩
  unfold Decl.SameType
  cases formal.varType? with
  | none => exact .none
  | some type => exact .some type.equivalent_refl

theorem Check.signaturesAgree_matches {a b : Signature} (agree : Check.signaturesAgree a b = true) :
    a.Matches b := by
  unfold Check.signaturesAgree at agree
  simp only [Bool.and_eq_true, beq_iff_eq] at agree
  obtain ⟨⟨result, number⟩, pairs⟩ := agree
  refine ⟨result, List.forall₂_iff_zip.mpr ⟨number, ?_⟩⟩
  intro x y member
  have pair := List.all_eq_true.mp pairs (x, y) member
  unfold Check.formalsAgree at pair
  unfold Decl.SameType
  split at pair
  · rename_i s t first second
    rw [first, second]
    exact .some pair
  · cases pair

theorem Decl.isFunction_eq (d : Decl) : d.isFunction = d.signature?.isSome := by
  cases d <;> rfl

theorem Decl.signature_of_function {d : Decl} (isFunction : d.isFunction = true) :
    ∃ signature, d.signature? = some signature := by
  cases d with
  | var | cls | interface => cases isFunction
  | prototype | function => exact ⟨_, rfl⟩

/-! ## Accepted programs -/

/-- A program with linked scopes in which nothing is reported. -/
structure ScopeGraph.Accepts (graph : ScopeGraph) (program : Program) : Prop where
  coherent : program.Coherent
  linking : graph.Linking program
  clean : Check.program graph program = .ok []

/-- A class of a program, with its members. -/
def Program.HasClass (program : Program) (cls : DeclId) (members : List Decl) : Prop :=
  ∃ name superclass interfaces, .decl (.cls cls name superclass interfaces members) ∈ program.subtrees

theorem Program.hasClass_top {program : Program} {d : Decl} (top : d ∈ program.top)
    (isClass : d.isClass = true) : ∃ members, program.HasClass d.id members := by
  cases d with
  | cls id name superclass interfaces members =>
    refine ⟨members, name, superclass, interfaces, List.mem_flatMap.mpr ⟨_, List.mem_map_of_mem top, ?_⟩⟩
    rw [Tree.subtrees_eq]
    exact List.mem_cons_self
  | var | interface | prototype | function => cases isClass

namespace ScopeGraph.Accepts

open Relation (ReflTransGen)

variable {program : Program} {graph : ScopeGraph} {cls up : DeclId} {members others : List Decl}

theorem declared (accepts : graph.Accepts program) (isClass : program.HasClass cls members) :
    ∃ name superclass interfaces,
      program.arena.decl? cls = some (.cls cls name superclass interfaces members) := by
  obtain ⟨name, superclass, interfaces, inside⟩ := isClass
  have stored := accepts.coherent.stored_subtrees _ inside
  refine ⟨name, superclass, interfaces, ?_⟩
  simpa [Arena.tree?, Tree.node, Decl.id] using stored

/-- What is found under the number of a class are its members. -/
theorem members_eq (accepts : graph.Accepts program) (isClass : program.HasClass cls members)
    {id : DeclId} {name : Ident} {superclass : Option Ident} {interfaces : List Ident}
    (stored : program.arena.decl? cls = some (.cls id name superclass interfaces others)) :
    others = members := by
  obtain ⟨_, _, _, declared⟩ := accepts.declared isClass
  rw [declared] at stored
  cases stored
  rfl

/-- The scope of a class binds its members, each under its name, and nothing is reported in it. -/
theorem scope_of_class (accepts : graph.Accepts program) (isClass : program.HasClass cls members) :
    ∃ own scope, graph.scopeOf (.decl cls) = some own ∧ graph.scope? own = some scope ∧
      scope.owner = .decl cls ∧
      ∀ d ∈ members,
        Check.decl program.arena graph own d = .ok [] ∧ scope.binding? d.name = some d.id := by
  obtain ⟨name, superclass, interfaces, inside⟩ := isClass
  obtain ⟨own, scope, opened, there, owner, entries⟩ :=
    accepts.linking.toMirrors.opened accepts.coherent inside rfl
  obtain ⟨here, ran⟩ := Check.program_clean accepts.clean _ inside
  have clean : ∀ d ∈ members, Check.decl program.arena graph own d = .ok [] := by
    have checked := Check.members_clean ran
    have own_scope : Check.within graph here (.decl cls) = own := by
      unfold Check.within
      rw [show graph.scopeOf (.decl cls) = some own from opened]
      rfl
    rwa [own_scope] at checked
  exact ⟨own, scope, opened, there, owner, fun d member =>
    ⟨clean d member, Check.binding?_member there entries clean member⟩⟩

theorem superclass (accepts : graph.Accepts program) (link : graph.Extends cls up) :
    ∃ others, program.HasClass up others := by
  obtain ⟨⟨decl, stored, isClass⟩, ⟨t, inside, node⟩, -⟩ :=
    accepts.linking.superclass accepts.coherent link
  have found := accepts.coherent.stored_subtrees t inside
  rw [node, Arena.tree?, stored] at found
  cases found
  cases decl with
  | cls id name superclass interfaces members =>
    cases node
    exact ⟨members, name, superclass, interfaces, inside⟩
  | var | interface | prototype | function => cases isClass

/-- Where classes lie above one another, so do their scopes. -/
theorem scopes_above (accepts : graph.Accepts program) (chain : ReflTransGen graph.Extends cls up)
    {own high : ScopeId} (opened : graph.scopeOf (.decl cls) = some own)
    (above : graph.scopeOf (.decl up) = some high) :
    ReflTransGen (Check.DirectlyAbove graph) own high := by
  induction chain generalizing high with
  | refl =>
    rw [opened] at above
    cases above
    exact .refl
  | @tail middle up _ link ih =>
    obtain ⟨-, -, low, target, scope, below, there, linked, listed⟩ :=
      accepts.linking.superclass accepts.coherent link
    rw [above] at listed
    cases listed
    refine (ih below).tail ⟨scope, there, ?_⟩
    simp [Scope.supertypes, linked]

/-- A member is stored, and its class is the one it is a member of. -/
theorem member_stored (accepts : graph.Accepts program) (isClass : program.HasClass cls members)
    {d : Decl} (member : d ∈ members) :
    program.arena.decl? d.id = some d ∧ program.arena.owningClass d.id = some cls := by
  obtain ⟨name, superclass, interfaces, declared⟩ := accepts.declared isClass
  have tree : program.arena.tree? (.decl cls) =
      some (.decl (.cls cls name superclass interfaces members)) := by
    simp [Arena.tree?, declared]
  have inside : Tree.decl d ∈ (Tree.decl (.cls cls name superclass interfaces members)).children :=
    List.mem_map_of_mem member
  have stored := accepts.coherent.arena.closed _ _ tree _ inside
  have parent := accepts.coherent.arena.linked _ _ tree _ inside
  refine ⟨by simpa [Arena.tree?, Tree.node] using stored, ?_⟩
  rw [Tree.node] at parent
  simp [Arena.owningClass, parent, Arena.declWhere, declared, Decl.isClass, Decl.kind]

/-- A function of a class and one of its name in a class above it have one signature. -/
theorem override_matches (accepts : graph.Accepts program) (isClass : program.HasClass cls members)
    (upper : program.HasClass up others) (chain : ReflTransGen graph.Extends cls up) {f g : Decl}
    {low high : Signature} (own : f ∈ members) (inherited : g ∈ others) (named : f.name = g.name)
    (lower : f.signature? = some low) (higher : g.signature? = some high) : low.Matches high := by
  obtain ⟨here, scope, opened, there, owner, bound⟩ := accepts.scope_of_class isClass
  obtain ⟨above, scope', opened', there', owner', bound'⟩ := accepts.scope_of_class upper
  obtain ⟨stored, owning⟩ := accepts.member_stored isClass own
  obtain ⟨stored', -⟩ := accepts.member_stored upper inherited
  obtain ⟨clean, binding⟩ := bound f own
  obtain ⟨-, binding'⟩ := bound' g inherited
  by_cases same : above = here
  · -- Both stand in one class, where a name means one member.
    subst same
    rw [there] at there'
    cases there'
    rw [named, binding'] at binding
    rw [← Option.some.inj binding, stored'] at stored
    cases stored
    rw [lower] at higher
    cases higher
    exact .refl low
  · obtain ⟨found, stands, fits⟩ := Check.overriding_above (Check.overriding_clean clean lower) owning
      opened (accepts.scopes_above chain opened opened') same
    rw [there'] at stands
    cases stands
    have name : f.ident.name = g.name := named
    rw [name] at fits
    obtain ⟨inherited, function, agree⟩ := Check.agrees_of_clashes fits binding' stored'
    rw [higher] at function
    cases function
    exact Check.signaturesAgree_matches agree

/-- What lies above a class is a class. -/
theorem class_above (accepts : graph.Accepts program) (isClass : program.HasClass cls members)
    (chain : ReflTransGen graph.Extends cls up) : ∃ others, program.HasClass up others := by
  cases chain with
  | refl => exact ⟨members, isClass⟩
  | tail _ link => exact accepts.superclass link

/-- The function that a class has is declared by a class above it, or by itself. -/
theorem declarer (accepts : graph.Accepts program) (isClass : program.HasClass cls members)
    {method : String} {f : Decl} (nearest : graph.Nearest program.arena method cls f) :
    ∃ target targets, ReflTransGen graph.Extends cls target ∧ program.HasClass target targets ∧
      f ∈ targets ∧ f.isFunction = true ∧ f.name = method := by
  induction nearest generalizing members with
  | @here cls _ _ _ _ _ _ declared member isFunction named =>
    cases accepts.members_eq isClass declared
    exact ⟨cls, _, .refl, isClass, member, isFunction, named⟩
  | above declared missing link next ih =>
    obtain ⟨others, upper⟩ := accepts.superclass link
    obtain ⟨target, targets, chain, declares⟩ := ih upper
    exact ⟨target, targets, .head link chain, declares⟩

/-- What a class has under a name and what a class above it has there have one signature. -/
theorem nearest_matches (accepts : graph.Accepts program) {method : String} {f g : Decl}
    {low high : Signature} (isClass : program.HasClass cls members)
    (chain : ReflTransGen graph.Extends cls up) (lower : graph.Nearest program.arena method cls f)
    (higher : graph.Nearest program.arena method up g) (first : f.signature? = some low)
    (second : g.signature? = some high) : low.Matches high := by
  induction lower generalizing members up with
  | here declared member isFunction named =>
    cases accepts.members_eq isClass declared
    obtain ⟨others, upper⟩ := accepts.class_above isClass chain
    obtain ⟨target, targets, further, declares, inherited, -, named'⟩ := accepts.declarer upper higher
    exact accepts.override_matches isClass declares (chain.trans further) member inherited
      (named.trans named'.symm) first second
  | @above cls _ next _ _ _ _ _ declared missing link lower ih =>
    obtain ⟨others, upper⟩ := accepts.superclass link
    have only {other : DeclId} (link' : graph.Extends cls other) : other = next := by
      rw [ScopeGraph.Extends, link] at link'
      cases link'
      rfl
    rcases chain.cases_head with rfl | ⟨other, link', chain⟩
    · -- The two classes are one, which declares no such function, so both functions are from above it.
      cases higher with
      | here declared' member isFunction named =>
        rw [declared] at declared'
        cases declared'
        exact absurd named (missing g member isFunction)
      | above _ _ link' higher =>
        cases only link'
        exact ih upper .refl higher first
    · cases only link'
      exact ih upper chain higher first

/-- A class below one that has a function of a name has one too. -/
theorem nearest_below (accepts : graph.Accepts program) {method : String} {g : Decl}
    (isClass : program.HasClass cls members) (chain : ReflTransGen graph.Extends cls up)
    (higher : graph.Nearest program.arena method up g) :
    ∃ f, graph.Nearest program.arena method cls f := by
  induction chain using ReflTransGen.head_induction_on generalizing members with
  | refl => exact ⟨g, higher⟩
  | head link _ ih =>
    obtain ⟨name, superclass, interfaces, declared⟩ := accepts.declared isClass
    by_cases own : ∃ d ∈ members, d.isFunction = true ∧ d.name = method
    · obtain ⟨d, member, isFunction, named⟩ := own
      exact ⟨d, .here declared member isFunction named⟩
    · obtain ⟨others, upper⟩ := accepts.superclass link
      obtain ⟨f, next⟩ := ih upper
      refine ⟨f, .above declared (fun d member isFunction named => ?_) link next⟩
      exact own ⟨d, member, isFunction, named⟩

end ScopeGraph.Accepts

namespace LaidOut

variable {arena : Arena} {graph : ScopeGraph} {slotSize : Int} {cyclic : List DeclId}
  {built : List (DeclId × ClassLayout)}

/-- A method of a class that is laid out is declared above it, or by itself. -/
theorem Made.nearest {cls : DeclId} {layout : ClassLayout} {method : String}
    (made : Made arena graph slotSize cyclic built) (found : built.lookup cls = some layout)
    (has : layout.hasMethod method = true) : ∃ f, graph.Nearest arena method cls f := by
  rw [(made.inStep found).hasMethod, made.label found] at has
  clear found
  induction made generalizing cls with
  | start => cases has
  | @next earlier other id name above interfaces members made fresh declared used ih =>
    rw [chainIn] at has
    split at has
    · rename_i same
      subst same
      by_cases own : ∃ d ∈ members, d.isFunction = true ∧ d.name = method
      · obtain ⟨d, member, isFunction, named⟩ := own
        exact ⟨d, .here declared member isFunction named⟩
      · have missing : declaredLabel? arena method other = none := by
          rw [declaredLabel?_eq_none]
          rintro _ ⟨_, _, _, _, stored, declares⟩
          rw [declared] at stored
          cases stored
          exact own declares
        simp only [List.findSome?_cons, missing] at has
        cases link : superclassOf graph other with
        | error =>
          rw [link] at has
          cases has
        | ok result =>
          rw [link] at has
          cases result with
          | none => cases has
          | some up =>
            obtain ⟨f, next⟩ := ih has
            refine ⟨f, .above declared (fun d member isFunction named => ?_) link next⟩
            exact own ⟨d, member, isFunction, named⟩
    · exact ih has

/-- With no cycles, all classes above one that is laid out are, and it has what they have in the same
places. -/
theorem Made.above {cls up : DeclId} {low : ClassLayout} (made : Made arena graph slotSize [] built)
    (classes : ∀ c above, graph.Extends c above → arena.hasClass above)
    (found : built.lookup cls = some low) (chain : Relation.ReflTransGen graph.Extends cls up) :
    ∃ high, built.lookup up = some high ∧ low.Extends high := by
  induction chain with
  | refl => exact ⟨low, found, .refl low⟩
  | tail _ link ih =>
    obtain ⟨middle, stands, wider⟩ := ih
    rcases made.chain_step stands link (classes _ _ link) with ⟨-, base, there, wide⟩ | closing
    · exact ⟨base, there, wider.trans wide⟩
    · cases closing

end LaidOut

/-! ## The slots of accepted programs -/

/-- The stages of an analysis that reports nothing. -/
theorem Program.accepts_of_analyze {program : Program} {shape : FrameShape} {analysis : Analysis}
    (built : program.Built) (ran : program.analyze shape = .ok analysis)
    (clean : analysis.reports = []) :
    analysis.graph.Accepts program ∧ ∃ laid,
      LaidOut.layOutAll program.arena analysis.graph shape.slotSize program.top {} = .ok laid ∧
      analysis.layouts.classes = laid.topLevel program.top ∧ laid.cyclic = [] := by
  obtain ⟨linked, first, ran⟩ := Arena.bind_ok ran
  obtain ⟨faults, second, ran⟩ := Arena.bind_ok ran
  obtain ⟨⟨layouts, cycles⟩, third, ran⟩ := Arena.bind_ok ran
  cases ran
  obtain ⟨laid, laidOut, third⟩ := Arena.bind_ok third
  cases third
  simp only [Analysis.reports, List.append_eq_nil_iff] at clean
  obtain ⟨⟨-, rfl⟩, none⟩ := clean
  refine ⟨⟨built.coherent, Program.link_linking first, second⟩, laid, laidOut, rfl, ?_⟩
  have counted : laid.reports.length = laid.cyclic.length :=
    LaidOut.layOutAll_reported _ {} _ (Eq.refl 0) laidOut
  rw [none, List.length_nil] at counted
  exact List.length_eq_zero_iff.mp counted.symm

/-- Slots of accepted programs. When an analysis reports nothing, every class above a top-level class is
laid out, and each of its methods is in the same slot of both layouts. Both classes have a function of
that name, their own or inherited, and the two have one signature. -/
theorem Program.shared_slots_match {program : Program} (built : program.Built) {shape : FrameShape}
    {analysis : Analysis} (ran : program.analyze shape = .ok analysis)
    (clean : analysis.reports = []) :
    ∃ laid, LaidOut.layOutAll program.arena analysis.graph shape.slotSize program.top {} = .ok laid ∧
      analysis.layouts.classes = laid.topLevel program.top ∧
      ∀ cls ∈ program.top, cls.isClass = true →
        ∀ up, Relation.ReflTransGen analysis.graph.Extends cls.id up →
        ∃ low high, laid.built.lookup cls.id = some low ∧ laid.built.lookup up = some high ∧
          ∀ method, high.hasMethod method = true →
            low.methodSlot? method = high.methodSlot? method ∧
            (∃ f, analysis.graph.Nearest program.arena method cls.id f) ∧
            (∃ g, analysis.graph.Nearest program.arena method up g) ∧
            ∀ f g, analysis.graph.Nearest program.arena method cls.id f →
              analysis.graph.Nearest program.arena method up g →
              ∃ a b, f.signature? = some a ∧ g.signature? = some b ∧ a.Matches b := by
  obtain ⟨accepts, laid, laidOut, listed, acyclic⟩ := Program.accepts_of_analyze built ran clean
  refine ⟨laid, laidOut, listed, ?_⟩
  intro cls top isClass up chain
  obtain ⟨advanced, all⟩ := LaidOut.layOutAll_advances _ _ _ .start laidOut
  have made := advanced.made
  rw [acyclic] at made
  have stored := accepts.coherent.stored cls top
  obtain ⟨low, found⟩ := Option.isSome_iff_exists.mp (all cls top isClass ⟨cls, stored, isClass⟩)
  obtain ⟨high, stands, wider⟩ := made.above
    (fun _ _ link => (accepts.linking.superclass accepts.coherent link).1) found chain
  obtain ⟨members, declared⟩ := Program.hasClass_top top isClass
  obtain ⟨others, upper⟩ := accepts.class_above declared chain
  refine ⟨low, high, found, stands, ?_⟩
  intro method has
  obtain ⟨slot, placed⟩ := Option.isSome_iff_exists.mp has
  obtain ⟨g, nearest⟩ := made.nearest stands has
  refine ⟨?_, accepts.nearest_below declared chain nearest, ⟨g, nearest⟩, ?_⟩
  · rw [placed, wider.methods method slot placed]
  · intro f g lower higher
    obtain ⟨-, -, -, -, -, isFunction, -⟩ := accepts.declarer declared lower
    obtain ⟨-, -, -, -, -, isFunction', -⟩ := accepts.declarer upper higher
    obtain ⟨a, first⟩ := Decl.signature_of_function isFunction
    obtain ⟨b, second⟩ := Decl.signature_of_function isFunction'
    exact ⟨a, b, first, second, accepts.nearest_matches declared chain lower higher first second⟩

namespace Joins

/-- A type as it is written in some line. -/
def high (line : Nat) : TypeExpr := .named ⟨"High", ⟨⟨line, 1⟩, ⟨line, 4⟩⟩⟩

/-- A method that joins two objects. -/
def join (id formal line : Nat) : Decl :=
  .prototype ⟨id⟩ ⟨"join", default⟩ (high line) [.var ⟨formal⟩ ⟨"other", default⟩ (high line)]

/-- A class `Low` below `Mid` below `High`; the first and the last declare a method `join`. -/
def steps : List Step :=
  let word (name : String) : Ident := ⟨name, default⟩
  [ .var (word "other") (high 2), .function (word "join") (high 2) [⟨0⟩] none,
    .cls (word "High") none [] [⟨1⟩],
    .var (word "size") (.primitive .int), .cls (word "Mid") (some (word "High")) [] [⟨3⟩],
    .var (word "other") (high 6), .function (word "join") (high 6) [⟨5⟩] none,
    .cls (word "Low") (some (word "Mid")) [] [⟨6⟩] ]

private theorem steps_run :
    ((Program.assemble steps [⟨7⟩, ⟨2⟩, ⟨4⟩]).bind fun program =>
      (program.analyze {}).toOption.bind fun analysis =>
      (LaidOut.layOutAll program.arena analysis.graph 4 program.top {}).toOption.map fun laid =>
        (analysis.reports.length, (LaidOut.superclassOf analysis.graph ⟨7⟩).toOption,
          (LaidOut.superclassOf analysis.graph ⟨4⟩).toOption,
          (laid.built.lookup ⟨2⟩).map (·.hasMethod "join"))) =
      some (0, some (some ⟨4⟩), some (some ⟨2⟩), some true) := by
  decide +kernel

/-- The classes as trees. -/
def classes : List Decl :=
  [ .cls ⟨7⟩ ⟨"Low", default⟩ (some ⟨"Mid", default⟩) [] [join 6 5 6],
    .cls ⟨2⟩ ⟨"High", default⟩ none [] [join 1 0 2],
    .cls ⟨4⟩ ⟨"Mid", default⟩ (some ⟨"High", default⟩) []
      [.var ⟨3⟩ ⟨"size", default⟩ (.primitive .int)] ]

private theorem steps_top :
    (Program.assemble steps [⟨7⟩, ⟨2⟩, ⟨4⟩]).map Program.top = some classes := by
  rfl

end Joins

/-- Through two links, with a class between that declares no such method. -/
theorem Program.shared_slots_match_joins :
    ∃ program analysis a b, Program.assemble Joins.steps [⟨7⟩, ⟨2⟩, ⟨4⟩] = some program ∧
      program.analyze {} = .ok analysis ∧ analysis.reports = [] ∧
      analysis.graph.Extends ⟨7⟩ ⟨4⟩ ∧ analysis.graph.Extends ⟨4⟩ ⟨2⟩ ∧
      analysis.graph.Nearest program.arena "join" ⟨7⟩ (Joins.join 6 5 6) ∧
      analysis.graph.Nearest program.arena "join" ⟨2⟩ (Joins.join 1 0 2) ∧
      (Joins.join 6 5 6).signature? = some a ∧ (Joins.join 1 0 2).signature? = some b ∧
      a.Matches b := by
  have run := Joins.steps_run
  simp only [Option.bind_eq_some_iff, Option.map_eq_some_iff, Prod.mk.injEq] at run
  obtain ⟨program, made, analysis, ran, laid, laidOut, none, low, mid, high, found, has⟩ := run
  have built := Program.built_of_assemble made
  have ran := Arena.ok_of_toOption ran
  have clean := List.length_eq_zero_iff.mp none
  have first : analysis.graph.Extends ⟨7⟩ ⟨4⟩ := Arena.ok_of_toOption low
  have second : analysis.graph.Extends ⟨4⟩ ⟨2⟩ := Arena.ok_of_toOption mid
  have top := Joins.steps_top
  rw [made, Option.map_some, Option.some.injEq] at top
  have lowest : Joins.classes[0] ∈ program.top := by
    rw [top]
    exact List.getElem_mem _
  have highest : Joins.classes[1] ∈ program.top := by
    rw [top]
    exact List.getElem_mem _
  have lower : analysis.graph.Nearest program.arena "join" ⟨7⟩ (Joins.join 6 5 6) :=
    .here (built.coherent.stored _ lowest) List.mem_cons_self rfl rfl
  have higher : analysis.graph.Nearest program.arena "join" ⟨2⟩ (Joins.join 1 0 2) :=
    .here (built.coherent.stored _ highest) List.mem_cons_self rfl rfl
  obtain ⟨laid', laidOut', -, shared⟩ := Program.shared_slots_match built ran clean
  have same : laid = laid' := by
    have := (Arena.ok_of_toOption laidOut).symm.trans laidOut'
    exact Except.ok.inj this
  subst same
  obtain ⟨_, _, -, stands, agree⟩ := shared _ lowest rfl ⟨2⟩ (.head first (.single second))
  rw [found] at stands
  cases stands
  obtain ⟨a, b, own, inherited, fits⟩ := (agree "join" has).2.2.2 _ _ lower higher
  exact ⟨program, analysis, a, b, made, ran, clean, first, second, lower, higher, own, inherited, fits⟩

end DecafTac
