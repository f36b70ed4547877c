import DecafTac.Proofs.Lower.Sites
import DecafTac.Proofs.Scope.References
import DecafTac.Proofs.Storage.Conformance

/-!
What analysis accepts has what lowering needs. Analysis asks by nodes of the arena and by scopes: whether
a class is above a `this`, and whether the name in a `new` means a class. Lowering asks its own state for
a receiver, and the layouts of top-level classes by name. When all classes are at the top level, the two
agree wherever lowering comes to, and a program without reports never fails at a `this`, at a `new` or at
a class.
-/
namespace DecafTac

open Relation (ReflTransGen)
open Lower (Visit Site Below Comes Fails Arises Supplied)

namespace Program

/-- Lowering a program against layouts comes to a site from a state. -/
def Reaches (program : Program) (layouts : Layouts) (shape : FrameShape) (visit : Visit) : Prop :=
  ∃ root ∈ Lower.inTurn .top (Lower.topLevel program.arena layouts) program.top
      (Lower.opening program.top shape),
    ReflTransGen (Comes program.arena layouts) root visit

/-- The site is one of the program, and inside a class a receiver is at hand. -/
structure Fits (program : Program) (visit : Visit) : Prop where
  inside : visit.1.tree ∈ program.subtrees
  receives : (program.arena.enclosingClass visit.1.tree.node).isSome = true →
    visit.1.receives visit.2 = true

variable {program : Program} {layouts : Layouts} {shape : FrameShape} {visit whole part : Visit}

/-! ## Receivers -/

/-- A part of a tree is inside a class if the tree is, or is a class itself. -/
theorem Anchored.enclosingClass_part (anchored : program.Anchored) {t child : Tree}
    (inside : t ∈ program.subtrees) (among : child ∈ t.children)
    (within : (program.arena.enclosingClass child.node).isSome = true) :
    (∃ cls, t = .decl cls ∧ cls.isClass = true) ∨
      (program.arena.enclosingClass t.node).isSome = true := by
  rw [Arena.enclosingClass, anchored.arena.ancestors_eq, anchored.part_parent inside among] at within
  simp only [List.findSome?_cons] at within
  cases owner : program.arena.declWhere Decl.isClass t.node with
  | none =>
    rw [owner] at within
    exact .inr within
  | some id =>
    cases t with
    | decl d =>
      refine .inl ⟨d, rfl, ?_⟩
      simpa [Tree.node, Arena.declWhere, anchored.decl_stored inside] using
        Option.isSome_of_eq_some owner
    | stmt | expr => cases owner

theorem Anchored.enclosingClass_top (anchored : program.Anchored) {d : Decl} (top : d ∈ program.top) :
    program.arena.enclosingClass (.decl d.id) = none := by
  have above : program.arena.ancestors (.decl d.id) = [.program] := by
    rw [anchored.arena.ancestors_eq, anchored.rooted d top]
    simp only [List.cons.injEq, true_and]
    rw [anchored.arena.ancestors_eq]
    rfl
  rw [Arena.enclosingClass, above]
  rfl

theorem Anchored.fits_top (anchored : program.Anchored) {d : Decl} (top : d ∈ program.top)
    (s : LowerState) : program.Fits (.top d, s) := by
  refine ⟨top_inside top, fun within => ?_⟩
  rw [Site.tree, Tree.node, anchored.enclosingClass_top top] at within
  cases within

theorem Anchored.fits_part (anchored : program.Anchored) (fits : program.Fits whole)
    (below : Below whole part) : program.Fits part := by
  obtain ⟨inside, receives⟩ := fits
  rcases below.tree with ⟨same, -⟩ | child
  · refine ⟨same ▸ inside, fun within => ?_⟩
    rw [below.receives, receives (same ▸ within), Bool.or_true]
  · refine ⟨part_inside inside child, fun within => ?_⟩
    rw [below.receives, Bool.or_eq_true]
    rcases anchored.enclosingClass_part inside child within with ⟨cls, same, isClass⟩ | around
    · exact .inl (Site.isClass_of_tree same isClass)
    · exact .inr (receives around)

/-- Wherever lowering comes to inside a class, a receiver is at hand. -/
theorem Anchored.fits_reached (anchored : program.Anchored)
    (reached : program.Reaches layouts shape visit) : program.Fits visit := by
  obtain ⟨root, listed, path⟩ := reached
  induction path with
  | refl =>
    obtain ⟨d, top, same⟩ := Lower.mem_inTurn listed
    obtain ⟨site, s⟩ := root
    cases same
    exact anchored.fits_top top s
  | tail _ comes ih => exact anchored.fits_part ih comes.below

/-! ## What analysis answers for -/

theorem Faultless.this_enclosed (faultless : program.Faultless) {site : ExprSite}
    (inside : .expr (.this site) ∈ program.subtrees) :
    (program.arena.enclosingClass (.expr site.id)).isSome = true := by
  have none := faultless _ inside
  rw [ownFaults, exprFaults] at none
  cases around : program.arena.enclosingClass (.expr site.id) with
  | none => simp [around] at none
  | some => rfl

theorem Faultless.new_class (faultless : program.Faultless) (anchored : program.Anchored)
    {site : ExprSite} {cls : Ident} (inside : .expr (.new site cls) ∈ program.subtrees) :
    ∃ d ∈ program.classes, d.name = cls.name := by
  have none := faultless _ inside
  rw [ownFaults, exprFaults, nameFaults] at none
  cases means : program.meaning [.cls] cls.name (.expr site.id) with
  | none => simp [means] at none
  | some d =>
    obtain ⟨there, named, kind⟩ := anchored.meaning_found (.inr ⟨_, inside, rfl⟩) means
    refine ⟨d, mem_classes.mpr ⟨there, ?_⟩, named⟩
    rw [Decl.isClass, List.mem_singleton.mp kind]
    rfl

/-- Every top-level class of a program without reports is laid out. -/
theorem Anchored.class_laid (anchored : program.Anchored) {analysis : Analysis}
    (ran : program.analyze shape = .ok analysis) (clean : analysis.reports = []) {cls : Decl}
    (top : cls ∈ program.top) (isClass : cls.isClass = true) :
    (analysis.layouts.class? cls.name).isSome = true := by
  have lays := (anchored.analyze_clean ran clean).2.2 cls.name
  have found : (program.top.find? fun d => d.isClass && d.name == cls.name).isSome = true := by
    rw [List.find?_isSome]
    exact ⟨cls, top, by simp [isClass]⟩
  obtain ⟨first, named⟩ := Option.isSome_iff_exists.mp found
  rw [named] at lays
  generalize analysis.layouts.class? cls.name = laid at lays
  cases lays
  rfl

/-- What analysis accepts has what lowering needs. -/
theorem Anchored.supplied (anchored : program.Anchored)
    (flat : ∀ cls ∈ program.classes, cls ∈ program.top) {analysis : Analysis}
    (ran : program.analyze shape = .ok analysis) (clean : analysis.reports = [])
    (reached : program.Reaches analysis.layouts shape visit) : Supplied analysis.layouts visit := by
  have faultless := anchored.faultless ran clean
  have fits := anchored.fits_reached reached
  have laid (cls : Decl) (listed : cls ∈ program.classes) :
      (analysis.layouts.class? cls.name).isSome = true :=
    anchored.class_laid ran clean (flat cls listed) (mem_classes.mp listed).2
  obtain ⟨site, s⟩ := visit
  cases site with
  | place e =>
    cases e with
    | this site => exact fits.receives (faultless.this_enclosed fits.inside)
    | new site cls =>
      obtain ⟨d, listed, named⟩ := faultless.new_class anchored fits.inside
      have known := laid d listed
      rw [named] at known
      exact known
    | int | double | bool | string | null | binary | unary | assign | name | field | element | call
    | send | newArray | readInteger | readLine | knot => trivial
  | top decl =>
    cases decl with
    | cls => exact laid _ (mem_classes.mpr ⟨fits.inside, rfl⟩)
    | var | interface | prototype | function => trivial
  | effect | stmt | function => trivial

/-! ## Where compiling fails -/

/-- A failure to generate code, but for the entry point, arises at a site that is reached. -/
theorem generate_traced {error : LowerError}
    (failed : (program.generate layouts shape).outcome = .error error) :
    error = .noMainFound ∨ ∃ origin, program.Reaches layouts shape origin ∧
      Arises program.arena layouts error origin := by
  unfold generate at failed
  split at failed
  · refine .inr ?_
    rw [Lower.program_apply] at failed
    cases result : (Lower.topLevels program.arena layouts program.top
        (Lower.opening program.top shape)).value with
    | ok => simp [result, Except.map] at failed
    | error e =>
      simp only [result, Except.map, Except.error.injEq] at failed
      subst failed
      obtain ⟨root, listed, fails⟩ := Lower.topLevels_blames program.top e result
      obtain ⟨origin, path, arises⟩ := fails.traced
      exact ⟨origin, ⟨root, listed, path⟩, arises⟩
  · cases failed
    exact .inl rfl

/-- Acceptance. In a program whose classes are all at the top level and on which analysis reports
nothing, lowering has a receiver at every `this` that it comes to, and a layout for every class that it
makes an object of or lays down; no failure arises at any of these. Compiling gives a result, and if that
is a failure, then there is no entry point, or it arises somewhere that lowering comes to. -/
theorem accepted_lowers (built : program.Built) (flat : ∀ cls ∈ program.classes, cls ∈ program.top)
    {options : Options} {analysis : Analysis} (ran : program.analyze options.shape = .ok analysis)
    (clean : analysis.reports = []) :
    (∀ visit, program.Reaches analysis.layouts options.shape visit →
      Supplied analysis.layouts visit ∧
        ∀ cause, Arises program.arena analysis.layouts cause visit → visit.1.mayFail = true) ∧
      ∃ compiled, program.compile options = .ok compiled ∧
        ∀ error, compiled.outcome = .error error → error = .lowering .noMainFound ∨
          ∃ cause origin, error = .lowering cause ∧
            program.Reaches analysis.layouts options.shape origin ∧
            Arises program.arena analysis.layouts cause origin := by
  constructor
  · intro visit reached
    have supplied := built.anchored.supplied flat ran clean reached
    exact ⟨supplied, fun cause arises => arises.cases.resolve_right (not_not_intro supplied)⟩
  · refine ⟨_, compile_accepted ran clean, fun error failed => ?_⟩
    cases generated : (program.generate analysis.layouts options.shape).outcome with
    | ok summary =>
      rw [generated] at failed
      cases failed
    | error cause =>
      rw [generated] at failed
      cases failed
      rcases generate_traced generated with rfl | ⟨origin, reached, arises⟩
      · exact .inl rfl
      · exact .inr ⟨cause, origin, rfl, reached, arises⟩

/-- A function that makes an object, and a class with a method that prints `this` in a loop. -/
def printsThis : List Step :=
  let word (name : String) : Ident := ⟨name, default⟩
  [ .new (word "Cell") default, .expr ⟨0⟩, .block [] [⟨0⟩] default,
    .function (word "main") (.primitive .void) [] (some ⟨1⟩),
    .bool true default, .this default, .print [⟨2⟩] default, .whileLoop ⟨1⟩ ⟨2⟩ default,
    .block [] [⟨3⟩] default, .function (word "show") (.primitive .void) [] (some ⟨4⟩),
    .cls (word "Cell") none [] [⟨1⟩] ]

/-- An object cannot be printed, and this failure does not arise at `this`, which has its receiver. -/
theorem accepted_lowers_this :
    ∃ program analysis compiled origin, Program.assemble printsThis [⟨0⟩, ⟨2⟩] = some program ∧
      program.analyze {} = .ok analysis ∧ analysis.reports = [] ∧
      program.compile {} = .ok compiled ∧
      compiled.outcome = .error (.lowering (.unsupportedPrintType "Cell")) ∧
      program.Reaches analysis.layouts {} origin ∧
      Arises program.arena analysis.layouts (.unsupportedPrintType "Cell") origin ∧
      origin.1.mayFail = true ∧
      ∀ site s, program.Reaches analysis.layouts {} (.place (.this site), s) →
        s.method.isSome = true := by
  have run : ((Program.assemble printsThis [⟨0⟩, ⟨2⟩]).bind fun program =>
      (program.analyze {}).toOption.map fun analysis =>
        (analysis.reports, (program.generate analysis.layouts {}).outcome,
          program.classes.all fun cls => program.top.any fun d => d.id = cls.id)) =
      some ([], .error (.unsupportedPrintType "Cell"), true) := by
    decide +kernel
  simp only [Option.bind_eq_some_iff, Option.map_eq_some_iff, Prod.mk.injEq] at run
  obtain ⟨program, made, analysis, ran, clean, generated, topped⟩ := run
  have built := Program.built_of_assemble made
  have ran : program.analyze ({} : Options).shape = .ok analysis := Arena.ok_of_toOption ran
  have flat : ∀ cls ∈ program.classes, cls ∈ program.top := by
    intro cls listed
    obtain ⟨d, top, same⟩ := List.any_eq_true.mp (List.all_eq_true.mp topped cls listed)
    rwa [← built.anchored.decl_inj (top_inside top) (mem_classes.mp listed).1 (of_decide_eq_true same)]
  obtain ⟨sites, compiled, compiles, traced⟩ := accepted_lowers built flat ran clean
  have failed : compiled.outcome = .error (.lowering (.unsupportedPrintType "Cell")) := by
    rw [compile_accepted ran clean, generated] at compiles
    cases compiles
    rfl
  rcases traced _ failed with absent | ⟨cause, origin, same, reached, arises⟩
  · cases absent
  · cases same
    exact ⟨program, analysis, compiled, origin, made, ran, clean, compiles, failed, reached, arises,
      (sites origin reached).2 _ arises, fun site s there => (sites _ there).1⟩

end Program

end DecafTac
