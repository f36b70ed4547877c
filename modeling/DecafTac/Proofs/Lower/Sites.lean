import DecafTac.Proofs.Lower.Bracketing
import DecafTac.Proofs.Lower.Visits

/-!
Where lowering comes to, and where it fails. Lowering a program lowers its top-level declarations in
turn, each of these its functions, and so on down to expressions: every part from a state of its own,
and only if what comes before it succeeds. A whole that fails does so because a part fails, or else of
itself; there are few sorts of sites at which the latter can happen, and a failure of the whole can be
traced to one of them.
-/
namespace DecafTac.Lower

/-- Something that is lowered. -/
inductive Site where
  /-- An expression, to the place it names. -/
  | place (e : Expr)
  /-- An expression, for what it does. -/
  | effect (e : Expr)
  | stmt (body : Stmt)
  /-- A function, by the layout of the class that declares it. -/
  | function (layout : Option ClassLayout) (decl : Decl)
  /-- A top-level declaration. -/
  | top (decl : Decl)

/-- A site and the state that it is lowered from. -/
abbrev Visit := Site × LowerState

namespace Site

/-- The tree that is lowered. -/
def tree : Site → Tree
  | .place e | .effect e => .expr e
  | .stmt body => .stmt body
  | .function _ decl | .top decl => .decl decl

/-- Whether a receiver is at hand. -/
def receives : Site → LowerState → Bool
  | .place _, s | .effect _, s | .stmt _, s => s.method.isSome
  | .function layout _, _ => layout.isSome
  | .top _, _ => false

/-- Whether the tree is a class. -/
def isClass : Site → Bool
  | .function _ decl | .top decl => decl.isClass
  | .place _ | .effect _ | .stmt _ => false

/-- How many sites of one tree lie inside one another. -/
def level : Site → Nat
  | .effect _ | .top _ => 1
  | .place _ | .stmt _ | .function .. => 0

theorem isClass_of_tree {site : Site} {cls : Decl} (same : site.tree = .decl cls)
    (isClass : cls.isClass = true) : site.isClass = true := by
  cases site with
  | function | top =>
    cases same
    exact isClass
  | place | effect | stmt => cases same

end Site

section Parts

variable {α β : Type}

/-- Sites in a row, each lowered after those before it. -/
def inTurn (site : α → Site) (step : α → Lower β) : List α → LowerState → List Visit
  | [], _ => []
  | a :: rest, s => (site a, s) :: after (step a) (fun _ => inTurn site step rest) s

variable (arena : Arena) (layouts : Layouts)

/-- The parts of a loop: the test, the body with the loop open, and the step. -/
def loopParts (id : StmtId) (test : Expr) (body : Stmt) (step : Option Expr) (s : LowerState) :
    List Visit :=
  let exit := Emitter.labelName (s.emitter.nextLabel + 1)
  (.place test, s.later 2 1) :: after (value layouts test) (fun _ t =>
    (.stmt body, { t.later 0 1 with loops := t.loops.enter id exit }) ::
      after (inLoop id exit (stmt arena layouts body))
        (fun _ u => step.toList.map fun e => (.effect e, u)) (t.later 0 1)) (s.later 2 1)

/-- The parts of a statement. -/
def stmtParts : Stmt → LowerState → List Visit
  | .block _ decls body, s =>
    after (declareLocals decls) (fun _ => inTurn .stmt (stmt arena layouts) body)
      { s with bindings := s.bindings.enter }
  | .ifThen _ test body, s =>
    (.place test, s) :: after (value layouts test) (fun _ t => [(.stmt body, t.later 1 1)]) s
  | .ifElse _ test yes no, s =>
    (.place test, s) :: after (value layouts test) (fun _ t =>
      (.stmt yes, t.later 1 1) ::
        after (stmt arena layouts yes) (fun _ u => [(.stmt no, u.later 1 2)]) (t.later 1 1)) s
  | .whileLoop site test body, s => loopParts arena layouts site.id test body none s
  | .forLoop site init test step body, s =>
    init.toList.map (fun e => (.effect e, s)) ++
      after (optionalEffect layouts init) (fun _ => loopParts arena layouts site.id test body step) s
  | .ret _ result, s => result.toList.map fun e => (.place e, s)
  | .print _ args, s => inTurn .place (fun e => printAll layouts [e]) args s
  | .expr _ e, s => [(.effect e, s)]
  | .leave _, _ | .knot _, _ => []

/-- The parts of an expression. What is assigned to is not read. -/
def placeParts : Expr → LowerState → List Visit
  | .assign _ target source, s =>
    (.place target, s) :: after (place layouts target) (fun _ t => [(.place source, t)]) s
  | e, s => inTurn .place (value layouts) e.children s

/-- The sites that lowering a site from a state comes to next, with their states. -/
def Site.parts : Site → LowerState → List Visit
  | .place e, s => placeParts layouts e s
  | .effect e, s =>
    match e with
    | .call .. | .send .. => inTurn .place (value layouts) e.children s
    | _ => [(.place e, s)]
  | .stmt body, s => stmtParts arena layouts body s
  | .function layout decl, s =>
    match decl with
    | .function _ _ _ formals body => [(.stmt body, started layout formals s)]
    | _ => []
  | .top decl, s =>
    match decl with
    | .cls _ name _ _ members => (layouts.class? name.name).elim [] fun layout =>
      inTurn (.function (some layout)) (Lower.function arena layouts (some layout)) members s
    | _ => [(.function none decl, s)]

/-- Lowering a site from a state comes to a part of it. -/
def Comes (whole part : Visit) : Prop := part ∈ whole.1.parts arena layouts whole.2

/-- Lowering a site from a state fails. -/
def Fails (error : LowerError) : Visit → Prop
  | (.place e, s) => (place layouts e s).value = .error error
  | (.effect e, s) => (effect layouts e s).value = .error error
  | (.stmt body, s) => (stmt arena layouts body s).value = .error error
  | (.function layout decl, s) => (function arena layouts layout decl s).value = .error error
  | (.top decl, s) => (topLevel arena layouts decl s).value = .error error

/-- A failure arises at a site: the site fails, and none of its parts does. -/
def Arises (error : LowerError) (visit : Visit) : Prop :=
  Fails arena layouts error visit ∧
    ∀ part, Comes arena layouts visit part → ¬ Fails arena layouts error part

/-- What a site needs that analysis answers for: `this` a receiver, and an object or a class that is laid
down the layout of the class. -/
def Supplied : Visit → Prop
  | (.place (.this _), s) => s.method.isSome = true
  | (.place (.new _ cls), _) => (layouts.class? cls.name).isSome = true
  | (.top (.cls _ name _ _ _), _) => (layouts.class? name.name).isSome = true
  | _ => True

end Parts

/-- The sites that can fail for other reasons: names, fields, calls, knots, printing and `break`. -/
def Site.mayFail : Site → Bool
  | .place (.name ..) | .place (.field ..) | .place (.call ..) | .place (.send ..) => true
  | .place (.knot _) | .effect (.call ..) | .effect (.send ..) => true
  | .stmt (.print ..) | .stmt (.leave _) => true
  | _ => false

/-! ## The parts of a site -/

section Rows

variable {α β : Type} {s : LowerState} {visit : Visit}

theorem mem_after {step : Lower α} {next : α → LowerState → List Visit} :
    visit ∈ after step next s ↔ ∃ a, (step s).value = .ok a ∧ visit ∈ next a (step s).state := by
  rw [after]
  cases (step s).value with
  | error e => simp
  | ok a => simp

theorem mem_inTurn {site : α → Site} {step : α → Lower β} {items : List α}
    (listed : visit ∈ inTurn site step items s) : ∃ a ∈ items, visit.1 = site a := by
  induction items generalizing s with
  | nil => cases listed
  | cons a rest ih =>
    rcases List.mem_cons.mp listed with rfl | listed
    · exact ⟨a, List.mem_cons_self, rfl⟩
    · obtain ⟨_, -, listed⟩ := mem_after.mp listed
      obtain ⟨other, member, same⟩ := ih listed
      exact ⟨other, List.mem_cons_of_mem _ member, same⟩

/-- Sites in a row that keep the open method are all lowered with it. -/
theorem inTurn_method {site : α → Site} {step : α → Lower β} (inner : ∀ a, Inner (step a))
    {items : List α} (listed : visit ∈ inTurn site step items s) : visit.2.method = s.method := by
  induction items generalizing s with
  | nil => cases listed
  | cons a rest ih =>
    rcases List.mem_cons.mp listed with rfl | listed
    · rfl
    · obtain ⟨_, -, listed⟩ := mem_after.mp listed
      exact (ih listed).trans (inner a s).1.method

end Rows

section Descending

variable {arena : Arena} {layouts : Layouts} {s : LowerState} {whole part : Visit}

/-- A part lies in the tree of the whole, and it has a receiver when the whole has one or is a class. -/
structure Below (whole part : Visit) : Prop where
  tree : part.1.tree = whole.1.tree ∧ part.1.level < whole.1.level ∨
    part.1.tree ∈ whole.1.tree.children
  receives : part.1.receives part.2 = (whole.1.isClass || whole.1.receives whole.2)

/-- A part of an expression or a statement, with the same method open. -/
theorem Below.child {site : Site} (inside : site.receives s = s.method.isSome)
    (plain : site.isClass = false) (among : part.1.tree ∈ site.tree.children)
    (kind : part.1.receives part.2 = part.2.method.isSome) (kept : part.2.method = s.method) :
    Below (site, s) part := by
  refine ⟨.inr among, ?_⟩
  rw [kind, kept, plain, Bool.false_or]
  exact inside.symm

/-- Expressions in a row that are the parts of one. -/
theorem Below.operands (layouts : Layouts) {site : Site} {e : Expr}
    (inside : site.receives s = s.method.isSome) (plain : site.isClass = false)
    (whole : site.tree = .expr e)
    (listed : part ∈ inTurn .place (value layouts) e.children s) : Below (site, s) part := by
  obtain ⟨operand, member, same⟩ := mem_inTurn listed
  refine .child inside plain ?_ ?_ (inTurn_method (value_inner layouts) listed)
  · rw [same, whole]
    exact List.mem_map_of_mem member
  · rw [same]
    rfl

theorem loopParts_below {id : StmtId} {test : Expr} {body : Stmt} {step : Option Expr}
    (listed : part ∈ loopParts arena layouts id test body step s) :
    part.2.method = s.method ∧ (part.1 = .place test ∨ part.1 = .stmt body ∨
      ∃ e ∈ step, part.1 = .effect e) := by
  rcases List.mem_cons.mp listed with rfl | listed
  · exact ⟨rfl, .inl rfl⟩
  · obtain ⟨_, -, listed⟩ := mem_after.mp listed
    have tested := (value_inner layouts test (s.later 2 1)).1.method
    rcases List.mem_cons.mp listed with rfl | listed
    · exact ⟨tested, .inr (.inl rfl)⟩
    · obtain ⟨_, -, listed⟩ := mem_after.mp listed
      obtain ⟨e, among, rfl⟩ := List.mem_map.mp listed
      refine ⟨?_, .inr (.inr ⟨e, Option.mem_toList.mp among, rfl⟩)⟩
      exact ((inLoop_inner id _ (stmt_inner arena layouts body) _).1.method).trans tested

/-- A part of a statement is one of its children, and the open method is the same. -/
theorem stmtParts_below {body : Stmt} (listed : part ∈ stmtParts arena layouts body s) :
    part.1.tree ∈ body.children ∧ part.1.receives part.2 = part.2.method.isSome ∧
      part.2.method = s.method := by
  cases body with
  | block site decls body =>
    obtain ⟨_, -, listed⟩ := mem_after.mp listed
    obtain ⟨child, member, same⟩ := mem_inTurn listed
    have kept := inTurn_method (stmt_inner arena layouts) listed
    rw [same]
    refine ⟨?_, rfl, kept.trans (declareLocals_inner decls _).1.method⟩
    simp [Site.tree, Stmt.children, member]
  | ifThen site test body =>
    rcases List.mem_cons.mp listed with rfl | listed
    · exact ⟨by simp [Site.tree, Stmt.children], rfl, rfl⟩
    · obtain ⟨_, -, listed⟩ := mem_after.mp listed
      cases List.mem_singleton.mp listed
      exact ⟨by simp [Site.tree, Stmt.children], rfl, (value_inner layouts test s).1.method⟩
  | ifElse site test yes no =>
    have tested := (value_inner layouts test s).1.method
    rcases List.mem_cons.mp listed with rfl | listed
    · exact ⟨by simp [Site.tree, Stmt.children], rfl, rfl⟩
    · obtain ⟨_, -, listed⟩ := mem_after.mp listed
      rcases List.mem_cons.mp listed with rfl | listed
      · exact ⟨by simp [Site.tree, Stmt.children], rfl, tested⟩
      · obtain ⟨_, -, listed⟩ := mem_after.mp listed
        cases List.mem_singleton.mp listed
        refine ⟨by simp [Site.tree, Stmt.children], rfl, ?_⟩
        exact (stmt_inner arena layouts yes _).1.method.trans tested
  | whileLoop site test body =>
    obtain ⟨kept, same | same | ⟨_, none, -⟩⟩ := loopParts_below listed
    · exact ⟨by simp [same, Site.tree, Stmt.children], by rw [same]; rfl, kept⟩
    · exact ⟨by simp [same, Site.tree, Stmt.children], by rw [same]; rfl, kept⟩
    · cases none
  | forLoop site init test step body =>
    rcases List.mem_append.mp listed with listed | listed
    · obtain ⟨e, among, rfl⟩ := List.mem_map.mp listed
      exact ⟨by simp [Site.tree, Stmt.children, Option.mem_toList.mp among], rfl, rfl⟩
    · obtain ⟨_, -, listed⟩ := mem_after.mp listed
      have begun := (optionalEffect_inner layouts init s).1.method
      obtain ⟨kept, same | same | ⟨e, among, same⟩⟩ := loopParts_below listed
      · exact ⟨by simp [same, Site.tree, Stmt.children], by rw [same]; rfl, kept.trans begun⟩
      · exact ⟨by simp [same, Site.tree, Stmt.children], by rw [same]; rfl, kept.trans begun⟩
      · refine ⟨?_, by rw [same]; rfl, kept.trans begun⟩
        simp [same, Site.tree, Stmt.children, Option.mem_def.mp among]
  | ret site result =>
    obtain ⟨e, among, rfl⟩ := List.mem_map.mp listed
    exact ⟨List.mem_map_of_mem among, rfl, rfl⟩
  | print site args =>
    obtain ⟨child, member, same⟩ := mem_inTurn listed
    have kept := inTurn_method (fun e => printAll_inner layouts [e]) listed
    rw [same]
    exact ⟨List.mem_map_of_mem member, rfl, kept⟩
  | expr site e =>
    cases List.mem_singleton.mp listed
    exact ⟨List.mem_cons_self, rfl, rfl⟩
  | leave | knot => cases listed

/-- What lowering comes to next lies below what it comes from. -/
theorem Comes.below (comes : Comes arena layouts whole part) : Below whole part := by
  obtain ⟨site, s⟩ := whole
  cases site with
  | place e =>
    cases e with
    | assign site target source =>
      rcases List.mem_cons.mp comes with rfl | listed
      · exact .child rfl rfl (by simp [Site.tree, Tree.children, Expr.children]) rfl rfl
      · obtain ⟨_, -, listed⟩ := mem_after.mp listed
        cases List.mem_singleton.mp listed
        exact .child rfl rfl (by simp [Site.tree, Tree.children, Expr.children]) rfl
          (place_inner layouts target s).1.method
    | int | double | bool | string | null | binary | unary | name | field | element | call | send
    | new | newArray | this | readInteger | readLine | knot =>
      exact Below.operands layouts rfl rfl rfl comes
  | effect e =>
    cases e with
    | call | send => exact Below.operands layouts rfl rfl rfl comes
    | int | double | bool | string | null | binary | unary | assign | name | field | element | new
    | newArray | this | readInteger | readLine | knot =>
      cases List.mem_singleton.mp comes
      exact ⟨.inl ⟨rfl, Nat.zero_lt_one⟩, rfl⟩
  | stmt body =>
    obtain ⟨among, kind, kept⟩ := stmtParts_below comes
    exact .child rfl rfl among kind kept
  | function layout decl =>
    cases decl with
    | function id name result formals body =>
      cases List.mem_singleton.mp comes
      refine ⟨.inr (by simp [Site.tree, Tree.children, Decl.children]), ?_⟩
      -- the frame has a receiver if it is opened by a layout
      cases layout <;> rfl
    | var | cls | interface | prototype => cases comes
  | top decl =>
    cases decl with
    | cls id name superclass interfaces members =>
      simp only [Comes, Site.parts] at comes
      cases found : layouts.class? name.name with
      | none =>
        rw [found] at comes
        cases comes
      | some layout =>
        rw [found] at comes
        obtain ⟨member, among, same⟩ := mem_inTurn comes
        refine ⟨.inr ?_, ?_⟩
        · rw [same]
          exact List.mem_map_of_mem among
        · rw [same]
          rfl
    | var | interface | prototype | function =>
      cases List.mem_singleton.mp comes
      exact ⟨.inl ⟨rfl, Nat.zero_lt_one⟩, rfl⟩

end Descending

/-! ## Failures -/

section Blaming

variable {α β : Type} (arena : Arena) (layouts : Layouts)

/-- A step that fails from a state does so because one of the given parts fails. -/
def Blames (step : Lower α) (s : LowerState) (parts : List Visit) : Prop :=
  ∀ error, (step s).value = .error error → ∃ part ∈ parts, Fails arena layouts error part

variable {arena layouts} {s : LowerState} {parts : List Visit} {step : Lower α}

namespace Blames

/-- A step that succeeds. -/
theorem done {a : α} {t : LowerState} {code : List Instruction} (run : step s = ⟨.ok a, t, code⟩) :
    Blames arena layouts step s parts := by
  intro error failed
  rw [run] at failed
  cases failed

/-- A step with nothing to blame before the rest. -/
theorem skip {rest : α → Lower β} {a : α} {t : LowerState} {code : List Instruction}
    (run : step s = ⟨.ok a, t, code⟩) (second : Blames arena layouts (rest a) t parts) :
    Blames arena layouts (step >>= rest) s parts := by
  intro error failed
  rw [Lower.bind_apply, run] at failed
  exact second error failed

theorem bind {rest : α → Lower β} {next : LowerState → List Visit}
    (first : Blames arena layouts step s parts)
    (second : ∀ a t, Blames arena layouts (rest a) t (next t)) :
    Blames arena layouts (step >>= rest) s (parts ++ after step (fun _ => next) s) := by
  intro error failed
  rw [Lower.bind_apply] at failed
  cases result : (step s).value with
  | error e =>
    rw [result] at failed
    cases failed
    obtain ⟨part, listed, fails⟩ := first error result
    exact ⟨part, List.mem_append_left _ listed, fails⟩
  | ok a =>
    rw [result] at failed
    obtain ⟨part, listed, fails⟩ := second a (step s).state error failed
    exact ⟨part, List.mem_append_right _ (mem_after.mpr ⟨a, result, listed⟩), fails⟩

/-- Only the first of two steps can be blamed. -/
theorem last {rest : α → Lower β} (first : Blames arena layouts step s parts)
    (second : ∀ a t, Blames arena layouts (rest a) t []) :
    Blames arena layouts (step >>= rest) s parts := by
  have both := first.bind second
  rwa [after_nil, List.append_nil] at both

theorem discard (first : Blames arena layouts step s parts) :
    Blames arena layouts (discard step) s parts :=
  first.last fun _ _ => done rfl

theorem ensuring {after : Emission LowerState Unit} (first : Blames arena layouts step s parts) :
    Blames arena layouts (Lower.ensuring step after) s parts :=
  first

/-- Steps in a row, each with its own site to blame. -/
theorem row {site : β → Site} {each : β → Lower Unit} {all : List β → Lower Unit}
    (nil : all [] = pure ()) (cons : ∀ b rest, all (b :: rest) = each b >>= fun _ => all rest)
    (one : ∀ b t, Blames arena layouts (each b) t [(site b, t)]) (items : List β) (s : LowerState) :
    Blames arena layouts (all items) s (inTurn site each items s) := by
  induction items generalizing s with
  | nil =>
    rw [nil]
    exact done rfl
  | cons b rest ih =>
    rw [cons]
    exact (one b s).bind fun _ t => ih t

end Blames

theorem place_blames (e : Expr) : Blames arena layouts (place layouts e) s [(.place e, s)] :=
  fun _ failed => ⟨_, List.mem_cons_self, failed⟩

theorem read_blames (place : Place) : Blames arena layouts (read place) s [] := by
  cases place with
  | «variable» | computed | memory => exact .done rfl

theorem value_blames (e : Expr) : Blames arena layouts (value layouts e) s [(.place e, s)] :=
  (place_blames e).last fun place _ => read_blames place

theorem effect_blames (e : Expr) : Blames arena layouts (effect layouts e) s [(.effect e, s)] :=
  fun _ failed => ⟨_, List.mem_cons_self, failed⟩

theorem stmt_blames (body : Stmt) : Blames arena layouts (stmt arena layouts body) s [(.stmt body, s)] :=
  fun _ failed => ⟨_, List.mem_cons_self, failed⟩

theorem write_blames (place : Place) (value : Value) : Blames arena layouts (write place value) s [] := by
  cases place with
  | «variable» name dst =>
    refine .skip rfl ?_
    split <;> exact .done rfl
  | memory | computed => exact .done rfl

theorem declareLocals_blames (decls : List Decl) :
    Blames arena layouts (declareLocals decls) s [] := by
  induction decls generalizing s with
  | nil => exact .done rfl
  | cons decl rest ih =>
    cases decl with
    | var => exact .skip rfl (.skip rfl ih)
    | cls | interface | prototype | function => exact ih

theorem optionalEffect_blames (e : Option Expr) :
    Blames arena layouts (optionalEffect layouts e) s (e.toList.map fun e => (.effect e, s)) := by
  cases e with
  | none => exact .done rfl
  | some e => exact effect_blames e

theorem inLoop_blames (id : StmtId) (exit : String) (body : Stmt) :
    Blames arena layouts (inLoop id exit (stmt arena layouts body)) s
      [(.stmt body, { s with loops := s.loops.enter id exit })] :=
  .skip rfl (stmt_blames body).ensuring

theorem loop_blames (id : StmtId) (test : Expr) (body : Stmt) (step : Option Expr) :
    Blames arena layouts
      (loop id (value layouts test) (stmt arena layouts body) (optionalEffect layouts step)) s
      (loopParts arena layouts id test body step s) := by
  -- two labels are taken and one is placed before the test, and a jump issued after it
  refine .skip rfl (.skip rfl (.skip rfl ?_))
  refine (value_blames test).bind fun _ t => .skip rfl ?_
  refine (inLoop_blames id _ body).bind fun _ u => ?_
  exact (optionalEffect_blames step).last fun _ _ => .done rfl

/-! A site that has what it needs, and is not of a sort that can fail otherwise, fails only by a part. -/

theorem placeParts_blamed {e : Expr} (sort : (Site.place e).mayFail = false)
    (supplied : Supplied layouts (.place e, s)) :
    Blames arena layouts (place layouts e) s (placeParts layouts e s) := by
  cases e with
  | name | field | call | send | knot => cases sort
  | int | double | bool | string | null | readInteger | readLine => exact .done rfl
  | binary site op left right =>
    refine (value_blames left).bind fun _ t => ?_
    exact (value_blames right).bind fun _ u => .done rfl
  | unary site op operand => exact (value_blames operand).bind fun _ t => .done rfl
  | assign site target source =>
    refine (place_blames target).bind fun dst t => (value_blames source).last fun v u => ?_
    exact (write_blames dst v).last fun _ _ => .done rfl
  | element site array index =>
    refine (value_blames array).bind fun _ t => ?_
    exact (value_blames index).bind fun _ u => .done rfl
  | newArray site size element => exact (value_blames size).bind fun _ t => .done rfl
  | new site cls =>
    obtain ⟨layout, known⟩ := Option.isSome_iff_exists.mp supplied
    rw [place, classLayout, known]
    exact .done rfl
  | this site =>
    obtain ⟨method, opened⟩ := Option.isSome_iff_exists.mp supplied
    rw [place]
    refine .skip rfl ?_
    rw [opened]
    exact .done rfl

theorem effectParts_blamed {e : Expr} (sort : (Site.effect e).mayFail = false) :
    Blames arena layouts (effect layouts e) s ((Site.effect e).parts arena layouts s) := by
  cases e with
  | call | send => cases sort
  | int | double | bool | string | null | binary | unary | assign | name | field | element | new
  | newArray | this | readInteger | readLine | knot =>
    exact (value_blames _).discard

theorem stmtParts_blamed {body : Stmt} (sort : (Site.stmt body).mayFail = false) :
    Blames arena layouts (stmt arena layouts body) s (stmtParts arena layouts body s) := by
  cases body with
  | print | leave => cases sort
  | knot => exact .done rfl
  | block site decls body =>
    refine .skip rfl (Blames.ensuring ?_)
    refine (declareLocals_blames decls).bind fun _ => ?_
    exact Blames.row rfl (fun _ _ => rfl) (fun body t => stmt_blames body) body
  | ifThen site test body =>
    refine (value_blames test).bind fun _ t => .skip rfl (.skip rfl ?_)
    exact (stmt_blames body).last fun _ _ => .done rfl
  | ifElse site test yes no =>
    refine (value_blames test).bind fun _ t => .skip rfl (.skip rfl ?_)
    refine (stmt_blames yes).bind fun _ u => .skip rfl (.skip rfl (.skip rfl ?_))
    exact (stmt_blames no).last fun _ _ => .done rfl
  | whileLoop site test body => exact loop_blames site.id test body none
  | forLoop site init test step body =>
    exact (optionalEffect_blames init).bind fun _ t => loop_blames site.id test body step
  | ret site result =>
    cases result with
    | none => exact .done rfl
    | some e => exact (value_blames e).last fun _ _ => .done rfl
  | expr site e => exact effect_blames e

theorem functionParts_blamed (layout : Option ClassLayout) (decl : Decl) :
    Blames arena layouts (function arena layouts layout decl) s
      ((Site.function layout decl).parts arena layouts s) := by
  cases decl with
  | function id name result formals body =>
    exact .skip rfl (.skip rfl (stmt_blames body).ensuring)
  | prototype | var | cls | interface => exact .done rfl

theorem function_blames (layout : Option ClassLayout) (decl : Decl) :
    Blames arena layouts (function arena layouts layout decl) s [(.function layout decl, s)] :=
  fun _ failed => ⟨_, List.mem_cons_self, failed⟩

theorem topParts_blamed {decl : Decl} (supplied : Supplied layouts (.top decl, s)) :
    Blames arena layouts (topLevel arena layouts decl) s ((Site.top decl).parts arena layouts s) := by
  cases decl with
  | cls id name superclass interfaces members =>
    obtain ⟨layout, known⟩ := Option.isSome_iff_exists.mp supplied
    rw [topLevel, classLayout, known, Site.parts, known]
    refine .skip rfl (.last ?_ fun _ _ => .done rfl)
    exact Blames.row rfl (fun _ _ => rfl) (fun member t => function_blames _ member) members s
  | var | interface | prototype | function => exact function_blames none _

theorem topLevel_blames (decl : Decl) :
    Blames arena layouts (topLevel arena layouts decl) s [(.top decl, s)] :=
  fun _ failed => ⟨_, List.mem_cons_self, failed⟩

theorem topLevels_blames (decls : List Decl) :
    Blames arena layouts (topLevels arena layouts decls) s
      (inTurn .top (topLevel arena layouts) decls s) :=
  Blames.row rfl (fun _ _ => rfl) (fun decl _ => topLevel_blames decl) decls s

/-- A failure arises where something is missing, or at a site of a sort that can fail. -/
theorem Arises.cases {visit : Visit} {error : LowerError} (arises : Arises arena layouts error visit) :
    visit.1.mayFail = true ∨ ¬ Supplied layouts visit := by
  obtain ⟨failed, alone⟩ := arises
  by_contra neither
  obtain ⟨sort, supplied⟩ := not_or.mp neither
  rw [Bool.not_eq_true] at sort
  rw [not_not] at supplied
  have blamed : ∃ part ∈ visit.1.parts arena layouts visit.2, Fails arena layouts error part := by
    obtain ⟨site, s⟩ := visit
    cases site with
    | place e => exact placeParts_blamed sort supplied error failed
    | effect e => exact effectParts_blamed sort error failed
    | stmt body => exact stmtParts_blamed sort error failed
    | function layout decl => exact functionParts_blamed layout decl error failed
    | top decl => exact topParts_blamed supplied error failed
  obtain ⟨part, listed, fails⟩ := blamed
  exact alone part listed fails

end Blaming

/-! ## Tracing a failure -/

section Tracing

variable {arena : Arena} {layouts : Layouts} {error : LowerError}

/-- A measure that parts have less of than their wholes. -/
def Site.weight (site : Site) : Nat := 2 * site.tree.nodes.length + site.level

theorem Site.level_le_one (site : Site) : site.level ≤ 1 := by
  cases site <;> simp [Site.level]

theorem Below.lighter {whole part : Visit} (below : Below whole part) :
    part.1.weight < whole.1.weight := by
  unfold Site.weight
  rcases below.tree with ⟨same, lower⟩ | child
  · rw [same]
    omega
  · have smaller := Tree.part_smaller child
    have := part.1.level_le_one
    omega

/-- A failure comes from a site at which it arises. -/
theorem Fails.traced {visit : Visit} (failed : Fails arena layouts error visit) :
    ∃ origin, Relation.ReflTransGen (Comes arena layouts) visit origin ∧
      Arises arena layouts error origin := by
  -- a failing part is followed as long as there is one, and parts are lighter than their wholes
  by_cases inside : ∃ part, Comes arena layouts visit part ∧ Fails arena layouts error part
  · obtain ⟨part, comes, fails⟩ := inside
    obtain ⟨origin, path, arises⟩ := fails.traced
    exact ⟨origin, .head comes path, arises⟩
  · exact ⟨visit, .refl, failed, fun part comes fails => inside ⟨part, comes, fails⟩⟩
termination_by visit.1.weight
decreasing_by exact comes.below.lighter

end Tracing

end DecafTac.Lower
