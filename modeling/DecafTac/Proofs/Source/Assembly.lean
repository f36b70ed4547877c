import Mathlib.Data.List.Forall2
import DecafTac.Proofs.Source.Trees
import DecafTac.Source.Arena

/-!
Programs assembled in order. A step is ready when all its children are there already and none has been
taken by another node; an arena is built when each of its nodes was made by a ready step, and a program
when it was closed over ready declarations. Whatever its sort, a ready step makes one new tree out of
stored parts and makes that tree the parent of each.
-/
namespace DecafTac

/-! ## Ready steps -/

/-- The nodes that a step takes as children. -/
def Step.children : Step → List Node
  | .cls _ _ _ members | .interface _ members => members.map .decl
  | .function _ _ formals none => formals.map .decl
  | .function _ _ formals (some body) => formals.map .decl ++ [.stmt body]
  | .block decls stmts _ => decls.map .decl ++ stmts.map .stmt
  | .ifElse test yes no _ => .expr test :: .stmt yes :: no.toList.map .stmt
  | .whileLoop test body _ => [.expr test, .stmt body]
  | .forLoop init test step body _ =>
    init.toList.map .expr ++ [.expr test] ++ step.toList.map .expr ++ [.stmt body]
  | .ret value _ => value.toList.map .expr
  | .print args _ => args.map .expr
  | .expr e => [.expr e]
  | .binary _ left right => [.expr left, .expr right]
  | .unary _ operand _ => [.expr operand]
  | .assign target value => [.expr target, .expr value]
  | .field object _ => [.expr object]
  | .element array index => [.expr array, .expr index]
  | .call receiver _ actuals _ => receiver.toList.map .expr ++ actuals.map .expr
  | .newArray size _ _ => [.expr size]
  | .var .. | .leave _ | .int .. | .double .. | .bool .. | .string .. | .null _ => []
  | .name _ | .new .. | .this _ | .readInteger _ | .readLine _ => []

/-- How many nodes of each sort there are. -/
structure Tally where
  decls : Nat := 0
  stmts : Nat := 0
  exprs : Nat := 0

namespace Tally

/-- The node that a step makes: the next one of its own sort. -/
def next (tally : Tally) : Step → Node
  | .var .. | .cls .. | .interface .. | .function .. => .decl ⟨tally.decls⟩
  | .block .. | .ifElse .. | .whileLoop .. | .forLoop .. => .stmt ⟨tally.stmts⟩
  | .ret .. | .print .. | .leave .. | .expr .. => .stmt ⟨tally.stmts⟩
  | .int .. | .double .. | .bool .. | .string .. | .null .. | .binary .. | .unary .. | .assign ..
  | .name .. | .field .. | .element .. | .call .. | .new .. | .newArray .. | .this ..
  | .readInteger .. | .readLine .. => .expr ⟨tally.exprs⟩

/-- Counts one more node. -/
def count (tally : Tally) : Node → Tally
  | .program => tally
  | .decl _ => { tally with decls := tally.decls + 1 }
  | .stmt _ => { tally with stmts := tally.stmts + 1 }
  | .expr _ => { tally with exprs := tally.exprs + 1 }

end Tally

namespace Arena

def tally (arena : Arena) : Tally := ⟨arena.decls.size, arena.stmts.size, arena.exprs.size⟩

/-- The tree of a node. The program itself has none. -/
def tree? (arena : Arena) : Node → Option Tree
  | .program => none
  | .decl id => (arena.decl? id).map .decl
  | .stmt id => (arena.stmt? id).map .stmt
  | .expr id => (arena.expr? id).map .expr

/-- Nodes that can be taken as children together: each is there, none has a parent, no two are the
same. -/
structure Ready (arena : Arena) (children : List Node) : Prop where
  stored : ∀ c ∈ children, (arena.tree? c).isSome
  unclaimed : ∀ c ∈ children, arena.parent? c = none
  distinct : children.Nodup

/-- An arena in which every node was made from ready children. -/
inductive Built : Arena → Prop where
  | empty : Built {}
  | step {arena grown : Arena} {step : Step} {node : Node} (built : Built arena)
      (ready : arena.Ready step.children) (added : arena.add step = .ok (node, grown)) : Built grown

end Arena

/-- A program closed over ready declarations of a built arena. -/
def Program.Built (program : Program) : Prop :=
  ∃ (arena : Arena) (top : List DeclId),
    arena.Built ∧ arena.Ready (top.map .decl) ∧ arena.close top = .ok program

/-! ## Assembling from a list of steps -/

namespace Arena

instance (arena : Arena) (children : List Node) : Decidable (arena.Ready children) :=
  decidable_of_iff ((∀ c ∈ children, (arena.tree? c).isSome) ∧
      (∀ c ∈ children, arena.parent? c = none) ∧ children.Nodup)
    ⟨fun ⟨stored, unclaimed, distinct⟩ => ⟨stored, unclaimed, distinct⟩,
      fun ready => ⟨ready.stored, ready.unclaimed, ready.distinct⟩⟩

/-- Takes steps in order, as long as each is ready. -/
def assemble (arena : Arena) : List Step → Option Arena
  | [] => some arena
  | step :: rest =>
    if arena.Ready step.children then
      match arena.add step with
      | .ok (_, grown) => grown.assemble rest
      | .error _ => none
    else none

theorem Built.assemble {arena grown : Arena} {steps : List Step} (built : arena.Built)
    (made : arena.assemble steps = some grown) : grown.Built := by
  induction steps generalizing arena with
  | nil =>
    cases made
    exact built
  | cons step rest ih =>
    unfold Arena.assemble at made
    split at made
    · rename_i ready
      split at made
      · rename_i node middle added
        exact ih (.step built ready added) made
      · cases made
    · cases made

end Arena

theorem Arena.ok_of_toOption {ε α : Type} {result : Except ε α} {value : α}
    (kept : result.toOption = some value) : result = .ok value := by
  cases result with
  | error => cases kept
  | ok found =>
    cases kept
    rfl

/-- The program that the steps make, closed over the given declarations. -/
def Program.assemble (steps : List Step) (top : List DeclId) : Option Program :=
  match Arena.assemble {} steps with
  | some arena => if arena.Ready (top.map .decl) then (arena.close top).toOption else none
  | none => none

theorem Program.built_of_assemble {steps : List Step} {top : List DeclId} {program : Program}
    (made : Program.assemble steps top = some program) : program.Built := by
  unfold Program.assemble at made
  split at made
  · rename_i arena assembled
    split at made
    · rename_i ready
      exact ⟨arena, top, Arena.Built.empty.assemble assembled, ready, Arena.ok_of_toOption made⟩
    · cases made
  · cases made

namespace Arena

/-! ## What adopting and making change -/

private theorem node_modify {α : Type} (entries : Array (Entry α)) (i j : Nat) (parent : Node) :
    (entries.modify i fun e => { e with parent := some parent })[j]?.map Entry.node =
      entries[j]?.map Entry.node := by
  rw [Array.getElem?_modify]
  split
  · rw [Option.map_map]
    rfl
  · rfl

private theorem parent_modify {α : Type} {entries : Array (Entry α)} {i : Nat} (j : Nat)
    (parent : Node) (stored : entries[i]?.isSome) :
    (entries.modify i fun e => { e with parent := some parent })[j]?.bind Entry.parent =
      if j = i then some parent else entries[j]?.bind Entry.parent := by
  rw [Array.getElem?_modify]
  by_cases same : j = i
  · subst same
    obtain ⟨entry, found⟩ := Option.isSome_iff_exists.mp stored
    simp [found]
  · simp [same, Ne.symm same]

theorem tree?_adopt (arena : Arena) (parent child n : Node) :
    (arena.adopt parent child).tree? n = arena.tree? n := by
  cases child <;> cases n <;> simp [adopt, tree?, decl?, stmt?, expr?, node_modify]

theorem parent?_adopt {arena : Arena} (parent : Node) {child : Node} (n : Node)
    (stored : (arena.tree? child).isSome) :
    (arena.adopt parent child).parent? n = if n = child then some parent else arena.parent? n := by
  cases child with
  | program => cases stored
  | decl id =>
    have there : arena.decls[id.index]?.isSome := by simpa [tree?, decl?] using stored
    cases n <;> simp [adopt, parent?, parent_modify _ _ there, DeclId.ext_iff]
  | stmt id =>
    have there : arena.stmts[id.index]?.isSome := by simpa [tree?, stmt?] using stored
    cases n <;> simp [adopt, parent?, parent_modify _ _ there, StmtId.ext_iff]
  | expr id =>
    have there : arena.exprs[id.index]?.isSome := by simpa [tree?, expr?] using stored
    cases n <;> simp [adopt, parent?, parent_modify _ _ there, ExprId.ext_iff]

theorem size_adopt (arena : Arena) (parent child : Node) : (arena.adopt parent child).size = arena.size := by
  cases child <;> simp [adopt, size]

theorem tree?_adoptAll (arena : Arena) (parent : Node) (children : List Node) (n : Node) :
    (arena.adoptAll parent children).tree? n = arena.tree? n := by
  induction children generalizing arena with
  | nil => rfl
  | cons child rest ih =>
    have step := ih (arena.adopt parent child)
    rwa [tree?_adopt] at step

theorem parent?_adoptAll {arena : Arena} (parent : Node) {children : List Node} (n : Node)
    (stored : ∀ c ∈ children, (arena.tree? c).isSome) :
    (arena.adoptAll parent children).parent? n =
      if n ∈ children then some parent else arena.parent? n := by
  induction children generalizing arena with
  | nil => rfl
  | cons child rest ih =>
    have here : (arena.tree? child).isSome := stored child (by simp)
    have later : ∀ c ∈ rest, ((arena.adopt parent child).tree? c).isSome := by
      intro c member
      rw [tree?_adopt]
      exact stored c (by simp [member])
    have step := ih later
    rw [parent?_adopt parent n here] at step
    refine step.trans ?_
    by_cases head : n = child <;> by_cases tail : n ∈ rest <;> simp [head, tail]

theorem size_adoptAll (arena : Arena) (parent : Node) (children : List Node) :
    (arena.adoptAll parent children).size = arena.size := by
  induction children generalizing arena with
  | nil => rfl
  | cons child rest ih => exact (ih _).trans (size_adopt arena parent child)

theorem tally_adoptAll (arena : Arena) (parent : Node) (children : List Node) :
    (arena.adoptAll parent children).tally = arena.tally := by
  induction children generalizing arena with
  | nil => rfl
  | cons child rest ih =>
    refine (ih _).trans ?_
    cases child <;> simp [adopt, tally]

/-- The place of a new tree: the next one of its sort. -/
def place (arena : Arena) : Tree → Node
  | .decl _ => .decl arena.nextDecl
  | .stmt _ => .stmt arena.nextStmt
  | .expr _ => .expr arena.nextExpr

/-- Puts a tree at its place, without a parent. -/
def put (arena : Arena) : Tree → Arena
  | .decl d => { arena with decls := arena.decls.push ⟨d, none⟩ }
  | .stmt s => { arena with stmts := arena.stmts.push ⟨s, none⟩ }
  | .expr e => { arena with exprs := arena.exprs.push ⟨e, none⟩ }

/-- Puts a tree at its place and makes it the parent of its children. A declaration, a statement and an
expression are all added like this. -/
def push (arena : Arena) (children : List Node) (made : Tree) : Node × Arena :=
  (arena.place made, (arena.put made).adoptAll (arena.place made) children)

private theorem node_push {α : Type} (entries : Array (Entry α)) (node : α) (i : Nat) :
    (entries.push ⟨node, none⟩)[i]?.map Entry.node =
      if i = entries.size then some node else entries[i]?.map Entry.node := by
  rw [Array.getElem?_push]
  split <;> rfl

private theorem parent_push {α : Type} (entries : Array (Entry α)) (node : α) (i : Nat) :
    (entries.push ⟨node, none⟩)[i]?.bind Entry.parent = entries[i]?.bind Entry.parent := by
  rw [Array.getElem?_push]
  split
  · rename_i last
    simp [last]
  · rfl

theorem tree?_place (arena : Arena) (made : Tree) : arena.tree? (arena.place made) = none := by
  cases made <;> simp [place, tree?, decl?, stmt?, expr?, nextDecl, nextStmt, nextExpr]

theorem parent?_place (arena : Arena) (made : Tree) : arena.parent? (arena.place made) = none := by
  cases made <;> simp [place, parent?, nextDecl, nextStmt, nextExpr]

theorem tree?_put (arena : Arena) (made : Tree) (n : Node) :
    (arena.put made).tree? n = if n = arena.place made then some made else arena.tree? n := by
  cases made <;> cases n <;>
    simp only [put, place, tree?, decl?, stmt?, expr?, node_push, nextDecl, nextStmt, nextExpr, reduceCtorEq,
      Node.decl.injEq, Node.stmt.injEq, Node.expr.injEq, DeclId.ext_iff, StmtId.ext_iff, ExprId.ext_iff,
      if_false]
  all_goals split <;> rfl

theorem parent?_put (arena : Arena) (made : Tree) (n : Node) :
    (arena.put made).parent? n = arena.parent? n := by
  cases made <;> cases n <;> simp [put, parent?, parent_push]

theorem size_put (arena : Arena) (made : Tree) : (arena.put made).size = arena.size + 1 := by
  cases made <;> simp [put, size] <;> omega

theorem tally_put (arena : Arena) (made : Tree) :
    (arena.put made).tally = arena.tally.count (arena.place made) := by
  cases made <;> simp [put, place, tally, Tally.count]

/-- Nodes with the trees stored for them. -/
def Finds (arena : Arena) : List Node → List Tree → Prop :=
  List.Forall₂ fun n t => arena.tree? n = some t

/-- Every stored tree has the node it is stored under. -/
def Named (arena : Arena) : Prop := ∀ n t, arena.tree? n = some t → t.node = n

/-- What making one tree out of stored parts changes. -/
structure Grows (arena : Arena) (made : Tree) (grown : Arena) : Prop where
  fresh : arena.tree? made.node = none
  orphan : arena.parent? made.node = none
  parts : ∀ c ∈ made.children, arena.tree? c.node = some c
  size : grown.size = arena.size + 1
  tree : ∀ n, grown.tree? n = if n = made.node then some made else arena.tree? n
  parent : ∀ n, grown.parent? n =
    if n ∈ made.children.map Tree.node then some made.node else arena.parent? n

/-- A step made one tree out of its children, under the next number of its sort. -/
structure Makes (arena : Arena) (step : Step) (made : Tree) (grown : Arena) : Prop
    extends Grows arena made grown where
  added : arena.add step = .ok (made.node, grown)
  listed : made.children.map Tree.node = step.children
  next : made.node = arena.tally.next step
  counted : grown.tally = arena.tally.count made.node

theorem Finds.nodes {arena : Arena} (named : arena.Named) {ns : List Node} {ts : List Tree}
    (found : arena.Finds ns ts) : ts.map Tree.node = ns := by
  induction found with
  | nil => rfl
  | cons here _ ih => rw [List.map_cons, ih, named _ _ here]

theorem Finds.parts {arena : Arena} (named : arena.Named) {ns : List Node} {ts : List Tree}
    (found : arena.Finds ns ts) : ∀ t ∈ ts, arena.tree? t.node = some t := by
  induction found with
  | nil => simp
  | cons here _ ih =>
    intro t member
    rcases List.mem_cons.mp member with rfl | member
    · rwa [named _ _ here]
    · exact ih t member

/-- A step that pushes a tree with its own node, when it has found the parts, makes that tree. -/
private theorem push_makes {arena : Arena} {step : Step} (made : Tree) (named : arena.Named)
    (added : arena.add step = .ok (arena.push step.children made))
    (next : arena.tally.next step = arena.place made) (own : made.node = arena.place made)
    (found : arena.Finds step.children made.children) : ∃ made grown, arena.Makes step made grown := by
  have listed := found.nodes named
  have parts := found.parts named
  have stored : ∀ c ∈ step.children, ((arena.put made).tree? c).isSome := by
    intro c member
    rw [← listed] at member
    obtain ⟨part, inside, rfl⟩ := List.mem_map.mp member
    rw [tree?_put]
    split
    · rfl
    · rw [parts part inside]
      rfl
  rw [push, ← own] at added
  rw [← own] at next
  refine ⟨made, _, ⟨?_, ?_, parts, ?_, fun n => ?_, fun n => ?_⟩, added, listed, next.symm, ?_⟩
  · rw [own, tree?_place]
  · rw [own, parent?_place]
  · rw [size_adoptAll, size_put]
  · rw [tree?_adoptAll, tree?_put, own]
  · rw [parent?_adoptAll _ _ stored, parent?_put, listed]
  · rw [tally_adoptAll, tally_put, own]

/-! ## Every step with its children makes one tree -/

theorem Finds.append {arena : Arena} {ns ms : List Node} {ts us : List Tree}
    (first : arena.Finds ns ts) (second : arena.Finds ms us) : arena.Finds (ns ++ ms) (ts ++ us) :=
  List.rel_append first second

theorem decl_found {arena : Arena} {id : DeclId} {d : Decl} (found : arena.decl id = .ok d) :
    arena.tree? (.decl id) = some (.decl d) := by
  unfold decl at found
  split at found <;> cases found
  simp_all [tree?]

private theorem stmt_found {arena : Arena} {id : StmtId} {s : Stmt} (found : arena.stmt id = .ok s) :
    arena.tree? (.stmt id) = some (.stmt s) := by
  unfold stmt at found
  split at found <;> cases found
  simp_all [tree?]

private theorem expr_found {arena : Arena} {id : ExprId} {e : Expr} (found : arena.expr id = .ok e) :
    arena.tree? (.expr id) = some (.expr e) := by
  unfold expr at found
  split at found <;> cases found
  simp_all [tree?]

theorem decl_stored {arena : Arena} {id : DeclId} (stored : (arena.tree? (.decl id)).isSome) :
    ∃ d, arena.decl id = .ok d := by
  cases found : arena.decl? id with
  | none => simp [tree?, found] at stored
  | some d => exact ⟨d, by simp [decl, found]⟩

private theorem stmt_stored {arena : Arena} {id : StmtId} (stored : (arena.tree? (.stmt id)).isSome) :
    ∃ s, arena.stmt id = .ok s := by
  cases found : arena.stmt? id with
  | none => simp [tree?, found] at stored
  | some s => exact ⟨s, by simp [stmt, found]⟩

private theorem expr_stored {arena : Arena} {id : ExprId} (stored : (arena.tree? (.expr id)).isSome) :
    ∃ e, arena.expr id = .ok e := by
  cases found : arena.expr? id with
  | none => simp [tree?, found] at stored
  | some e => exact ⟨e, by simp [expr, found]⟩

/-- A child that is there already is not the node about to be made. -/
private theorem stmtOrKnot_stored {arena : Arena} {id : StmtId}
    (stored : (arena.tree? (.stmt id)).isSome) :
    ∃ s, arena.stmtOrKnot id = .ok s ∧ arena.tree? (.stmt id) = some (.stmt s) := by
  obtain ⟨s, found⟩ := stmt_stored stored
  refine ⟨s, ?_, stmt_found found⟩
  rw [stmtOrKnot, if_neg, found]
  rintro rfl
  simp [tree?, stmt?, nextStmt] at stored

private theorem exprOrKnot_stored {arena : Arena} {id : ExprId}
    (stored : (arena.tree? (.expr id)).isSome) :
    ∃ e, arena.exprOrKnot id = .ok e ∧ arena.tree? (.expr id) = some (.expr e) := by
  obtain ⟨e, found⟩ := expr_stored stored
  refine ⟨e, ?_, expr_found found⟩
  rw [exprOrKnot, if_neg, found]
  rintro rfl
  simp [tree?, expr?, nextExpr] at stored

theorem bind_ok {ε α β : Type} {x : Except ε α} {f : α → Except ε β} {b : β}
    (ran : (x >>= f) = .ok b) : ∃ a, x = .ok a ∧ f a = .ok b := by
  cases x with
  | error e => cases ran
  | ok a => exact ⟨a, rfl, ran⟩

private theorem ok_bind {ε α β : Type} {x : Except ε α} {f : α → Except ε β} {a : α} {b : β}
    (first : x = .ok a) (second : f a = .ok b) : (x >>= f) = .ok b := by
  rw [first]
  exact second

theorem mapM_found {ι α : Type} {arena : Arena} {get : ι → Except Dangling α}
    {node : ι → Node} {tree : α → Tree}
    (one : ∀ i a, get i = .ok a → arena.tree? (node i) = some (tree a)) {is : List ι} {as : List α}
    (found : is.mapM get = .ok as) : arena.Finds (is.map node) (as.map tree) := by
  induction is generalizing as with
  | nil =>
    cases found
    exact .nil
  | cons i rest ih =>
    rw [List.mapM_cons] at found
    obtain ⟨a, here, found⟩ := bind_ok found
    obtain ⟨others, later, found⟩ := bind_ok found
    cases found
    exact .cons (one i a here) (ih later)

theorem mapM_stored {ι α : Type} {arena : Arena} {get : ι → Except Dangling α} {node : ι → Node}
    (one : ∀ i, (arena.tree? (node i)).isSome → ∃ a, get i = .ok a) {is : List ι}
    (stored : ∀ c ∈ is.map node, (arena.tree? c).isSome) : ∃ as, is.mapM get = .ok as := by
  induction is with
  | nil => exact ⟨[], rfl⟩
  | cons i rest ih =>
    obtain ⟨a, here⟩ := one i (stored _ (by simp))
    obtain ⟨as, later⟩ := ih fun c member => stored c (List.mem_cons_of_mem _ member)
    exact ⟨a :: as, by rw [List.mapM_cons, here, later]; rfl⟩

private theorem optionM_found {arena : Arena} {id : Option ExprId} {e : Option Expr}
    (found : id.mapM arena.expr = .ok e) :
    arena.Finds (id.toList.map .expr) (e.toList.map .expr) := by
  cases id with
  | none =>
    cases found
    exact .nil
  | some id =>
    obtain ⟨tree, here, found⟩ := bind_ok found
    cases found
    exact .cons (expr_found here) .nil

private theorem optionM_stored {arena : Arena} {id : Option ExprId}
    (stored : ∀ c ∈ id.toList.map Node.expr, (arena.tree? c).isSome) :
    ∃ e, id.mapM arena.expr = .ok e := by
  cases id with
  | none => exact ⟨none, rfl⟩
  | some id =>
    obtain ⟨e, here⟩ := expr_stored (stored (.expr id) (by simp))
    exact ⟨some e, by rw [Option.mapM_some, here]; rfl⟩

/-- A step whose children are all there makes one tree out of them. -/
theorem add_makes {arena : Arena} {step : Step} (named : arena.Named)
    (stored : ∀ c ∈ step.children, (arena.tree? c).isSome) :
    ∃ made grown, arena.Makes step made grown := by
  cases step with
  | var name type =>
    exact push_makes (.decl _) named rfl rfl rfl .nil
  | cls name superclass interfaces members =>
    obtain ⟨trees, found⟩ := mapM_stored (fun _ => decl_stored) stored
    exact push_makes (.decl _) named (ok_bind found rfl) rfl rfl
      (mapM_found (fun _ _ => decl_found) found)
  | interface name members =>
    obtain ⟨trees, found⟩ := mapM_stored (fun _ => decl_stored) stored
    exact push_makes (.decl _) named (ok_bind found rfl) rfl rfl
      (mapM_found (fun _ _ => decl_found) found)
  | function name result formals body =>
    cases body with
    | none =>
      obtain ⟨trees, found⟩ := mapM_stored (fun _ => decl_stored) stored
      exact push_makes (.decl _) named (ok_bind found rfl) rfl rfl
        (mapM_found (fun _ _ => decl_found) found)
    | some body =>
      obtain ⟨given, last⟩ := List.forall_mem_append.mp stored
      obtain ⟨trees, found⟩ := mapM_stored (fun _ => decl_stored) given
      obtain ⟨tree, inside⟩ := stmt_stored (last (.stmt body) (by simp))
      exact push_makes (.decl _) named (ok_bind found (ok_bind inside rfl)) rfl rfl
        ((mapM_found (fun _ _ => decl_found) found).append (.cons (stmt_found inside) .nil))
  | block decls stmts span =>
    obtain ⟨first, second⟩ := List.forall_mem_append.mp stored
    obtain ⟨declTrees, declared⟩ := mapM_stored (fun _ => decl_stored) first
    obtain ⟨stmtTrees, found⟩ := mapM_stored (fun _ => stmt_stored) second
    exact push_makes (.stmt _) named (ok_bind declared (ok_bind found rfl)) rfl rfl
      ((mapM_found (fun _ _ => decl_found) declared).append
        (mapM_found (fun _ _ => stmt_found) found))
  | ifElse test yes no span =>
    obtain ⟨testTree, tested⟩ := expr_stored (stored (.expr test) (by simp [Step.children]))
    obtain ⟨yesTree, taken, yesFound⟩ := stmtOrKnot_stored (stored (.stmt yes) (by simp [Step.children]))
    cases no with
    | none =>
      exact push_makes (.stmt _) named (ok_bind tested (ok_bind taken rfl)) rfl rfl
        (.cons (expr_found tested) (.cons yesFound .nil))
    | some no =>
      obtain ⟨noTree, refused, noFound⟩ := stmtOrKnot_stored (stored (.stmt no) (by simp [Step.children]))
      exact push_makes (.stmt _) named (ok_bind tested (ok_bind taken (ok_bind refused rfl))) rfl rfl
        (.cons (expr_found tested) (.cons yesFound (.cons noFound .nil)))
  | whileLoop test body span =>
    obtain ⟨testTree, tested⟩ := expr_stored (stored (.expr test) (by simp [Step.children]))
    obtain ⟨bodyTree, entered, found⟩ := stmtOrKnot_stored (stored (.stmt body) (by simp [Step.children]))
    exact push_makes (.stmt _) named (ok_bind tested (ok_bind entered rfl)) rfl rfl
      (.cons (expr_found tested) (.cons found .nil))
  | forLoop init test step body span =>
    obtain ⟨heads, last⟩ := List.forall_mem_append.mp stored
    obtain ⟨begins, third⟩ := List.forall_mem_append.mp heads
    obtain ⟨first, second⟩ := List.forall_mem_append.mp begins
    obtain ⟨initTree, started⟩ := optionM_stored first
    obtain ⟨testTree, tested⟩ := expr_stored (second (.expr test) (by simp))
    obtain ⟨stepTree, stepped⟩ := optionM_stored third
    obtain ⟨bodyTree, entered, found⟩ := stmtOrKnot_stored (last (.stmt body) (by simp))
    exact push_makes (.stmt _) named
      (ok_bind started (ok_bind tested (ok_bind stepped (ok_bind entered rfl)))) rfl rfl
      ((((optionM_found started).append (.cons (expr_found tested) .nil)).append
        (optionM_found stepped)).append (.cons found .nil))
  | ret value span =>
    obtain ⟨tree, found⟩ := optionM_stored stored
    exact push_makes (.stmt _) named (ok_bind found rfl) rfl rfl (optionM_found found)
  | print args span =>
    obtain ⟨trees, found⟩ := mapM_stored (fun _ => expr_stored) stored
    exact push_makes (.stmt _) named (ok_bind found rfl) rfl rfl
      (mapM_found (fun _ _ => expr_found) found)
  | leave span =>
    exact push_makes (.stmt _) named rfl rfl rfl .nil
  | expr e =>
    obtain ⟨tree, found⟩ := expr_stored (stored (.expr e) (by simp [Step.children]))
    exact push_makes (.stmt _) named (ok_bind found rfl) rfl rfl (.cons (expr_found found) .nil)
  | binary op left right =>
    obtain ⟨leftTree, first⟩ := expr_stored (stored (.expr left) (by simp [Step.children]))
    obtain ⟨rightTree, second⟩ := expr_stored (stored (.expr right) (by simp [Step.children]))
    exact push_makes (.expr _) named (ok_bind first (ok_bind second rfl)) rfl rfl
      (.cons (expr_found first) (.cons (expr_found second) .nil))
  | unary op operand span =>
    obtain ⟨tree, entered, found⟩ :=
      exprOrKnot_stored (stored (.expr operand) (by simp [Step.children]))
    exact push_makes (.expr _) named (ok_bind entered rfl) rfl rfl (.cons found .nil)
  | assign target value =>
    obtain ⟨targetTree, first⟩ := expr_stored (stored (.expr target) (by simp [Step.children]))
    obtain ⟨valueTree, second⟩ := expr_stored (stored (.expr value) (by simp [Step.children]))
    exact push_makes (.expr _) named (ok_bind first (ok_bind second rfl)) rfl rfl
      (.cons (expr_found first) (.cons (expr_found second) .nil))
  | field object name =>
    obtain ⟨tree, found⟩ := expr_stored (stored (.expr object) (by simp [Step.children]))
    exact push_makes (.expr _) named (ok_bind found rfl) rfl rfl (.cons (expr_found found) .nil)
  | element array index =>
    obtain ⟨arrayTree, first⟩ := expr_stored (stored (.expr array) (by simp [Step.children]))
    obtain ⟨indexTree, second⟩ := expr_stored (stored (.expr index) (by simp [Step.children]))
    exact push_makes (.expr _) named (ok_bind first (ok_bind second rfl)) rfl rfl
      (.cons (expr_found first) (.cons (expr_found second) .nil))
  | call receiver name actuals span =>
    obtain ⟨front, rest⟩ := List.forall_mem_append.mp stored
    obtain ⟨trees, found⟩ := mapM_stored (fun _ => expr_stored) rest
    cases receiver with
    | none =>
      exact push_makes (.expr _) named (ok_bind found rfl) rfl rfl
        (mapM_found (fun _ _ => expr_found) found)
    | some receiver =>
      obtain ⟨tree, first⟩ := expr_stored (front (.expr receiver) (by simp))
      exact push_makes (.expr _) named (ok_bind first (ok_bind found rfl)) rfl rfl
        (.cons (expr_found first) (mapM_found (fun _ _ => expr_found) found))
  | newArray size element span =>
    obtain ⟨tree, entered, found⟩ := exprOrKnot_stored (stored (.expr size) (by simp [Step.children]))
    exact push_makes (.expr _) named (ok_bind entered rfl) rfl rfl (.cons found .nil)
  | int | double | bool | string | null | name | new | this | readInteger | readLine =>
    exact push_makes (.expr _) named rfl rfl rfl .nil

/-- A ready step makes one tree, out of parts that are there. -/
theorem add_grows {arena grown : Arena} {step : Step} {node : Node} (named : arena.Named)
    (ready : arena.Ready step.children) (added : arena.add step = .ok (node, grown)) :
    ∃ made, arena.Grows made grown ∧ made.children.map Tree.node = step.children := by
  obtain ⟨made, other, makes⟩ := add_makes named ready.stored
  cases makes.added.symm.trans added
  exact ⟨made, makes.toGrows, makes.listed⟩

end Arena

end DecafTac
