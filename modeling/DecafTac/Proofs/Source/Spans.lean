import Mathlib.Logic.Relation
import Mathlib.Order.MinMax
import DecafTac.Proofs.Source.Knots

/-!
What spans cover. A span covers the join of two others exactly if it covers both, wherever these start
and stop and in whichever order they are given; every law of the join follows from that. A binary
operation, an assignment, a field and an element are given no span of their own and join those of
their parts. The span of an expression is therefore the least one that covers its pieces: the names in
it and the spans that were given. What lies in it has some of its pieces and no others, so it covers
that too.
-/
namespace DecafTac

attribute [ext] Position Span

/-! ## Reading order -/

namespace Position

theorem le_iff {a b : Position} : a ≤ b ↔ a.line < b.line ∨ a.line = b.line ∧ a.col ≤ b.col := Iff.rfl

instance : LinearOrder Position where
  le_refl a := .inr ⟨rfl, Nat.le_refl _⟩
  le_trans a b c first second := by
    rw [le_iff] at *
    omega
  le_antisymm a b first second := by
    rw [le_iff] at first second
    have lines : a.line = b.line := by omega
    have cols : a.col = b.col := by omega
    exact Position.ext lines cols
  le_total a b := by
    rw [le_iff, le_iff]
    omega
  toDecidableLE := inferInstance
  toDecidableEq := inferInstance
  min_def _ _ := rfl
  max_def _ _ := rfl

end Position

/-! ## Covering -/

namespace Span

/-- One span covers another when it starts no later and stops no earlier. -/
def Covers (a b : Span) : Prop := a.start ≤ b.start ∧ b.stop ≤ a.stop

instance (a b : Span) : Decidable (a.Covers b) :=
  inferInstanceAs (Decidable (a.start ≤ b.start ∧ b.stop ≤ a.stop))

theorem Covers.refl (a : Span) : a.Covers a := ⟨le_refl _, le_refl _⟩

theorem Covers.antisymm {a b : Span} (above : a.Covers b) (below : b.Covers a) : a = b :=
  Span.ext (le_antisymm above.1 below.1) (le_antisymm below.2 above.2)

/-- A span covers a join when it covers both sides, and only then. -/
theorem covers_join_iff {a b c : Span} : c.Covers (a.join b) ↔ c.Covers a ∧ c.Covers b := by
  simp only [Covers, join, le_min_iff, max_le_iff]
  exact and_and_and_comm

/-- A span is known by the spans that cover it. -/
theorem eq_of_covers_iff {a b : Span} (same : ∀ c : Span, c.Covers a ↔ c.Covers b) : a = b :=
  Covers.antisymm ((same a).mp (.refl a)) ((same b).mpr (.refl b))

theorem join_comm (a b : Span) : a.join b = b.join a := by
  apply eq_of_covers_iff
  intro c
  rw [covers_join_iff, covers_join_iff, and_comm]

theorem join_assoc (a b c : Span) : (a.join b).join c = a.join (b.join c) := by
  apply eq_of_covers_iff
  intro d
  simp only [covers_join_iff, and_assoc]

theorem join_self (a : Span) : a.join a = a := by
  apply eq_of_covers_iff
  intro c
  rw [covers_join_iff, and_self]

theorem le_iff {a b : Span} :
    a ≤ b ↔ a.start ≠ b.start ∧ a.start ≤ b.start ∨ a.start = b.start ∧ a.stop ≤ b.stop := Iff.rfl

/-- The join starts where the lesser of the two does. Of two that start together, where they stop
decides which one is less, but then either start will do. -/
theorem join_start (a b : Span) : (a.join b).start = (if a ≤ b then a else b).start := by
  by_cases together : a.start = b.start
  · rw [join, together, min_self]
    split
    · exact together.symm
    · rfl
  · have less : a ≤ b ↔ a.start ≤ b.start := by simp [le_iff, together]
    rw [join, min_def, apply_ite start]
    simp only [less]

end Span

/-! ## Expressions that join spans -/

namespace Expr

/-- The span that the parts of an expression give it. Where they give it none it keeps its own. -/
def joinedSpan : Expr → Span
  | .binary _ _ left right => left.span.join right.span
  | .assign _ target value => target.span.join value.span
  | .name _ ident => ident.span
  | .field _ object ident => object.span.join ident.span
  | .element _ array index => array.span.join index.span
  | e => e.span

/-- The expressions whose spans an expression joins. -/
def joinedParts : Expr → List Expr
  | .binary _ _ left right => [left, right]
  | .assign _ target value => [target, value]
  | .field _ object _ => [object]
  | .element _ array index => [array, index]
  | _ => []

/-- The name whose span an expression joins. -/
def joinedName? : Expr → Option Ident
  | .name _ ident | .field _ _ ident => some ident
  | _ => none

/-- All that the span of an expression is joined from: the names in it, and the spans of those
expressions in it that were given one. -/
def pieces : Expr → List Span
  | .binary _ _ left right => left.pieces ++ right.pieces
  | .assign _ target value => target.pieces ++ value.pieces
  | .name _ ident => [ident.span]
  | .field _ object ident => object.pieces ++ [ident.span]
  | .element _ array index => array.pieces ++ index.pieces
  | e => [e.span]

theorem part_pieces {e part : Expr} (inside : part ∈ e.joinedParts) : part.pieces ⊆ e.pieces := by
  cases e with
  | binary | assign | element =>
    rw [pieces]
    rcases List.mem_pair.mp inside with rfl | rfl
    · exact List.subset_append_left _ _
    · exact List.subset_append_right _ _
  | field =>
    rw [pieces]
    cases List.mem_singleton.mp inside
    exact List.subset_append_left _ _
  | _ => cases inside

theorem name_pieces {e : Expr} {name : Ident} (inside : name ∈ e.joinedName?) :
    name.span ∈ e.pieces := by
  cases e with
  | name | field =>
    cases inside
    simp [pieces]
  | _ => cases inside

/-- The span is the least one that covers the pieces. -/
def Tight (e : Expr) : Prop := ∀ c : Span, c.Covers e.span ↔ ∀ s ∈ e.pieces, c.Covers s

theorem tight_of_parts {e : Expr} (joined : e.span = e.joinedSpan)
    (parts : ∀ part ∈ e.joinedParts, part.Tight) : e.Tight := by
  intro c
  cases e with
  | binary | assign | element =>
    rw [joined, joinedSpan, Span.covers_join_iff, pieces, List.forall_mem_append]
    exact and_congr (parts _ (by simp [joinedParts]) c) (parts _ (by simp [joinedParts]) c)
  | field =>
    rw [joined, joinedSpan, Span.covers_join_iff, pieces, List.forall_mem_append,
      List.forall_mem_singleton]
    exact and_congr_left' (parts _ (by simp [joinedParts]) c)
  | name => rw [joined, joinedSpan, pieces, List.forall_mem_singleton]
  | _ => simp [pieces]

end Expr

namespace Arena

/-! ## What a step does to the expressions -/

/-- An expression that joins stored expressions and has the span that they give it. -/
structure Joined (arena : Arena) (e : Expr) : Prop where
  span : e.span = e.joinedSpan
  parts : ∀ part ∈ e.joinedParts, ∃ id, arena.expr? id = some part

/-- What a step does to the stored expressions: nothing, or it adds one under the next number. -/
inductive Gains (arena grown : Arena) : Prop where
  | none (same : ∀ id, grown.expr? id = arena.expr? id)
  | one (e : Expr) (own : e.id = arena.nextExpr) (joined : arena.Joined e)
      (stored : ∀ id, grown.expr? id = if id = arena.nextExpr then some e else arena.expr? id)

section Gains

variable {arena : Arena} {children : List Node} {span : Span}

private theorem expr?_adoptAll (parent : Node) (id : ExprId) :
    (arena.adoptAll parent children).expr? id = arena.expr? id :=
  Option.map_injective (fun _ _ => Tree.expr.inj) (tree?_adoptAll arena parent children (.expr id))

private theorem pushDecl_gains {make : DeclId → Decl} :
    arena.Gains (arena.pushDecl children make).2 :=
  .none fun _ => expr?_adoptAll _ _

private theorem pushStmt_gains {make : StmtSite → Stmt} :
    arena.Gains (arena.pushStmt span children make).2 :=
  .none fun _ => expr?_adoptAll _ _

private theorem pushExpr_gains {make : ExprSite → Expr}
    (own : (make ⟨arena.nextExpr, span⟩).id = arena.nextExpr)
    (joined : arena.Joined (make ⟨arena.nextExpr, span⟩)) :
    arena.Gains (arena.pushExpr span children make).2 := by
  refine .one _ own joined fun id => (expr?_adoptAll _ _).trans ?_
  simp only [expr?, nextExpr, Array.getElem?_push, ExprId.ext_iff]
  split <;> rfl

private theorem expr?_of_ok {id : ExprId} {e : Expr} (found : arena.expr id = .ok e) :
    arena.expr? id = some e := by
  unfold expr at found
  split at found
  · rename_i stored
    cases found
    exact stored
  · cases found

private theorem stored_of_found {ids : List ExprId} {parts : List Expr}
    (found : List.Forall₂ (fun id part => arena.expr id = .ok part) ids parts) :
    ∀ part ∈ parts, ∃ id, arena.expr? id = some part := by
  induction found with
  | nil => simp
  | cons here _ ih =>
    rw [List.forall_mem_cons]
    exact ⟨⟨_, expr?_of_ok here⟩, ih⟩

private theorem joined_of_found {e : Expr} {ids : List ExprId} (span : e.span = e.joinedSpan)
    (found : List.Forall₂ (fun id part => arena.expr id = .ok part) ids e.joinedParts) :
    arena.Joined e :=
  ⟨span, stored_of_found found⟩

/-- A step stores at most one more expression, with the span that its parts give it. -/
theorem add_gains {step : Step} : ∀ made, arena.add step = .ok made → arena.Gains made.2 := by
  cases step with
  | binary | assign | element =>
    intro made added
    obtain ⟨left, first, added⟩ := bind_ok added
    obtain ⟨right, second, added⟩ := bind_ok added
    cases added
    exact pushExpr_gains rfl (joined_of_found rfl (.cons first (.cons second .nil)))
  | field =>
    intro made added
    obtain ⟨object, found, added⟩ := bind_ok added
    cases added
    exact pushExpr_gains rfl (joined_of_found rfl (.cons found .nil))
  -- all others join no expression, whether or not they look for any
  | int | double | bool | string | null | name | new | this | readInteger | readLine =>
    exact of_pure (pushExpr_gains rfl (joined_of_found rfl .nil))
  | unary | newArray =>
    exact of_bind fun _ => of_pure (pushExpr_gains rfl (joined_of_found rfl .nil))
  | call receiver name actuals span =>
    cases receiver with
    | none => exact of_bind fun _ => of_pure (pushExpr_gains rfl (joined_of_found rfl .nil))
    | some =>
      exact of_bind fun _ => of_bind fun _ =>
        of_pure (pushExpr_gains rfl (joined_of_found rfl .nil))
  | var => exact of_pure pushDecl_gains
  | cls | interface => exact of_bind fun _ => of_pure pushDecl_gains
  | function name result formals body =>
    cases body with
    | none => exact of_bind fun _ => of_pure pushDecl_gains
    | some => exact of_bind fun _ => of_bind fun _ => of_pure pushDecl_gains
  | leave => exact of_pure pushStmt_gains
  | ret | print | expr => exact of_bind fun _ => of_pure pushStmt_gains
  | block | whileLoop => exact of_bind fun _ => of_bind fun _ => of_pure pushStmt_gains
  | ifElse test yes no span =>
    cases no with
    | none => exact of_bind fun _ => of_bind fun _ => of_pure pushStmt_gains
    | some => exact of_bind fun _ => of_bind fun _ => of_bind fun _ => of_pure pushStmt_gains
  | forLoop =>
    exact of_bind fun _ => of_bind fun _ => of_bind fun _ => of_bind fun _ => of_pure pushStmt_gains

variable {grown : Arena} {id : ExprId} {e : Expr}

/-- What is stored stays: its number is not the next one. -/
theorem Gains.kept (gains : arena.Gains grown) (found : arena.expr? id = some e) :
    grown.expr? id = some e := by
  cases gains with
  | none same => rwa [same]
  | one _ _ _ stored =>
    rw [stored, if_neg, found]
    rintro rfl
    simp [expr?, nextExpr] at found

theorem Gains.cases (gains : arena.Gains grown) (found : grown.expr? id = some e) :
    arena.expr? id = some e ∨ e.id = id ∧ arena.Joined e := by
  cases gains with
  | none same => exact .inl ((same id).symm.trans found)
  | one _ own joined stored =>
    rw [stored] at found
    split at found
    · rename_i next
      cases found
      exact .inr ⟨own.trans next.symm, joined⟩
    · exact .inl found

end Gains

/-! ## What a run of steps leaves -/

/-- Every expression is stored under its own number, has a tight span and joins stored expressions. -/
structure Spanned (arena : Arena) : Prop where
  own : ∀ id e, arena.expr? id = some e → e.id = id
  tight : ∀ id e, arena.expr? id = some e → e.Tight
  parts : ∀ id e, arena.expr? id = some e → ∀ part ∈ e.joinedParts, arena.expr? part.id = some part

theorem spanned_empty : Spanned {} := by
  constructor <;> simp [expr?]

section Spanned

variable {arena : Arena}

theorem Spanned.step {grown : Arena} (spanned : arena.Spanned) (gains : arena.Gains grown) :
    grown.Spanned := by
  refine ⟨fun id e found => ?_, fun id e found => ?_, fun id e found part inside => ?_⟩
  · rcases gains.cases found with old | ⟨own, -⟩
    · exact spanned.own id e old
    · exact own
  · rcases gains.cases found with old | ⟨-, joined⟩
    · exact spanned.tight id e old
    · refine Expr.tight_of_parts joined.span fun part inside => ?_
      obtain ⟨place, stored⟩ := joined.parts part inside
      exact spanned.tight place part stored
  · apply gains.kept
    rcases gains.cases found with old | ⟨-, joined⟩
    · exact spanned.parts id e old part inside
    · obtain ⟨place, stored⟩ := joined.parts part inside
      rwa [spanned.own place part stored]

theorem Spanned.run {steps : List Step} {nodes : List Node} {final : Arena}
    (spanned : arena.Spanned) (ran : arena.make steps = .ok (nodes, final)) : final.Spanned := by
  induction steps generalizing arena nodes with
  | nil =>
    cases ran
    exact spanned
  | cons step rest ih =>
    obtain ⟨⟨node, grown⟩, added, ran⟩ := bind_ok ran
    obtain ⟨⟨later, last⟩, ran, same⟩ := bind_ok ran
    cases same
    exact ih (spanned.step (add_gains _ added)) ran

/-! ## What lies in an expression -/

/-- The expression numbered `id` joins the span of the one numbered `part`. -/
def Joins (arena : Arena) (id part : ExprId) : Prop :=
  ∃ e, arena.expr? id = some e ∧ part ∈ e.joinedParts.map Expr.id

/-- What lies in an expression, with nothing but joins above it, is stored and has its pieces. -/
theorem Spanned.pieces_below (spanned : arena.Spanned) {id below : ExprId} {e : Expr}
    (found : arena.expr? id = some e) (inside : Relation.ReflTransGen arena.Joins id below) :
    ∃ d, arena.expr? below = some d ∧ d.pieces ⊆ e.pieces := by
  -- down the joins, one at a time: each part is the stored one and has pieces of what joins it
  induction inside with
  | refl => exact ⟨e, found, List.Subset.refl _⟩
  | tail _ link ih =>
    obtain ⟨d, stored, within⟩ := ih
    obtain ⟨d', again, listed⟩ := link
    cases stored.symm.trans again
    obtain ⟨part, inside, rfl⟩ := List.mem_map.mp listed
    exact ⟨part, spanned.parts _ d stored part inside,
      List.Subset.trans (Expr.part_pieces inside) within⟩

end Spanned

end Arena

/-- Joining and covering. The join starts where the lesser of two spans does and stops where the later
stop is. It covers both, every span that covers both covers it, and it does not matter which comes
first, how joins are grouped or how often a span is joined. After any steps, an expression covers every
expression in it that is reached through nothing but binary operations, assignments, fields and
elements, and the names of the fields and bare names among these; and whatever covers its pieces
covers it. -/
theorem joined_spans_cover :
    (∀ a b : Span, a.join b = ⟨(if a ≤ b then a else b).start, max a.stop b.stop⟩) ∧
    (∀ a b : Span, (a.join b).Covers a ∧ (a.join b).Covers b) ∧
    (∀ a b c : Span, c.Covers a → c.Covers b → c.Covers (a.join b)) ∧
    (∀ a b : Span, a.join b = b.join a) ∧
    (∀ a b c : Span, (a.join b).join c = a.join (b.join c)) ∧
    (∀ a : Span, a.join a = a) ∧
    ∀ (steps : List Step) (nodes : List Node) (arena : Arena),
      Arena.make {} steps = .ok (nodes, arena) →
      ∀ (id : ExprId) (e : Expr), arena.expr? id = some e →
        (∀ below, Relation.ReflTransGen arena.Joins id below →
          ∃ d, arena.expr? below = some d ∧ e.span.Covers d.span ∧
            ∀ name ∈ d.joinedName?, e.span.Covers name.span) ∧
        ∀ c : Span, (∀ s ∈ e.pieces, c.Covers s) → c.Covers e.span := by
  refine ⟨fun a b => Span.ext (Span.join_start a b) rfl,
    fun a b => Span.covers_join_iff.mp (.refl _),
    fun a b c left right => Span.covers_join_iff.mpr ⟨left, right⟩,
    Span.join_comm, Span.join_assoc, Span.join_self, ?_⟩
  intro steps nodes arena ran id e found
  have spanned : arena.Spanned := Arena.spanned_empty.run ran
  have tight : e.Tight := spanned.tight id e found
  have covered : ∀ s ∈ e.pieces, e.span.Covers s := (tight e.span).mp (.refl _)
  refine ⟨fun below inside => ?_, fun c => (tight c).mpr⟩
  obtain ⟨d, stored, within⟩ := spanned.pieces_below found inside
  refine ⟨d, stored, ?_, fun name written => ?_⟩
  · exact (spanned.tight below d stored e.span).mpr fun s piece => covered s (within piece)
  · exact covered name.span (within (Expr.name_pieces written))

/-- An element of a field is assigned to. The field is named before its object, the index stops before
it starts, and the value starts where the element does. -/
def scatteredAssignment : List Step :=
  [.name ⟨"box", .onLine 3 5 3⟩, .field ⟨0⟩ ⟨"items", .onLine 1 2 5⟩, .int 0 ⟨⟨9, 4⟩, ⟨2, 1⟩⟩,
    .element ⟨1⟩ ⟨2⟩, .call none ⟨"next", .onLine 12 1 4⟩ [] ⟨⟨1, 2⟩, ⟨8, 1⟩⟩, .assign ⟨3⟩ ⟨4⟩]

theorem joined_spans_cover_scattered :
    ∃ nodes arena e d, Arena.make {} scatteredAssignment = .ok (nodes, arena) ∧
      arena.expr? ⟨5⟩ = some e ∧ e.span = ⟨⟨1, 2⟩, ⟨8, 1⟩⟩ ∧
      Relation.ReflTransGen arena.Joins ⟨5⟩ ⟨0⟩ ∧ arena.expr? ⟨0⟩ = some d ∧
      e.span.Covers d.span ∧ ∀ name ∈ d.joinedName?, e.span.Covers name.span := by
  have made : ∃ nodes arena e, Arena.make {} scatteredAssignment = .ok (nodes, arena) ∧
      arena.expr? ⟨5⟩ = some e ∧ e.span = ⟨⟨1, 2⟩, ⟨8, 1⟩⟩ ∧
      arena.Joins ⟨5⟩ ⟨3⟩ ∧ arena.Joins ⟨3⟩ ⟨1⟩ ∧ arena.Joins ⟨1⟩ ⟨0⟩ :=
    ⟨_, _, _, rfl, rfl, rfl, ⟨_, rfl, .head _⟩, ⟨_, rfl, .head _⟩, ⟨_, rfl, .head _⟩⟩
  obtain ⟨nodes, arena, e, ran, found, span, first, second, third⟩ := made
  obtain ⟨-, -, -, -, -, -, spanned⟩ := joined_spans_cover
  have inside : Relation.ReflTransGen arena.Joins ⟨5⟩ ⟨0⟩ :=
    .head first (.head second (.single third))
  obtain ⟨d, stored, covers⟩ := (spanned _ _ arena ran ⟨5⟩ e found).1 ⟨0⟩ inside
  exact ⟨nodes, arena, e, d, ran, found, span, inside, stored, covers⟩

end DecafTac
