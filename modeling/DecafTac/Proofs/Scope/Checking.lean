import Mathlib.Logic.Relation
import DecafTac.Proofs.Scope.Linking
import DecafTac.Scope.Check

/-!
What it means that a check reports nothing. Then nothing was reported about any tree of the program: no
two members of a class have one name, and no method clashes with a scope above its class. The search for
clashes stops only when it has seen every scope above, however the links run.
-/
namespace DecafTac.Check

variable {arena : Arena} {graph : ScopeGraph} {here : ScopeId}

/-! ## Parts of a clean tree -/

private theorem both_clean {a b : Except Dangling Diagnostics}
    (ran : (do return (← a) ++ (← b)) = .ok []) : a = .ok [] ∧ b = .ok [] := by
  obtain ⟨x, first, ran⟩ := Arena.bind_ok ran
  obtain ⟨y, second, ran⟩ := Arena.bind_ok ran
  obtain ⟨rfl, rfl⟩ := List.append_eq_nil_iff.mp (Except.ok.inj ran)
  exact ⟨first, second⟩

theorem exprs_clean {es : List Expr} (ran : exprs arena graph here es = .ok []) :
    ∀ e ∈ es, expr arena graph here e = .ok [] := by
  induction es with
  | nil => simp
  | cons e rest ih =>
    obtain ⟨first, later⟩ := both_clean ran
    exact List.forall_mem_cons.mpr ⟨first, ih later⟩

theorem stmts_clean {ss : List Stmt} (ran : stmts arena graph here ss = .ok []) :
    ∀ s ∈ ss, stmt arena graph here s = .ok [] := by
  induction ss with
  | nil => simp
  | cons s rest ih =>
    obtain ⟨first, later⟩ := both_clean ran
    exact List.forall_mem_cons.mpr ⟨first, ih later⟩

theorem decls_clean {ds : List Decl} (ran : decls arena graph here ds = .ok []) :
    ∀ d ∈ ds, decl arena graph here d = .ok [] := by
  induction ds with
  | nil => simp
  | cons d rest ih =>
    obtain ⟨first, later⟩ := both_clean ran
    exact List.forall_mem_cons.mpr ⟨first, ih later⟩

/-- A tree in which nothing was reported. -/
def Clean (arena : Arena) (graph : ScopeGraph) : Tree → Prop
  | .decl d => ∃ here, decl arena graph here d = .ok []
  | .stmt s => ∃ here, stmt arena graph here s = .ok []
  | .expr e => ∃ here, expr arena graph here e = .ok []

/-- What is reported about a function is reported about its parts. -/
theorem function_clean {id : DeclId} {name : Ident} {result : TypeExpr} {formals : List Decl}
    {body : Stmt} (ran : decl arena graph here (.function id name result formals body) = .ok []) :
    redeclaration arena graph here (.function id name result formals body) = .ok [] ∧
    decls arena graph (within graph here (.decl id)) formals = .ok [] ∧
    overriding arena graph id name ⟨result, formals⟩ = .ok [] ∧
    stmt arena graph (within graph here (.decl id)) body = .ok [] := by
  obtain ⟨a, first, ran⟩ := Arena.bind_ok ran
  obtain ⟨b, -, ran⟩ := Arena.bind_ok ran
  obtain ⟨c, third, ran⟩ := Arena.bind_ok ran
  obtain ⟨d, fourth, ran⟩ := Arena.bind_ok ran
  obtain ⟨e, last, ran⟩ := Arena.bind_ok ran
  have none := Except.ok.inj ran
  simp only [List.append_eq_nil_iff] at none
  obtain ⟨⟨⟨⟨rfl, -⟩, rfl⟩, rfl⟩, rfl⟩ := none
  exact ⟨first, third, fourth, last⟩

theorem prototype_clean {id : DeclId} {name : Ident} {result : TypeExpr} {formals : List Decl}
    (ran : decl arena graph here (.prototype id name result formals) = .ok []) :
    redeclaration arena graph here (.prototype id name result formals) = .ok [] ∧
    decls arena graph (within graph here (.decl id)) formals = .ok [] ∧
    overriding arena graph id name ⟨result, formals⟩ = .ok [] := by
  obtain ⟨a, first, ran⟩ := Arena.bind_ok ran
  obtain ⟨b, -, ran⟩ := Arena.bind_ok ran
  obtain ⟨c, third, ran⟩ := Arena.bind_ok ran
  obtain ⟨d, last, ran⟩ := Arena.bind_ok ran
  have none := Except.ok.inj ran
  simp only [List.append_eq_nil_iff] at none
  obtain ⟨⟨⟨rfl, -⟩, rfl⟩, rfl⟩ := none
  exact ⟨first, third, last⟩

theorem members_clean {id : DeclId} {name : Ident} {superclass : Option Ident}
    {interfaces : List Ident} {members : List Decl}
    (ran : decl arena graph here (.cls id name superclass interfaces members) = .ok []) :
    ∀ d ∈ members, decl arena graph (within graph here (.decl id)) d = .ok [] :=
  decls_clean (both_clean ran).2

theorem redeclaration_clean {d : Decl} (ran : decl arena graph here d = .ok []) :
    redeclaration arena graph here d = .ok [] := by
  cases d with
  | var | cls | interface => exact (both_clean ran).1
  | prototype => exact (prototype_clean ran).1
  | function => exact (function_clean ran).1

theorem overriding_clean {d : Decl} {signature : Signature} (ran : decl arena graph here d = .ok [])
    (function : d.signature? = some signature) :
    overriding arena graph d.id d.ident signature = .ok [] := by
  cases d with
  | var | cls | interface => cases function
  | prototype =>
    cases function
    exact (prototype_clean ran).2.2
  | function =>
    cases function
    exact (function_clean ran).2.2.1

private theorem optional_clean {e : Option Expr} (ran : optional arena graph here e = .ok []) :
    ∀ part ∈ e.toList, expr arena graph here part = .ok [] := by
  cases e with
  | none => simp
  | some e => exact List.forall_mem_singleton.mpr ran

section Parts

variable {ds : List Decl} {ss : List Stmt} {es : List Expr}

private theorem decls_parts (ran : decls arena graph here ds = .ok []) :
    ∀ part ∈ ds.map .decl, Clean arena graph part :=
  List.forall_mem_map.mpr fun d member => ⟨here, decls_clean ran d member⟩

private theorem stmts_parts (ran : stmts arena graph here ss = .ok []) :
    ∀ part ∈ ss.map .stmt, Clean arena graph part :=
  List.forall_mem_map.mpr fun s member => ⟨here, stmts_clean ran s member⟩

private theorem exprs_parts (clean : ∀ e ∈ es, expr arena graph here e = .ok []) :
    ∀ part ∈ es.map .expr, Clean arena graph part :=
  List.forall_mem_map.mpr fun e member => ⟨here, clean e member⟩

private theorem decl_parts {d : Decl} (ran : decl arena graph here d = .ok []) :
    ∀ part ∈ d.children, Clean arena graph part := by
  cases d with
  | var => exact List.forall_mem_nil _
  | cls | interface => exact decls_parts (both_clean ran).2
  | prototype => exact decls_parts (prototype_clean ran).2.1
  | function id name result formals body =>
    obtain ⟨-, first, -, last⟩ := function_clean ran
    exact List.forall_mem_append.mpr ⟨decls_parts first, List.forall_mem_singleton.mpr ⟨_, last⟩⟩

private theorem expr_parts {e : Expr} (ran : expr arena graph here e = .ok []) :
    ∀ part ∈ e.children, expr arena graph here part = .ok [] := by
  cases e with
  | binary | assign | element =>
    obtain ⟨first, second⟩ := both_clean ran
    exact List.forall_mem_cons.mpr ⟨first, List.forall_mem_singleton.mpr second⟩
  | unary | field => exact List.forall_mem_singleton.mpr ran
  | call => exact exprs_clean ran
  | send =>
    obtain ⟨first, later⟩ := both_clean ran
    exact List.forall_mem_cons.mpr ⟨first, exprs_clean later⟩
  | newArray => exact List.forall_mem_singleton.mpr (both_clean ran).1
  | int | double | bool | string | null | name | new | this | readInteger | readLine | knot =>
    exact List.forall_mem_nil _

private theorem stmt_parts {s : Stmt} (ran : stmt arena graph here s = .ok []) :
    ∀ part ∈ s.children, Clean arena graph part := by
  cases s with
  | block =>
    obtain ⟨first, later⟩ := both_clean ran
    exact List.forall_mem_append.mpr ⟨decls_parts first, stmts_parts later⟩
  | ifThen | whileLoop =>
    obtain ⟨test, body⟩ := both_clean ran
    exact List.forall_mem_cons.mpr ⟨⟨_, test⟩, List.forall_mem_singleton.mpr ⟨_, body⟩⟩
  | ifElse =>
    obtain ⟨a, test, ran⟩ := Arena.bind_ok ran
    obtain ⟨b, yes, ran⟩ := Arena.bind_ok ran
    obtain ⟨c, no, ran⟩ := Arena.bind_ok ran
    have none := Except.ok.inj ran
    simp only [List.append_eq_nil_iff] at none
    obtain ⟨⟨rfl, rfl⟩, rfl⟩ := none
    exact List.forall_mem_cons.mpr ⟨⟨_, test⟩, List.forall_mem_cons.mpr ⟨⟨_, yes⟩,
      List.forall_mem_singleton.mpr ⟨_, no⟩⟩⟩
  | forLoop =>
    obtain ⟨a, init, ran⟩ := Arena.bind_ok ran
    obtain ⟨b, test, ran⟩ := Arena.bind_ok ran
    obtain ⟨c, step, ran⟩ := Arena.bind_ok ran
    obtain ⟨d, body, ran⟩ := Arena.bind_ok ran
    have none := Except.ok.inj ran
    simp only [List.append_eq_nil_iff] at none
    obtain ⟨⟨⟨rfl, rfl⟩, rfl⟩, rfl⟩ := none
    simp only [Stmt.children, List.forall_mem_append, List.forall_mem_singleton]
    exact ⟨⟨⟨exprs_parts (optional_clean init), ⟨_, test⟩⟩, exprs_parts (optional_clean step)⟩, ⟨_, body⟩⟩
  | ret => exact exprs_parts (optional_clean ran)
  | print => exact exprs_parts (exprs_clean ran)
  | expr => exact List.forall_mem_singleton.mpr ⟨_, ran⟩
  | leave | knot => exact List.forall_mem_nil _

/-- Parts of a clean tree are clean. -/
theorem Clean.parts {t : Tree} (clean : Clean arena graph t) :
    ∀ part ∈ t.children, Clean arena graph part := by
  cases t with
  | decl d =>
    obtain ⟨here, ran⟩ := clean
    exact decl_parts ran
  | stmt s =>
    obtain ⟨here, ran⟩ := clean
    exact stmt_parts ran
  | expr e =>
    obtain ⟨here, ran⟩ := clean
    exact exprs_parts (expr_parts ran)

end Parts

/-- Every tree of a clean program is clean. -/
theorem program_clean {program : Program} (ran : Check.program graph program = .ok []) :
    ∀ t ∈ program.subtrees, Clean program.arena graph t := by
  intro t member
  obtain ⟨root, listed, member⟩ := List.mem_flatMap.mp member
  have clean := decls_parts ran root listed
  exact Tree.subtrees_all (fun _ => Clean.parts) clean t member

/-! ## Names of members -/

section Names

variable {scope : Scope}

/-- A declaration that is not reported is the earliest of its name. -/
theorem redeclaration_first {d : Decl} (there : graph.scope? here = some scope)
    (listed : scope.bindings d.name ≠ []) (ran : redeclaration arena graph here d = .ok []) :
    ∃ same, (scope.bindings d.name).mapM arena.decl = .ok same ∧
      (earliest same).map Decl.id = some d.id := by
  obtain ⟨ids, bound, ran⟩ := Arena.bind_ok ran
  obtain ⟨found, opened, bound⟩ := Arena.bind_ok bound
  rw [ScopeGraph.scope_eq_ok, there] at opened
  cases opened
  cases bound
  obtain ⟨same, made, ran⟩ := Arena.bind_ok ran
  refine ⟨same, made, ?_⟩
  obtain ⟨id, rest, split⟩ := List.exists_cons_of_ne_nil listed
  rw [split, List.mapM_cons] at made
  obtain ⟨first, -, made⟩ := Arena.bind_ok made
  obtain ⟨others, -, made⟩ := Arena.bind_ok made
  cases made
  cases found : earliest (first :: others) with
  | none =>
    rw [earliest] at found
    split at found <;> cases found
  | some other =>
    rw [found] at ran
    by_cases own : other.id = d.id
    · simp [own]
    · simp only [own, if_false] at ran
      cases ran

/-- In the scope of a class whose members are clean, the name of a member means that member. -/
theorem binding?_member {members : List Decl} {f : Decl} (there : graph.scope? here = some scope)
    (entries : scope.entries = members.map Decl.entry)
    (clean : ∀ d ∈ members, decl arena graph here d = .ok []) (member : f ∈ members) :
    scope.binding? f.name = some f.id := by
  have listed (id : DeclId) : id ∈ scope.bindings f.name ↔ ∃ d ∈ members, d.name = f.name ∧ d.id = id := by
    simp [Scope.bindings, entries, Decl.entry, and_assoc]
  have own : f.id ∈ scope.bindings f.name := (listed f.id).mpr ⟨f, member, rfl, rfl⟩
  have nonempty : scope.bindings f.name ≠ [] := List.ne_nil_of_mem own
  obtain ⟨same, made, first⟩ :=
    redeclaration_first there nonempty (redeclaration_clean (clean f member))
  have only : ∀ id ∈ scope.bindings f.name, id = f.id := by
    intro id inside
    obtain ⟨d, other, name, rfl⟩ := (listed id).mp inside
    obtain ⟨same', made', first'⟩ :=
      redeclaration_first there (name ▸ nonempty) (redeclaration_clean (clean d other))
    rw [name, made] at made'
    cases made'
    rw [first] at first'
    exact (Option.some.inj first').symm
  rw [Scope.binding?, List.getLast?_eq_some_getLast nonempty, only _ (List.getLast_mem nonempty)]

end Names

/-! ## Scopes above a class -/

/-- The scope `above` is linked to as a supertype. -/
def DirectlyAbove (graph : ScopeGraph) (id above : ScopeId) : Prop :=
  ∃ scope, graph.scope? id = some scope ∧ above ∈ scope.supertypes

/-- Of the scopes that wait, those visited are left out until there is one that was not. -/
private theorem dropWhile_visited (visited pending : List ScopeId) :
    (pending.dropWhile visited.contains = [] ∧ pending ⊆ visited) ∨
    ∃ id rest, pending.dropWhile visited.contains = id :: rest ∧ id ∉ visited ∧
      ∀ other ∈ pending, other ∈ visited ∨ other ∈ id :: rest := by
  induction pending with
  | nil => exact .inl ⟨rfl, List.nil_subset _⟩
  | cons first rest ih =>
    by_cases known : first ∈ visited
    · have dropped : (first :: rest).dropWhile visited.contains = rest.dropWhile visited.contains :=
        List.dropWhile_cons_of_pos (by simpa using known)
      rw [dropped]
      rcases ih with ⟨none, within⟩ | ⟨id, later, next, fresh, split⟩
      · exact .inl ⟨none, List.cons_subset.mpr ⟨known, within⟩⟩
      · exact .inr ⟨id, later, next, fresh, List.forall_mem_cons.mpr ⟨.inl known, split⟩⟩
    · have kept : (first :: rest).dropWhile visited.contains = first :: rest :=
        List.dropWhile_cons_of_neg (by simpa using known)
      exact .inr ⟨first, rest, kept, known, fun other member => .inr member⟩

/-- A search that finds no clash has seen all scopes that wait and, with each scope, those above it. The
number of visits left is no bound: scopes are visited once, and there are not so many. -/
theorem clashAbove_seen {clash : Scope → Except Dangling Bool} {limit : Nat}
    {visited pending : List ScopeId} (room : graph.size < limit + visited.length)
    (distinct : visited.Nodup) (stored : ∀ id ∈ visited, id.index < graph.size)
    (ran : clashAbove graph clash limit visited pending = .ok false) :
    ∃ seen, visited ⊆ seen ∧ pending ⊆ seen ∧ ∀ id ∈ seen, id ∈ visited ∨
      ∃ scope, graph.scope? id = some scope ∧ clash scope = .ok false ∧ scope.supertypes ⊆ seen := by
  induction limit generalizing visited pending with
  | zero =>
    have bound := length_le_of_distinct ScopeId.index (fun _ _ => ScopeId.ext) distinct stored
    omega
  | succ limit ih =>
    rw [clashAbove] at ran
    rcases dropWhile_visited visited pending with ⟨none, within⟩ | ⟨id, rest, next, fresh, split⟩
    · exact ⟨visited, List.Subset.refl _, within, fun id member => .inl member⟩
    · rw [next] at ran
      obtain ⟨scope, opened, ran⟩ := Arena.bind_ok ran
      obtain ⟨clashed, tested, ran⟩ := Arena.bind_ok ran
      cases clashed with
      | true => cases ran
      | false =>
        have there := ScopeGraph.scope_eq_ok.mp opened
        obtain ⟨seen, old, waiting, closed⟩ := ih (by simp only [List.length_cons]; omega)
          (List.nodup_cons.mpr ⟨fresh, distinct⟩)
          (List.forall_mem_cons.mpr ⟨ScopeGraph.index_lt there, stored⟩) ran
        obtain ⟨found, old⟩ := List.cons_subset.mp old
        obtain ⟨others, above⟩ := List.append_subset.mp waiting
        refine ⟨seen, old, ?_, ?_⟩
        · intro other member
          rcases split other member with known | member
          · exact old known
          · exact List.cons_subset.mpr ⟨found, others⟩ member
        · intro other member
          rcases closed other member with known | clean
          · rcases List.mem_cons.mp known with rfl | known
            · exact .inr ⟨scope, there, tested, above⟩
            · exact .inl known
          · exact .inr clean

/-- A method that is not reported clashes with no scope above its class. -/
theorem overriding_above {id cls : DeclId} {own above : ScopeId} {name : Ident}
    {signature : Signature} (ran : overriding arena graph id name signature = .ok [])
    (owner : arena.owningClass id = some cls) (opened : graph.scopeOf (.decl cls) = some own)
    (link : Relation.ReflTransGen (DirectlyAbove graph) own above) (other : above ≠ own) :
    ∃ scope, graph.scope? above = some scope ∧ clashes arena name.name signature scope = .ok false := by
  rw [overriding, owner] at ran
  simp only [opened] at ran
  obtain ⟨scope, there, ran⟩ := Arena.bind_ok ran
  obtain ⟨clashed, searched, ran⟩ := Arena.bind_ok ran
  have there := ScopeGraph.scope_eq_ok.mp there
  cases clashed with
  | true =>
    obtain ⟨decl, -, ran⟩ := Arena.bind_ok ran
    cases ran
  | false =>
    have room : graph.size < graph.size + 1 + [own].length := by
      rw [List.length_singleton]
      omega
    obtain ⟨seen, first, next, closed⟩ := clashAbove_seen room (List.nodup_singleton own)
      (List.forall_mem_singleton.mpr (ScopeGraph.index_lt there)) searched
    have step (low high : ScopeId) (member : low ∈ seen) (link : DirectlyAbove graph low high) :
        high ∈ seen := by
      obtain ⟨found, stands, listed⟩ := link
      rcases closed low member with same | ⟨_, stands', -, within⟩
      · rw [List.mem_singleton.mp same, there] at stands
        cases stands
        exact next listed
      · rw [stands] at stands'
        cases stands'
        exact within listed
    have reached : above ∈ seen := by
      clear other
      induction link with
      | refl => exact first List.mem_cons_self
      | tail _ link ih => exact step _ _ ih link
    rcases closed above reached with same | ⟨found, stands, clean, -⟩
    · exact absurd (List.mem_singleton.mp same) other
    · exact ⟨found, stands, clean⟩

/-- A name that does not clash means a function of an agreeing signature. -/
theorem agrees_of_clashes {name : String} {signature : Signature} {scope : Scope} {d : Decl}
    (ran : clashes arena name signature scope = .ok false) (bound : scope.binding? name = some d.id)
    (stored : arena.decl? d.id = some d) :
    ∃ inherited, d.signature? = some inherited ∧ signaturesAgree signature inherited = true := by
  rw [clashes, bound] at ran
  obtain ⟨found, made, ran⟩ := Arena.bind_ok ran
  rw [LaidOut.decl_of_ok made] at stored
  cases stored
  split at ran
  · rename_i inherited function
    exact ⟨inherited, function, by simpa using Except.ok.inj ran⟩
  · cases ran

end DecafTac.Check
