import DecafTac.Proofs.Lower.Frames
import DecafTac.Proofs.Lower.Scoping
import DecafTac.Proofs.Lower.Visits

/-!
Storage of variables. The variables of a function are those that the blocks in its body bind when they are
come to, each with the storage that its name is bound to. Main statement: in every segment of the code that
is generated, the operands are parameters of the function that the segment is labelled with, its variables
and temporaries, or globals; and as long as 32 bits hold where they lie, no two of them share an offset.
-/
namespace DecafTac

namespace Lower

/-! ## What a block binds -/

section Declaring

variable {s : LowerState} {id : DeclId} {loc : Location}

/-- The state after a variable is declared. -/
def declaring (name : Ident) (type : TypeExpr) (s : LowerState) : LowerState :=
  let taken := Emitter.allocate name.name s.emitter
  { s with
    emitter := taken.state
    bindings := s.bindings.declare name.name ⟨taken.value, Tag.ofType type⟩ }

theorem declareLocals_var (id : DeclId) (name : Ident) (type : TypeExpr) (rest : List Decl)
    (s : LowerState) :
    declareLocals (.var id name type :: rest) s = declareLocals rest (declaring name type s) := by
  have issued : (Emitter.allocate name.name s.emitter).code = [] := by
    unfold Emitter.allocate
    split <;> rfl
  have allocated : emit (Emitter.allocate name.name) s =
      ⟨.ok (Emitter.allocate name.name s.emitter).value,
        { s with emitter := (Emitter.allocate name.name s.emitter).state }, []⟩ := by
    simp only [emit, issued]
  rw [declareLocals, bind_apply, allocated]
  rfl

/-- The variables of a block have the storage that their names are bound to when it is their turn. -/
theorem mem_storage_iff {decls : List Decl} :
    (id, loc) ∈ storage s.emitter decls ↔ ∃ before name type later t,
      decls = before ++ .var id name type :: later ∧
      declareLocals (before ++ [.var id name type]) s = ⟨.ok (), t, []⟩ ∧
      t.bindings.lookup name.name = some ⟨loc, Tag.ofType type⟩ := by
  induction decls generalizing s with
  | nil => simp [storage]
  | cons decl rest ih =>
    cases decl with
    | var own name type =>
      have declared : (declaring name type s).bindings.lookup name.name =
          some ⟨(Emitter.allocate name.name s.emitter).value, Tag.ofType type⟩ :=
        (Bindings.lookup_declare ..).trans (if_pos rfl)
      have stored : storage s.emitter (.var own name type :: rest) =
          (own, (Emitter.allocate name.name s.emitter).value) ::
            storage (declaring name type s).emitter rest := rfl
      rw [stored, List.mem_cons, ih]
      constructor
      · rintro (same | ⟨before, var, type', later, t, rfl, run, bound⟩)
        · cases same
          exact ⟨[], name, type, rest, _, rfl, declareLocals_var .., declared⟩
        · exact ⟨.var own name type :: before, var, type', later, t, rfl,
            (declareLocals_var ..).trans run, bound⟩
      · rintro ⟨before, var, type', later, t, same, run, bound⟩
        cases before with
        | nil =>
          cases same
          rw [List.nil_append, declareLocals_var] at run
          cases run
          cases declared.symm.trans bound
          exact .inl rfl
        | cons head before =>
          obtain ⟨rfl, rfl⟩ := List.cons.inj same
          rw [List.cons_append, declareLocals_var] at run
          exact .inr ⟨before, var, type', later, t, rfl, run, bound⟩
    | cls | interface | prototype | function =>
      change (id, loc) ∈ storage s.emitter rest ↔ _
      rw [ih]
      constructor
      · rintro ⟨before, var, type, later, t, rfl, run, bound⟩
        exact ⟨_ :: before, var, type, later, t, rfl, run, bound⟩
      · rintro ⟨before, var, type, later, t, same, run, bound⟩
        cases before with
        | nil => cases same
        | cons head before =>
          obtain ⟨rfl, rfl⟩ := List.cons.inj same
          exact ⟨before, var, type, later, t, rfl, run, bound⟩

end Declaring

/-! ## The variables of a statement -/

section Variables

variable {arena : Arena} {layouts : Layouts} {root whole part : Stmt} {start s t : LowerState}

theorem mem_after_iff {α β : Type} {step : Lower α} {rest : α → LowerState → List β} {b : β} :
    b ∈ after step rest s ↔ ∃ a t code, step s = ⟨.ok a, t, code⟩ ∧ b ∈ rest a t := by
  constructor
  · intro member
    unfold after at member
    split at member
    · rename_i a succeeds
      exact ⟨a, (step s).state, (step s).code, by rw [← succeeds], member⟩
    · cases member
  · rintro ⟨a, t, code, run, member⟩
    rw [after, run]
    exact member

/-- The variables of a loop are those of its body, which is lowered after the test. -/
theorem mem_loopLocals_iff {id : StmtId} {test : Lower Value}
    {body : LowerState → List (DeclId × Location)} {entry : DeclId × Location} :
    entry ∈ loopLocals id test body s ↔ ∃ v t code, test (s.later 2 1) = ⟨.ok v, t, code⟩ ∧
      entry ∈ body { t.later 0 1 with
        loops := t.loops.enter id (Emitter.labelName (s.emitter.nextLabel + 1)) } := by
  have after_test : loopLocals id test body s = after test (fun _ t => body { t.later 0 1 with
      loops := t.loops.enter id (Emitter.labelName (s.emitter.nextLabel + 1)) }) (s.later 2 1) := rfl
  rw [after_test, mem_after_iff]

private theorem EntersAmong.locals_subset {body : List Stmt}
    (enters : EntersAmong arena layouts body s part t) :
    locals arena layouts part t ⊆ localsAll arena layouts body s := by
  induction enters with
  | here => exact List.subset_append_left ..
  | later run _ ih =>
    intro entry member
    exact List.mem_append_right _ (mem_after_iff.mpr ⟨_, _, _, run, ih member⟩)

/-- The variables of a part are variables of the whole. -/
theorem Enters.locals_subset (enters : Enters arena layouts whole s part t) :
    locals arena layouts part t ⊆ locals arena layouts whole s := by
  intro entry member
  cases enters with
  | block declared inside =>
    refine List.mem_append_right _ (mem_after_iff.mpr ⟨_, _, _, declared, ?_⟩)
    exact inside.locals_subset member
  | ifThen tested => exact mem_after_iff.mpr ⟨_, _, _, tested, member⟩
  | ifYes tested => exact mem_after_iff.mpr ⟨_, _, _, tested, List.mem_append_left _ member⟩
  | ifNo tested run =>
    refine mem_after_iff.mpr ⟨_, _, _, tested, List.mem_append_right _ ?_⟩
    exact mem_after_iff.mpr ⟨_, _, _, run, member⟩
  | whileLoop tested => exact mem_loopLocals_iff.mpr ⟨_, _, _, tested, member⟩
  | forLoop begun tested =>
    refine mem_after_iff.mpr ⟨_, _, _, begun, ?_⟩
    exact mem_loopLocals_iff.mpr ⟨_, _, _, tested, member⟩

theorem Visits.locals_subset (visits : Visits arena layouts root start part t) :
    locals arena layouts part t ⊆ locals arena layouts root start := by
  induction visits with
  | here => exact List.Subset.refl _
  | step _ enters ih => exact List.Subset.trans enters.locals_subset ih

private theorem mem_localsAll {entry : DeclId × Location} {body : List Stmt}
    (member : entry ∈ localsAll arena layouts body s) :
    ∃ part t, EntersAmong arena layouts body s part t ∧ entry ∈ locals arena layouts part t := by
  induction body generalizing s with
  | nil => cases member
  | cons first rest ih =>
    rcases List.mem_append.mp member with member | member
    · exact ⟨first, s, .here, member⟩
    · obtain ⟨_, _, _, run, member⟩ := mem_after_iff.mp member
      obtain ⟨part, u, inside, member⟩ := ih member
      exact ⟨part, u, .later run inside, member⟩

/-- A variable of a statement is declared by the statement itself, which is a block, or is one of a part. -/
theorem mem_locals {entry : DeclId × Location} (member : entry ∈ locals arena layouts whole s) :
    (∃ site decls body, whole = .block site decls body ∧ entry ∈ storage s.emitter decls) ∨
      ∃ part t, Enters arena layouts whole s part t ∧ entry ∈ locals arena layouts part t := by
  cases whole with
  | ret | print | expr | leave | knot => cases member
  | block site decls body =>
    rcases List.mem_append.mp member with member | member
    · exact .inl ⟨site, decls, body, rfl, member⟩
    · obtain ⟨_, _, _, declared, member⟩ := mem_after_iff.mp member
      obtain ⟨part, t, inside, member⟩ := mem_localsAll member
      exact .inr ⟨part, t, .block declared inside, member⟩
  | ifThen site test body =>
    obtain ⟨_, _, _, tested, member⟩ := mem_after_iff.mp member
    exact .inr ⟨body, _, .ifThen tested, member⟩
  | ifElse site test yes no =>
    obtain ⟨_, _, _, tested, member⟩ := mem_after_iff.mp member
    rcases List.mem_append.mp member with member | member
    · exact .inr ⟨yes, _, .ifYes tested, member⟩
    · obtain ⟨_, _, _, run, member⟩ := mem_after_iff.mp member
      exact .inr ⟨no, _, .ifNo tested run, member⟩
  | whileLoop site test body =>
    obtain ⟨_, _, _, tested, member⟩ := mem_loopLocals_iff.mp member
    exact .inr ⟨body, _, .whileLoop tested, member⟩
  | forLoop site init test step body =>
    obtain ⟨_, _, _, begun, member⟩ := mem_after_iff.mp member
    obtain ⟨_, _, _, tested, member⟩ := mem_loopLocals_iff.mp member
    exact .inr ⟨body, _, .forLoop begun tested, member⟩

/-- What a part comes to, the whole comes to. -/
theorem Enters.visits {last : Stmt} {u : LowerState} (enters : Enters arena layouts whole s part t)
    (visits : Visits arena layouts part t last u) : Visits arena layouts whole s last u := by
  induction visits with
  | here => exact .step .here enters
  | step _ next ih => exact .step ih next

/-- The variables of a statement are those of the blocks that lowering it comes to. -/
theorem mem_locals_iff {root : Stmt} {start : LowerState} {entry : DeclId × Location} :
    entry ∈ locals arena layouts root start ↔ ∃ site decls body s,
      Visits arena layouts root start (.block site decls body) s ∧
        entry ∈ storage s.emitter decls := by
  constructor
  · intro member
    rcases mem_locals member with ⟨site, decls, body, rfl, own⟩ | ⟨part, t, enters, inside⟩
    · exact ⟨site, decls, body, start, .here, own⟩
    · have smaller := Tree.part_smaller enters.child
      obtain ⟨site, decls, body, s, visits, own⟩ := mem_locals_iff.mp inside
      exact ⟨site, decls, body, s, enters.visits visits, own⟩
  · rintro ⟨site, decls, body, s, visits, own⟩
    exact visits.locals_subset (List.mem_append_left _ own)
termination_by (Tree.stmt root).nodes.length

variable (arena layouts) in
/-- While the body of a function is lowered from a state, a block in it declares a variable: its name is
bound to a location when those before it and the variable itself are declared. -/
inductive Binds : Decl → LowerState → DeclId → Location → Prop where
  | block {function id : DeclId} {name var : Ident} {result type : TypeExpr}
      {formals before later : List Decl} {body : Stmt} {inner : List Stmt} {site : StmtSite}
      {start s t : LowerState} {loc : Location}
      (visits : Visits arena layouts body start
        (.block site (before ++ .var id var type :: later) inner) s)
      (declared : declareLocals (before ++ [.var id var type])
        { s with bindings := s.bindings.enter } = ⟨.ok (), t, []⟩)
      (bound : t.bindings.lookup var.name = some ⟨loc, Tag.ofType type⟩) :
      Binds (.function function name result formals body) start id loc

/-- The variables of a function are those that its blocks bind. -/
theorem mem_localsOf_iff {decl : Decl} {id : DeclId} {loc : Location} :
    (id, loc) ∈ localsOf arena layouts decl start ↔ Binds arena layouts decl start id loc := by
  constructor
  · intro member
    cases decl with
    | var | cls | interface | prototype => cases member
    | function own name result formals body =>
      obtain ⟨site, decls, inner, s, visits, own⟩ := mem_locals_iff.mp member
      have entered : (id, loc) ∈ storage { s with bindings := s.bindings.enter }.emitter decls := own
      obtain ⟨before, var, type, later, t, rfl, declared, bound⟩ := mem_storage_iff.mp entered
      exact .block visits declared bound
  · rintro ⟨visits, declared, bound⟩
    refine mem_locals_iff.mpr ⟨_, _, _, _, visits, ?_⟩
    rename_i s t
    exact (mem_storage_iff (s := { s with bindings := s.bindings.enter })).mpr
      ⟨_, _, _, _, t, rfl, declared, bound⟩

end Variables

/-! ## Offsets of a frame -/

section Offsets

variable {shape : FrameShape} {globals params slots n : Nat} {vars : List (DeclId × Location)}
  {body : List Instruction} {loc : Location}

/-- The offsets in the frame of a function whose body has the given variables and code. -/
structure FrameOffsets (shape : FrameShape) (globals params slots : Nat)
    (vars : List (DeclId × Location)) (body : List Instruction) : Prop where
  /-- Operands on the frame have the offset of a parameter, or that of a variable or temporary, which is
  that of a slot. -/
  frame : ∀ i ∈ body, ∀ loc ∈ i.operands, loc.segment = .frame →
    (∃ n < params, loc.offset = shape.paramOffset n) ∨
      ∃ n < slots, loc.offset = shape.localOffset n ∧
        ∃ own ∈ temporaries body ++ vars.map Prod.snd, own.offset = loc.offset
  /-- All other operands have the offset of a global. -/
  global : ∀ i ∈ body, ∀ loc ∈ i.operands, loc.segment = .global →
    ∃ n < globals, loc.offset = shape.globalOffset n
  /-- Variables and temporaries have offsets of slots. -/
  slotted : ∀ loc ∈ temporaries body ++ vars.map Prod.snd,
    loc.segment = .frame ∧ ∃ n < slots, loc.offset = shape.localOffset n
  /-- No two of them have the same, when 32 bits hold where the slots lie. -/
  distinct : (∀ n < slots, Fits32 (shape.localPosition n)) →
    ((temporaries body ++ vars.map Prod.snd).map Location.offset).Nodup
  /-- None has that of a parameter, when they hold where the parameters lie, too. -/
  apart : (∀ n < slots, Fits32 (shape.localPosition n)) →
    (∀ n < params, Fits32 (shape.paramPosition n)) →
    ∀ loc ∈ temporaries body ++ vars.map Prod.snd, ∀ n < params, loc.offset ≠ shape.paramOffset n

theorem offset_local (place : loc.position = shape.localPosition n) :
    loc.offset = shape.localOffset n := by
  rw [Location.offset, place, FrameShape.wrap_localPosition]

theorem offset_param (place : loc.position = shape.paramPosition n) :
    loc.offset = shape.paramOffset n := by
  rw [Location.offset, place, FrameShape.wrap_paramPosition]

theorem offset_global (place : loc.position = shape.globalPosition n) :
    loc.offset = shape.globalOffset n := by
  rw [Location.offset, place, FrameShape.wrap_globalPosition]

/-- The offsets of a safe frame. -/
theorem SafeFrame.offsets (safe : SafeFrame shape globals params slots vars body) :
    FrameOffsets shape globals params slots vars body := by
  have exact_offset (fits : ∀ n < slots, Fits32 (shape.localPosition n)) :
      ∀ loc ∈ temporaries body ++ vars.map Prod.snd, loc.offset = loc.position := by
    intro loc member
    obtain ⟨-, n, inside, place⟩ := safe.slotted loc member
    rw [Location.offset, place]
    exact fits n inside
  constructor
  · intro i member loc operand segment
    rcases safe.frame i member loc operand segment with ⟨n, inside, place⟩ | ⟨n, inside, place⟩
    · exact .inl ⟨n, inside, offset_param place⟩
    · obtain ⟨own, among, same⟩ := safe.filled n inside
      refine .inr ⟨n, inside, offset_local place, own, among, ?_⟩
      rw [offset_local same, offset_local place]
  · intro i member loc operand segment
    obtain ⟨n, inside, place⟩ := safe.global i member loc operand segment
    exact ⟨n, inside, offset_global place⟩
  · intro loc member
    obtain ⟨segment, n, inside, place⟩ := safe.slotted loc member
    exact ⟨segment, n, inside, offset_local place⟩
  · intro fits
    rw [List.map_congr_left (exact_offset fits)]
    exact safe.distinct
  · intro fits paramsFit loc member n inside same
    have param : shape.paramOffset n = shape.paramPosition n :=
      (shape.wrap_paramPosition n).symm.trans (paramsFit n inside)
    rw [exact_offset fits loc member, param] at same
    exact safe.apart loc member n same

end Offsets

end Lower

/-! ## Whole programs -/

/-- A segment of a program that belongs to one of its functions: it bears the label of the function, its
body is lowered from the state in which the function starts, its size is that of all slots of the frame,
and the frame holds the variables that are bound in the body, and its temporaries. -/
def Program.StoredSegment (program : Program) (layouts : Layouts) (shape : FrameShape) (label : String)
    (body : List Instruction) (size : Int) : Prop :=
  ∃ (layout : Option ClassLayout) (decl : Decl) (signature : Signature) (s : LowerState) (slots : Nat)
      (vars : List (DeclId × Location)),
    program.Lowers layouts layout decl ∧ decl.signature? = some signature ∧
    label = Lower.functionLabel layout decl.name ∧
    body = (Lower.bodyOf program.arena layouts decl (Lower.started layout signature.formals s)).code ∧
    size = slotBytes shape.slotSize slots ∧
    (∀ id loc, (id, loc) ∈ vars ↔
      Lower.Binds program.arena layouts decl (Lower.started layout signature.formals s) id loc) ∧
    Lower.FrameOffsets shape (Lower.varsAmong program.top).length (Lower.paramSlots layout decl) slots
      vars body

theorem Program.SafeSegment.stored {program : Program} {layouts : Layouts} {shape : FrameShape}
    {label : String} {body : List Instruction} {size : Int}
    (safe : program.SafeSegment layouts shape (Lower.varsAmong program.top).length label body size) :
    program.StoredSegment layouts shape label body size := by
  obtain ⟨layout, decl, signature, s, slots, lowers, signed, named, issued, sized, frame⟩ := safe
  exact ⟨layout, decl, signature, s, slots, _, lowers, signed, named, issued, sized,
    fun _ _ => Lower.mem_localsOf_iff, frame.offsets⟩

end DecafTac
