import Mathlib.Data.List.Nodup
import DecafTac.Proofs.Lower.Accounting
import DecafTac.Proofs.Source.Assembly
import DecafTac.Proofs.Storage.Wrapping

/-!
Frames. In every segment of the code that is generated, whether or not generation comes to its end, the
operands are parameters of the function, slots of its frame, or globals; variables and temporaries have
slots of their own, which lie apart from the parameters. All of this is about positions, which never wrap
around.
-/
namespace DecafTac

namespace Lower

/-- What is lowered between the start and the end of a function. -/
def bodyOf (arena : Arena) (layouts : Layouts) : Decl → Lower Unit
  | .function _ _ _ _ body => stmt arena layouts body
  | _ => return ()

/-- The variables declared in a function, with the storage that they get when it is lowered. -/
def localsOf (arena : Arena) (layouts : Layouts) : Decl → LowerState → List (DeclId × Location)
  | .function _ _ _ _ body => locals arena layouts body
  | _ => fun _ => []

/-- Parameter slots of a function: one for each formal, and one for the receiver of a method. -/
def paramSlots (layout : Option ClassLayout) (decl : Decl) : Nat :=
  (decl.signature?.map (·.formals.length)).getD 0 + (if layout.isSome then 1 else 0)

/-- The frame of a function whose body has the given variables and code. -/
structure SafeFrame (shape : FrameShape) (globals params slots : Nat) (vars : List (DeclId × Location))
    (body : List Instruction) : Prop where
  /-- Operands on the frame are parameters or slots of it. -/
  frame : ∀ i ∈ body, ∀ loc ∈ i.operands, loc.segment = .frame →
    (∃ n : Nat, n < params ∧ loc.position = shape.paramPosition n) ∨
      ∃ n : Nat, n < slots ∧ loc.position = shape.localPosition n
  /-- All other operands are globals. -/
  global : ∀ i ∈ body, ∀ loc ∈ i.operands, loc.segment = .global →
    ∃ n : Nat, n < globals ∧ loc.position = shape.globalPosition n
  /-- Variables and temporaries have slots of the frame. -/
  slotted : ∀ loc ∈ temporaries body ++ vars.map Prod.snd,
    loc.segment = .frame ∧ ∃ n : Nat, n < slots ∧ loc.position = shape.localPosition n
  /-- There are no other slots. -/
  filled : ∀ n < slots, ∃ loc ∈ temporaries body ++ vars.map Prod.snd,
    loc.position = shape.localPosition n
  /-- No two of them have the same. -/
  distinct : ((temporaries body ++ vars.map Prod.snd).map Location.position).Nodup
  /-- None has that of a parameter. -/
  apart : ∀ loc ∈ temporaries body ++ vars.map Prod.snd, ∀ n : Nat, loc.position ≠ shape.paramPosition n

/-! ## One function -/

/-- A state between functions: the globals are there. -/
structure Between (shape : FrameShape) (globals : Nat) (s : LowerState) : Prop where
  shaped : s.emitter.shape = shape
  counted : s.emitter.globals = globals
  stored : ∀ loc ∈ s.globals.map (·.2.loc),
    loc.segment = .global ∧ ∃ n : Nat, n < globals ∧ loc.position = shape.globalPosition n

/-- The state in which the body of a function is lowered. -/
def started (layout : Option ClassLayout) (formals : List Decl) (s : LowerState) : LowerState :=
  openFrame layout formals
    { s with emitter := { s.emitter with inFunction := true, locals := 0, issued := s.emitter.issued + 2 } }

/-- A segment stands around the code of its body, and is closed even when the body fails. -/
theorem segment_apply (label : String) (layout : Option ClassLayout) (formals : List Decl)
    (body : Lower Unit) (s : LowerState) :
    segment label layout formals body s =
      ⟨(body (started layout formals s)).value,
        (closeFrame (body (started layout formals s)).state).state,
        .label label :: .beginFunc :: ((body (started layout formals s)).code ++
          [.endFunc (slotBytes (body (started layout formals s)).state.emitter.shape.slotSize
            (body (started layout formals s)).state.emitter.locals)])⟩ := rfl

/-- A function is lowered to the segment of its body. -/
theorem function_segment (arena : Arena) (layouts : Layouts) {decl : Decl} {signature : Signature}
    (signed : decl.signature? = some signature) (layout : Option ClassLayout) :
    function arena layouts layout decl = segment (functionLabel layout decl.name) layout
      signature.formals (bodyOf arena layouts decl) := by
  cases decl with
  | var | cls | interface => cases signed
  | prototype id name result formals | function id name result formals body =>
    cases signed
    rfl

/-- The body of a function is accounted for. -/
theorem bodyOf_sound (arena : Arena) (layouts : Layouts) (arity : Nat) (decl : Decl) :
    Sound arity [] [] (bodyOf arena layouts decl) (fun _ => []) (localsOf arena layouts decl) := by
  cases decl with
  | function id name result formals body => exact stmt_sound arena layouts [] body
  | var | cls | interface | prototype => exact .pure _ _ (by simp)

private theorem bindFormals_locations (e : Emitter) (formals : List Decl) (slot : Nat) (b : Bindings) :
    ∀ loc ∈ (bindFormals e formals slot b).locations, loc ∈ b.locations ∨
      loc.segment = .frame ∧
        ∃ n : Nat, n < slot + formals.length ∧ loc.position = e.shape.paramPosition n := by
  induction formals generalizing slot b with
  | nil =>
    intro loc member
    exact .inl member
  | cons formal rest ih =>
    intro loc member
    have later := ih (slot + 1)
    simp only [List.length_cons]
    cases formal with
    | var id name type =>
      rcases later _ loc member with member | ⟨framed, n, below, place⟩
      · rcases List.mem_cons.mp (declare_locations _ _ _ member) with rfl | old
        · exact .inr ⟨rfl, slot, by omega, rfl⟩
        · exact .inl old
      · exact .inr ⟨framed, n, by omega, place⟩
    | cls | interface | prototype | function =>
      rcases later _ loc member with old | ⟨framed, n, below, place⟩
      · exact .inl old
      · exact .inr ⟨framed, n, by omega, place⟩

theorem started_emitter (layout : Option ClassLayout) (formals : List Decl) (s : LowerState) :
    (started layout formals s).emitter =
      { s.emitter with inFunction := true, locals := 0, issued := s.emitter.issued + 2 } := by
  cases layout <;> rfl

/-- A function starts with its parameters and the globals. -/
theorem Between.started {shape : FrameShape} {globals : Nat} {s : LowerState}
    (between : Between shape globals s) (layout : Option ClassLayout) (formals : List Decl) :
    (started layout formals s).Kept (formals.length + (if layout.isSome then 1 else 0)) := by
  have globalHolds (arity : Nat) (e : Emitter) (sameShape : e.shape = s.emitter.shape)
      (sameGlobals : e.globals = s.emitter.globals) :
      ∀ loc ∈ s.globals.map (·.2.loc), e.Holds arity loc := by
    intro loc member
    obtain ⟨segment, place⟩ := between.stored loc member
    simp only [Emitter.Holds, segment, sameShape, sameGlobals, between.shaped, between.counted]
    exact place
  have formalHolds (arity slot : Nat) (e : Emitter) (fits : slot + formals.length ≤ arity) :
      ∀ loc ∈ (bindFormals e formals slot {}).locations, e.Holds arity loc := by
    intro loc member
    rcases bindFormals_locations e formals slot {} loc member with old | ⟨segment, n, below, place⟩
    · cases old
    · simp only [Emitter.Holds, segment]
      exact .inl ⟨n, by omega, place⟩
  cases layout with
  | none =>
    refine ⟨rfl, ?_, fun loc member => (between.stored loc member).1⟩
    intro loc member
    simp only [Lower.started, openFrame, LowerState.locations, List.mem_append] at member
    rcases member with (member | member) | member
    · exact formalHolds _ 0 _ (by simp) loc member
    · cases member
    · exact globalHolds _ (Lower.started none formals s).emitter rfl rfl loc member
  | some layout =>
    refine ⟨rfl, ?_, fun loc member => (between.stored loc member).1⟩
    intro loc member
    simp only [Lower.started, openFrame, LowerState.locations, List.mem_append] at member
    rcases member with (member | member) | member
    · exact formalHolds _ 1 _ (by simp; omega) loc member
    · simp only [Option.map_some, Option.toList_some, List.mem_singleton] at member
      subst member
      exact .inl ⟨0, by simp, rfl⟩
    · exact globalHolds _ (Lower.started (some layout) formals s).emitter rfl rfl loc member

/-- Different local slots lie in different places. -/
theorem localPosition_injective {shape : FrameShape} (wide : 0 < shape.slotSize) :
    Function.Injective fun n : Nat => shape.localPosition n := by
  intro a b same
  simp only [FrameShape.localPosition] at same
  exact eq_of_slots wide (by omega)

/-- Locals lie below the parameters. -/
theorem localPosition_ne_paramPosition {shape : FrameShape} (wide : 0 < shape.slotSize)
    (below : shape.firstLocal < shape.firstParam) (a b : Nat) :
    shape.localPosition a ≠ shape.paramPosition b := by
  simp only [FrameShape.localPosition, FrameShape.paramPosition]
  have down : 0 ≤ shape.slotSize * (a : Int) := Int.mul_nonneg (by omega) (by omega)
  have up : 0 ≤ shape.slotSize * (b : Int) := Int.mul_nonneg (by omega) (by omega)
  omega

/-- A body that is accounted for leaves the globals where they are. -/
theorem Sound.between {shape : FrameShape} {globals params : Nat} {body : Lower Unit}
    {vars : LowerState → List (DeclId × Location)}
    (sound : Sound params [] [] body (fun _ => []) vars) {s : LowerState} (kept : s.Kept params)
    (shaped : s.emitter.shape = shape) (counted : s.emitter.globals = globals) :
    Between shape globals (body s).state := by
  obtain ⟨advance, kept', -, -⟩ := sound s kept (by simp) (by simp)
  have shaped' : (body s).state.emitter.shape = shape := advance.shape.trans shaped
  have counted' : (body s).state.emitter.globals = globals := advance.globals.trans counted
  refine ⟨shaped', counted', ?_⟩
  intro loc member
  have segment := kept'.global loc member
  have there := kept'.holds loc (List.mem_append_right _ member)
  simp only [Emitter.Holds, segment, shaped', counted'] at there
  exact ⟨segment, there⟩

section Segment

variable {shape : FrameShape} (wide : 0 < shape.slotSize) (below : shape.firstLocal < shape.firstParam)
  {globals : Nat}
include wide below

/-- The frame of a body that is accounted for is safe. -/
theorem Sound.safeFrame {params : Nat} {body : Lower Unit} {vars : LowerState → List (DeclId × Location)}
    (sound : Sound params [] [] body (fun _ => []) vars) {s : LowerState} (kept : s.Kept params)
    (shaped : s.emitter.shape = shape) (counted : s.emitter.globals = globals)
    (empty : s.emitter.locals = 0) :
    SafeFrame shape globals params (body s).state.emitter.locals (vars s) (body s).code ∧
      ∀ i ∈ (body s).code, i.isBracket = false := by
  obtain ⟨advance, -, operands, -⟩ := sound s kept (by simp) (by simp)
  have shaped' : (body s).state.emitter.shape = shape := advance.shape.trans shaped
  have counted' : (body s).state.emitter.globals = globals := advance.globals.trans counted
  have slots := advance.slots
  rw [empty, shaped, Nat.sub_zero, ← List.range_eq_range'] at slots
  have slotted : ∀ loc ∈ temporaries (body s).code ++ (vars s).map Prod.snd,
      loc.segment = .frame ∧
        ∃ n : Nat, n < (body s).state.emitter.locals ∧ loc.position = shape.localPosition n := by
    intro loc member
    refine ⟨advance.framed loc member, ?_⟩
    have covered := slots.mem_iff.mp (List.mem_map_of_mem member)
    obtain ⟨n, inRange, place⟩ := List.mem_map.mp covered
    exact ⟨n, List.mem_range.mp inRange, place.symm⟩
  refine ⟨⟨?_, ?_, slotted, ?_, ?_, ?_⟩, advance.plain⟩
  · intro i member loc operand segment
    have there := operands i member loc operand
    simp only [Emitter.Holds, segment, shaped'] at there
    exact there
  · intro i member loc operand segment
    have there := operands i member loc operand
    simp only [Emitter.Holds, segment, shaped', counted'] at there
    exact there
  · intro n inRange
    exact List.mem_map.mp (slots.mem_iff.mpr (List.mem_map_of_mem (List.mem_range.mpr inRange)))
  · exact slots.nodup_iff.mpr (List.Nodup.map (localPosition_injective wide) List.nodup_range)
  · intro loc member n
    obtain ⟨-, slot, -, place⟩ := slotted loc member
    rw [place]
    exact localPosition_ne_paramPosition wide below slot n

end Segment

/-! ## Segments of a listing -/

/-- Code made of segments and of instructions that stand outside of them and name no storage. Each segment
stands behind its label. -/
inductive Listing (Safe : String → List Instruction → Int → Prop) : List Instruction → Prop where
  | nil : Listing Safe []
  | outside {i : Instruction} {rest : List Instruction} (other : i ≠ .beginFunc)
      (bare : i.operands = []) (listing : Listing Safe rest) : Listing Safe (i :: rest)
  | segment {label : String} {body rest : List Instruction} {size : Int}
      (plain : ∀ i ∈ body, i.isBracket = false) (safe : Safe label body size)
      (listing : Listing Safe rest) :
      Listing Safe (.label label :: .beginFunc :: (body ++ .endFunc size :: rest))

section Listings

variable {Safe : String → List Instruction → Int → Prop} {code before body rest : List Instruction}
  {size : Int}

theorem Listing.append {first second : List Instruction} (one : Listing Safe first)
    (two : Listing Safe second) : Listing Safe (first ++ second) := by
  induction one with
  | nil => exact two
  | outside other bare _ ih => exact .outside other bare ih
  | segment plain safe _ ih =>
    rw [List.cons_append, List.cons_append, List.append_assoc]
    exact .segment plain safe ih

/-- The first bracket ends a body. -/
private theorem body_unique {body' rest' : List Instruction} {i i' : Instruction}
    (plain : ∀ i ∈ body, i.isBracket = false) (plain' : ∀ i ∈ body', i.isBracket = false)
    (ends : i.isBracket = true) (ends' : i'.isBracket = true)
    (same : body ++ i :: rest = body' ++ i' :: rest') : body = body' ∧ i = i' := by
  induction body generalizing body' with
  | nil =>
    cases body' with
    | nil =>
      cases same
      exact ⟨rfl, rfl⟩
    | cons head tail =>
      cases same
      rw [plain' i List.mem_cons_self] at ends
      cases ends
  | cons head tail ih =>
    cases body' with
    | nil =>
      cases same
      rw [plain i' List.mem_cons_self] at ends'
      cases ends'
    | cons head' tail' =>
      rw [List.cons_append, List.cons_append, List.cons.injEq] at same
      obtain ⟨rfl, same⟩ := same
      obtain ⟨rfl, rfl⟩ := ih (fun i member => plain i (List.mem_cons_of_mem _ member))
        (fun i member => plain' i (List.mem_cons_of_mem _ member)) same
      exact ⟨rfl, rfl⟩

/-- A segment that starts after a body starts after its end. -/
private theorem starts_later {tail : List Instruction} (plain : ∀ i ∈ body, i.isBracket = false)
    (same : body ++ .endFunc size :: rest = before ++ .beginFunc :: tail) :
    ∃ before', before = body ++ .endFunc size :: before' ∧ rest = before' ++ .beginFunc :: tail := by
  induction body generalizing before with
  | nil =>
    cases before with
    | nil => cases same
    | cons head before =>
      rw [List.nil_append, List.cons_append, List.cons.injEq] at same
      obtain ⟨rfl, same⟩ := same
      exact ⟨before, rfl, same⟩
  | cons head body ih =>
    cases before with
    | nil =>
      rw [List.cons_append, List.nil_append, List.cons.injEq] at same
      have bracket := plain head List.mem_cons_self
      rw [same.1] at bracket
      cases bracket
    | cons head' before =>
      rw [List.cons_append, List.cons_append, List.cons.injEq] at same
      obtain ⟨rfl, same⟩ := same
      obtain ⟨before', rfl, later⟩ := ih (fun i member => plain i (List.mem_cons_of_mem _ member)) same
      exact ⟨before', rfl, later⟩

/-- Every segment of a listing is one that it was made of, and stands behind the label of that one. -/
theorem Listing.safe (listing : Listing Safe code)
    (found : code = before ++ .beginFunc :: (body ++ .endFunc size :: rest))
    (plain : ∀ i ∈ body, i.isBracket = false) :
    ∃ earlier label, before = earlier ++ [.label label] ∧ Safe label body size := by
  induction listing generalizing before with
  | nil => simp at found
  | outside other _ _ ih =>
    cases before with
    | nil =>
      cases found
      exact absurd rfl other
    | cons head before =>
      rw [List.cons_append, List.cons.injEq] at found
      obtain ⟨earlier, label, rfl, safe⟩ := ih found.2
      exact ⟨head :: earlier, label, rfl, safe⟩
  | @segment label own later ownSize plain' safe _ ih =>
    cases before with
    | nil => cases found
    | cons head before =>
      rw [List.cons_append, List.cons.injEq] at found
      obtain ⟨rfl, found⟩ := found
      cases before with
      | nil =>
        rw [List.nil_append, List.cons.injEq] at found
        obtain ⟨rfl, same⟩ := body_unique plain' plain rfl rfl found.2
        cases same
        exact ⟨[], label, rfl, safe⟩
      | cons head before =>
        rw [List.cons_append, List.cons.injEq] at found
        obtain ⟨rfl, found⟩ := found
        obtain ⟨before', rfl, onward⟩ := starts_later plain' found
        obtain ⟨earlier, name, rfl, safe⟩ := ih onward
        refine ⟨.label label :: .beginFunc :: (own ++ .endFunc ownSize :: earlier), name, ?_, safe⟩
        simp

/-- What a listing names outside of segments is nothing, so its globals are those of segments. -/
theorem Listing.operands {fits : Location → Prop} (listing : Listing Safe code)
    (inside : ∀ label body size, Safe label body size → ∀ i ∈ body, ∀ loc ∈ i.operands, fits loc) :
    ∀ i ∈ code, ∀ loc ∈ i.operands, fits loc := by
  induction listing with
  | nil => simp
  | outside _ bare _ ih => simpa [bare] using ih
  | @segment label body rest size _ safe _ ih =>
    intro i member loc operand
    rcases List.mem_cons.mp member with rfl | member
    · cases operand
    rcases List.mem_cons.mp member with rfl | member
    · cases operand
    rcases List.mem_append.mp member with member | member
    · exact inside label body size safe i member loc operand
    rcases List.mem_cons.mp member with rfl | member
    · cases operand
    · exact ih i member loc operand

end Listings

end Lower

/-! ## Whole programs -/

/-- The functions that code is generated for: those at top level, and the members of top-level classes,
which have the layout of their class. -/
inductive Program.Lowers (program : Program) (layouts : Layouts) : Option ClassLayout → Decl → Prop where
  | top {decl : Decl} (member : decl ∈ program.top) (isFunction : decl.isFunction = true) :
      program.Lowers layouts none decl
  | method {id : DeclId} {name : Ident} {superclass : Option Ident} {interfaces : List Ident}
      {members : List Decl} {layout : ClassLayout} {decl : Decl}
      (cls : Decl.cls id name superclass interfaces members ∈ program.top)
      (laidOut : layouts.class? name.name = some layout) (member : decl ∈ members)
      (isFunction : decl.isFunction = true) : program.Lowers layouts (some layout) decl

/-- A segment of a program that belongs to one of its functions and has a safe frame. It bears the label of
the function, and its body is lowered from the state in which the function starts. -/
def Program.SafeSegment (program : Program) (layouts : Layouts) (shape : FrameShape) (globals : Nat)
    (label : String) (body : List Instruction) (size : Int) : Prop :=
  ∃ (layout : Option ClassLayout) (decl : Decl) (signature : Signature) (s : LowerState) (slots : Nat),
    program.Lowers layouts layout decl ∧ decl.signature? = some signature ∧
    label = Lower.functionLabel layout decl.name ∧
    body = (Lower.bodyOf program.arena layouts decl (Lower.started layout signature.formals s)).code ∧
    size = slotBytes shape.slotSize slots ∧
    Lower.SafeFrame shape globals (Lower.paramSlots layout decl) slots
      (Lower.localsOf program.arena layouts decl (Lower.started layout signature.formals s)) body

namespace Lower

section Program

variable {program : Program} {layouts : Layouts} {shape : FrameShape} {globals : Nat}

/-- A step between functions that issues safe segments. -/
def Lists (program : Program) (layouts : Layouts) (shape : FrameShape) (globals : Nat) {α : Type}
    (step : Lower α) : Prop :=
  ∀ s, Between shape globals s →
    Between shape globals (step s).state ∧
      Listing (program.SafeSegment layouts shape globals) (step s).code

theorem Lists.pure {α : Type} (a : α) : Lists program layouts shape globals (Pure.pure a : Lower α) :=
  fun _ between => ⟨between, .nil⟩

theorem Lists.bind {α β : Type} {step : Lower α} {rest : α → Lower β}
    (first : Lists program layouts shape globals step)
    (second : ∀ a s, (step s).value = .ok a → Lists program layouts shape globals (rest a)) :
    Lists program layouts shape globals (step >>= rest) := by
  intro s between
  obtain ⟨between', listing⟩ := first s between
  rw [Lower.bind_apply]
  cases result : (step s).value with
  | error error => exact ⟨between', listing⟩
  | ok a =>
    obtain ⟨between'', listing'⟩ := second a s result _ between'
    exact ⟨between'', listing.append listing'⟩

variable (wide : 0 < shape.slotSize) (below : shape.firstLocal < shape.firstParam)
include wide below

end Program

/-! ## Globals -/

/-- The variables among some declarations. -/
def varsAmong (decls : List Decl) : List Decl := decls.filter (·.kind == .var)

/-- Outside of functions, storage is taken in order from the global slots. -/
theorem storage_global (e : Emitter) (outside : e.inFunction = false) (decls : List Decl) :
    (storage e decls).map Prod.fst = (varsAmong decls).map Decl.id ∧
    (∀ entry ∈ storage e decls, entry.2.segment = .global) ∧
    (storage e decls).map (·.2.position) =
      (List.range' e.globals (varsAmong decls).length).map fun n : Nat => e.shape.globalPosition n := by
  induction decls generalizing e with
  | nil => exact ⟨rfl, by simp [storage], rfl⟩
  | cons decl rest ih =>
    cases decl with
    | var id name type =>
      have taken : Emitter.allocate name.name e = ⟨⟨name.name, .global, e.shape.globalPosition e.globals⟩,
          { e with globals := e.globals + 1 }, []⟩ := by
        unfold Emitter.allocate
        rw [if_neg (by simp [outside])]
      obtain ⟨ids, segments, offsets⟩ := ih { e with globals := e.globals + 1 } outside
      have counted : (varsAmong (.var id name type :: rest)).length = (varsAmong rest).length + 1 := rfl
      simp only [storage, taken]
      refine ⟨by rw [List.map_cons, ids]; rfl, List.forall_mem_cons.mpr ⟨rfl, segments⟩, ?_⟩
      rw [List.map_cons, offsets, counted, List.range'_succ, List.map_cons]
    | cls | interface | prototype | function => exact ih e outside

/-- A top-level variable has one of as many slots as there are such variables. -/
theorem mem_storage_global {shape : FrameShape} {decls : List Decl} {entry : DeclId × Location}
    (member : entry ∈ storage { shape } decls) :
    ∃ n < (varsAmong decls).length, entry.2.position = shape.globalPosition n := by
  obtain ⟨-, -, positions⟩ := storage_global { shape } rfl decls
  have place : entry.2.position ∈ (storage { shape } decls).map (·.2.position) :=
    List.mem_map_of_mem member
  rw [positions] at place
  obtain ⟨n, inRange, same⟩ := List.mem_map.mp place
  exact ⟨n, by simpa using List.mem_range'_1.mp inRange, same.symm⟩

/-- Giving storage to the globals issues nothing and leaves the globals with their storage. -/
theorem declareGlobals_apply (decls : List Decl) (s : LowerState)
    (outside : s.emitter.inFunction = false) :
    ∃ globals, declareGlobals decls s =
        ⟨.ok (), { s with
          emitter := { s.emitter with globals := s.emitter.globals + (varsAmong decls).length }, globals },
          []⟩ ∧
      globals.map (·.2.loc) =
        ((storage s.emitter decls).map Prod.snd).reverse ++ s.globals.map (·.2.loc) := by
  induction decls generalizing s with
  | nil => exact ⟨s.globals, rfl, rfl⟩
  | cons decl rest ih =>
    cases decl with
    | var id name type =>
      have taken : Emitter.allocate name.name s.emitter =
          ⟨⟨name.name, .global, s.emitter.shape.globalPosition s.emitter.globals⟩,
            { s.emitter with globals := s.emitter.globals + 1 }, []⟩ := by
        unfold Emitter.allocate
        rw [if_neg (by simp [outside])]
      obtain ⟨globals, rest_apply, stored⟩ := ih { s with
        emitter := { s.emitter with globals := s.emitter.globals + 1 }
        globals := (name.name, ⟨⟨name.name, .global, s.emitter.shape.globalPosition s.emitter.globals⟩,
          Tag.ofType type⟩) :: s.globals } outside
      refine ⟨globals, ?_, ?_⟩
      · simp only [declareGlobals, Lower.bind_apply, emit, modify, taken, rest_apply]
        have counted : (varsAmong (.var id name type :: rest)).length = (varsAmong rest).length + 1 := rfl
        rw [counted, Nat.add_assoc, Nat.add_comm 1]
        rfl
      · rw [stored]
        simp only [storage, taken, List.map_cons, List.reverse_cons, List.append_assoc,
          List.singleton_append]
    | cls | interface | prototype | function => exact ih s outside

/-- The state in which the first function of a program is lowered: the variables among its top-level
declarations have their storage. -/
def opening (decls : List Decl) (shape : FrameShape) : LowerState :=
  (declareGlobals decls { emitter := { shape } }).state

theorem opening_eq (decls : List Decl) (shape : FrameShape) :
    ∃ globals, opening decls shape =
      ⟨{ shape, globals := (varsAmong decls).length }, globals, {}, none, {}, 0, 0⟩ := by
  obtain ⟨globals, declared, -⟩ := declareGlobals_apply decls { emitter := { shape } } rfl
  refine ⟨globals, ?_⟩
  rw [opening, declared]
  simp

theorem opening_between (decls : List Decl) (shape : FrameShape) :
    Between shape (varsAmong decls).length (opening decls shape) := by
  obtain ⟨globals, declared, stored⟩ := declareGlobals_apply decls { emitter := { shape } } rfl
  obtain ⟨-, segments, -⟩ := storage_global { shape } rfl decls
  rw [opening, declared]
  refine ⟨rfl, by simp, ?_⟩
  intro loc member
  rw [stored, List.map_nil, List.append_nil, List.mem_reverse] at member
  obtain ⟨entry, isEntry, rfl⟩ := List.mem_map.mp member
  exact ⟨segments entry isEntry, mem_storage_global isEntry⟩

/-- A program is lowered declaration by declaration, once its variables have their storage. -/
theorem program_apply (layouts : Layouts) (p : Program) (shape : FrameShape) :
    program layouts p { emitter := { shape } } =
      topLevels p.arena layouts p.top (opening p.top shape) := by
  obtain ⟨globals, declared, -⟩ := declareGlobals_apply p.top { emitter := { shape } } rfl
  rw [program, Lower.bind_apply, opening, declared]
  rfl

end Lower

end DecafTac
