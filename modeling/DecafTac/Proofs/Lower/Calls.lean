import DecafTac.Proofs.Lower.Frames
import DecafTac.Proofs.Lower.Parts
import DecafTac.Proofs.Lower.Scoping

/-!
Calls. Every call stands right behind the pushing of its own parameters. When 32 bits hold the bytes of the
parameters, these are taken off right behind the call, and nowhere is a parameter left pushed. A function
binds its formals to the offsets where the parameters of a call come to lie, so each formal holds what the
location of its actual held.
-/
namespace DecafTac

/-! ## Words that are pushed -/

/-- The words that are pushed after an instruction, latest first. -/
def pushedAfter (slotSize : Int) (pushed : List Location) : Instruction → List Location
  | .pushParam param => param :: pushed
  | .popParams bytes => pushed.drop (bytes / slotSize).toNat
  | _ => pushed

/-- The words that some code pushes and does not take off again, latest first. -/
def outstanding (slotSize : Int) (code : List Instruction) : List Location :=
  code.foldl (pushedAfter slotSize) []

/-- The parameters that are pushed in a row up to an instruction and with it, latest first. -/
def rowAfter (row : List Location) : Instruction → List Location
  | .pushParam param => param :: row
  | _ => []

/-- The parameters that are pushed in a row at the end of some code, latest first. -/
def lastPushes (code : List Instruction) : List Location := code.foldl rowAfter []

/-- 32 bits hold the bytes of the parameters of every call in some code. -/
def CallsFit (slotSize : Int) (code : List Instruction) : Prop :=
  ∀ before i rest, code = before ++ i :: rest → i.isCall = true →
    Fits32 (slotSize * (lastPushes before).length)

section Pushed

variable {slotSize : Int} {calls : List Instruction → List Location → Instruction → Prop}
  {first : List Instruction}

theorem outstanding_append (settled : outstanding slotSize first = []) (second : List Instruction) :
    outstanding slotSize (first ++ second) = outstanding slotSize second := by
  rw [outstanding, List.foldl_append]
  exact congrArg (second.foldl (pushedAfter slotSize)) settled

theorem lastPushes_append (ended : lastPushes first = []) (second : List Instruction) :
    lastPushes (first ++ second) = lastPushes second := by
  rw [lastPushes, List.foldl_append]
  exact congrArg (second.foldl rowAfter) ended

private theorem foldl_pushParam {after : List Location → Instruction → List Location}
    (pushing : ∀ pushed param, after pushed (.pushParam param) = param :: pushed)
    (params pushed : List Location) :
    (params.map .pushParam).foldl after pushed = params.reverse ++ pushed := by
  induction params generalizing pushed with
  | nil => rfl
  | cons param rest ih =>
    rw [List.map_cons, List.foldl_cons, ih, List.reverse_cons, List.append_assoc, pushing]
    rfl

theorem outstanding_pushes (params : List Location) :
    outstanding slotSize (params.reverse.map .pushParam) = params := by
  rw [outstanding, foldl_pushParam fun _ _ => rfl, List.reverse_reverse, List.append_nil]

theorem lastPushes_pushes (params : List Location) :
    lastPushes (params.reverse.map .pushParam) = params := by
  rw [lastPushes, foldl_pushParam fun _ _ => rfl, List.reverse_reverse, List.append_nil]

theorem pushedAfter_of_not_passing {i : Instruction} (apart : i.isPassing = false)
    (pushed : List Location) : pushedAfter slotSize pushed i = pushed := by
  cases i <;> first | rfl | cases apart

theorem rowAfter_of_not_passing {i : Instruction} (apart : i.isPassing = false) (row : List Location) :
    rowAfter row i = [] := by
  cases i <;> first | rfl | cases apart

theorem isPassing_of_isCall {i : Instruction} (isCall : i.isCall = true) : i.isPassing = true := by
  cases i <;> first | rfl | cases isCall

theorem pushedAfter_of_isCall {i : Instruction} (isCall : i.isCall = true) (pushed : List Location) :
    pushedAfter slotSize pushed i = pushed := by
  cases i <;> first | rfl | cases isCall

theorem rowAfter_of_isCall {i : Instruction} (isCall : i.isCall = true) (row : List Location) :
    rowAfter row i = [] := by
  cases i <;> first | rfl | cases isCall

/-- All of a call sequence is part of one. -/
theorem isPassing_of_mem_passing {params : List Location} {call i : Instruction}
    (isCall : call.isCall = true) (member : i ∈ passing slotSize params call) : i.isPassing = true := by
  rcases mem_passing member with ⟨param, rfl⟩ | rfl | ⟨bytes, rfl⟩
  · rfl
  · exact isPassing_of_isCall isCall
  · rfl

/-- A call sequence holds one call, behind all pushes. -/
theorem call_of_passing {params : List Location} {call i : Instruction} {before rest : List Instruction}
    (found : passing slotSize params call = before ++ i :: rest) (isCall : i.isCall = true) :
    before = params.reverse.map .pushParam ∧ i = call ∧
      rest = if 0 < slotBytes slotSize params.length then [.popParams (slotBytes slotSize params.length)]
        else [] := by
  rcases split_append found with ⟨after, pushing, -⟩ | ⟨between, rfl, calling⟩
  · have pushed : i ∈ params.reverse.map .pushParam := by
      rw [pushing]
      exact List.mem_append_right _ List.mem_cons_self
    obtain ⟨param, -, rfl⟩ := List.mem_map.mp pushed
    cases isCall
  · cases between with
    | nil =>
      obtain ⟨same, pops⟩ := List.cons.inj calling
      exact ⟨List.append_nil _, same.symm, pops.symm⟩
    | cons head between =>
      obtain ⟨-, popping⟩ := List.cons.inj calling
      split at popping
      · have popped : i ∈ [Instruction.popParams (slotBytes slotSize params.length)] := by
          rw [popping]
          exact List.mem_append_right _ List.mem_cons_self
        rw [List.mem_singleton.mp popped] at isCall
        cases isCall
      · simp at popping

/-- After a call sequence nothing is left pushed, when 32 bits hold the bytes of the parameters. -/
theorem outstanding_passing (wide : 0 < slotSize) {params : List Location} {call : Instruction}
    (isCall : call.isCall = true) (fits : Fits32 (slotSize * params.length)) :
    outstanding slotSize (passing slotSize params call) = [] := by
  have pushed : (params.reverse.map Instruction.pushParam).foldl (pushedAfter slotSize) [] = params :=
    outstanding_pushes params
  rw [outstanding, passing, List.foldl_append, pushed, List.foldl_cons, pushedAfter_of_isCall isCall,
    slotBytes_of_fits fits]
  by_cases some : 0 < slotSize * (params.length : Int)
  · rw [if_pos some]
    have all : (slotSize * (params.length : Int) / slotSize).toNat = params.length := by
      rw [Int.mul_ediv_cancel_left _ (by omega), Int.toNat_natCast]
    rw [List.foldl_cons, List.foldl_nil, pushedAfter, all, List.drop_length]
  · rw [if_neg some]
    cases params with
    | nil => rfl
    | cons param rest => exact absurd (Int.mul_pos wide (by simp)) some

namespace CallsFit

variable {second : List Instruction} (fit : CallsFit slotSize (first ++ second))
include fit

theorem left : CallsFit slotSize first := by
  rintro before i rest rfl
  exact fit before i (rest ++ second) (by simp)

theorem right (ended : lastPushes first = []) : CallsFit slotSize second := by
  rintro before i rest rfl isCall
  have inside := fit (first ++ before) i rest (by simp) isCall
  rwa [lastPushes_append ended] at inside

end CallsFit

/-! ## Calls pass their own parameters -/

variable (slotSize) in
/-- A call passes these parameters: right before it they are pushed and nothing else is, after the code that
gives them their values; and right after it they are taken off, when 32 bits hold their bytes. -/
structure Passes (before rest giving : List Instruction) (params : List Location) : Prop where
  pushes : ∃ earlier, before = earlier ++ giving ++ params.reverse.map .pushParam
  own : lastPushes before = params
  pops : 0 < params.length → Fits32 (slotSize * params.length) →
    ∃ after, rest = .popParams (slotSize * params.length) :: after

/-- Code around it changes nothing, when the code before it does not end with a push. -/
theorem Passes.within {before rest giving : List Instruction} {params : List Location}
    (inside : Passes slotSize before rest giving params) {earlier : List Instruction}
    (ended : lastPushes earlier = []) (later : List Instruction) :
    Passes slotSize (earlier ++ before) (rest ++ later) giving params where
  pushes := by
    obtain ⟨front, rfl⟩ := inside.pushes
    exact ⟨earlier ++ front, by simp only [List.append_assoc]⟩
  own := by rw [lastPushes_append ended, inside.own]
  pops some fits := by
    obtain ⟨after, rfl⟩ := inside.pops some fits
    exact ⟨after ++ later, rfl⟩

variable (slotSize calls) in
/-- Code that does not end with a push and all of whose calls pass their own parameters. When the calls fit,
it leaves nothing pushed, and nothing is pushed at any instruction that is no part of a call sequence. -/
structure Balanced (code : List Instruction) : Prop where
  ended : lastPushes code = []
  passes : ∀ before i rest, code = before ++ i :: rest → i.isCall = true →
    ∃ giving params, calls giving params i ∧ Passes slotSize before rest giving params
  settled : CallsFit slotSize code → outstanding slotSize code = []
  apart : CallsFit slotSize code → ∀ before i rest, code = before ++ i :: rest →
    i.isPassing = false → outstanding slotSize before = []

namespace Balanced

theorem nil : Balanced slotSize calls [] where
  ended := rfl
  passes before i rest found := by simp at found
  settled _ := rfl
  apart _ before i rest found := by simp at found

theorem append {second : List Instruction} (one : Balanced slotSize calls first)
    (two : Balanced slotSize calls second) : Balanced slotSize calls (first ++ second) where
  ended := by rw [lastPushes_append one.ended, two.ended]
  passes before i rest found isCall := by
    rcases split_append found with ⟨after, inside, rfl⟩ | ⟨between, rfl, inside⟩
    · obtain ⟨giving, params, made, passes⟩ := one.passes before i after inside isCall
      exact ⟨giving, params, made, passes.within (by rfl : lastPushes [] = []) second⟩
    · obtain ⟨giving, params, made, passes⟩ := two.passes between i rest inside isCall
      exact ⟨giving, params, made, by simpa using passes.within one.ended []⟩
  settled fit := by
    rw [outstanding_append (one.settled fit.left), two.settled (fit.right one.ended)]
  apart fit before i rest found isApart := by
    rcases split_append found with ⟨after, inside, rfl⟩ | ⟨between, rfl, inside⟩
    · exact one.apart fit.left before i after inside isApart
    · rw [outstanding_append (one.settled fit.left)]
      exact two.apart (fit.right one.ended) between i rest inside isApart

/-- An instruction that is no part of a call sequence. -/
theorem single {i : Instruction} (apart : i.isPassing = false) : Balanced slotSize calls [i] := by
  have alone {before rest : List Instruction} {j : Instruction} (found : [i] = before ++ j :: rest) :
      before = [] ∧ j = i := by
    cases before with
    | nil => exact ⟨rfl, (List.cons.inj found).1.symm⟩
    | cons head before => simp at found
  refine ⟨rowAfter_of_not_passing apart [], fun before j rest found isCall => ?_,
    fun _ => pushedAfter_of_not_passing apart [], fun _ before j rest found _ => ?_⟩
  · rw [(alone found).2] at isCall
    rw [isPassing_of_isCall isCall] at apart
    cases apart
  · rw [(alone found).1]
    rfl

theorem cons {i : Instruction} {code : List Instruction} (apart : i.isPassing = false)
    (rest : Balanced slotSize calls code) : Balanced slotSize calls (i :: code) :=
  (single apart).append rest

/-- A call after the code that gives its parameters their values. -/
theorem call (wide : 0 < slotSize) {giving : List Instruction} {params : List Location}
    {call : Instruction} (inside : Balanced slotSize calls giving) (isCall : call.isCall = true)
    (made : calls giving params call) :
    Balanced slotSize calls (giving ++ passing slotSize params call) := by
  have own : lastPushes (giving ++ params.reverse.map .pushParam) = params := by
    rw [lastPushes_append inside.ended, lastPushes_pushes]
  have fits (fit : CallsFit slotSize (giving ++ passing slotSize params call)) :
      Fits32 (slotSize * params.length) := by
    have here := fit (giving ++ params.reverse.map .pushParam) call _ (List.append_assoc ..).symm isCall
    rwa [own] at here
  refine ⟨?_, fun before i rest found isCall' => ?_, fun fit => ?_, fun fit before i rest found isApart => ?_⟩
  · rw [lastPushes_append inside.ended, lastPushes, passing, List.foldl_append, List.foldl_cons,
      rowAfter_of_isCall isCall]
    split <;> rfl
  · rcases split_append found with ⟨after, found', rfl⟩ | ⟨between, rfl, found'⟩
    · obtain ⟨giving', params', made', passes⟩ := inside.passes before i after found' isCall'
      exact ⟨giving', params', made', passes.within (by rfl : lastPushes [] = []) _⟩
    · obtain ⟨rfl, rfl, rfl⟩ := call_of_passing found' isCall'
      refine ⟨giving, params, made, ⟨[], by simp⟩, own, fun some fits => ⟨[], ?_⟩⟩
      rw [slotBytes_of_fits fits, if_pos (Int.mul_pos wide (by omega))]
  · rw [outstanding_append (inside.settled fit.left), outstanding_passing wide isCall (fits fit)]
  · rcases split_append found with ⟨after, found', rfl⟩ | ⟨between, rfl, found'⟩
    · exact inside.apart fit.left before i after found' isApart
    · have member : i ∈ passing slotSize params call := by
        rw [found']
        exact List.mem_append_right _ List.mem_cons_self
      rw [isPassing_of_mem_passing isCall member] at isApart
      cases isApart

end Balanced

end Pushed

section Parts

variable {refs : References} {n m : Nat}

end Parts

/-! ## What a function receives -/

namespace Lower

private theorem bindFormals_append (e : Emitter) (first second : List Decl) (slot : Nat) (b : Bindings) :
    bindFormals e (first ++ second) slot b =
      bindFormals e second (slot + first.length) (bindFormals e first slot b) := by
  induction first generalizing slot b with
  | nil => rfl
  | cons formal rest ih =>
    have next : slot + (formal :: rest).length = slot + 1 + rest.length := by
      rw [List.length_cons]
      omega
    rw [next]
    cases formal <;> exact ih ..

/-- Binding formals of other names leaves a name as it was. -/
private theorem bindFormals_other (e : Emitter) {formals : List Decl} {name : String}
    (other : ∀ d ∈ formals, d.name ≠ name) (slot : Nat) (b : Bindings) :
    (bindFormals e formals slot b).lookup name = b.lookup name := by
  induction formals generalizing slot b with
  | nil => rfl
  | cons formal rest ih =>
    rw [List.forall_mem_cons] at other
    cases formal with
    | var id own type =>
      have apart : name ≠ own.name := fun same => other.1 same.symm
      exact (ih other.2 ..).trans ((Bindings.lookup_declare ..).trans (if_neg apart))
    | cls | interface | prototype | function => exact ih other.2 ..

/-- A formal is bound to the slot of its position. -/
private theorem bindFormals_bound (e : Emitter) {formals : List Decl} {i : Nat} {id : DeclId}
    {name : Ident} {type : TypeExpr} (found : formals[i]? = some (.var id name type)) (slot : Nat)
    (b : Bindings) :
    (bindFormals e (formals.take (i + 1)) slot b).lookup name.name =
      some ⟨e.param name.name (slot + i : Nat), Tag.ofType type⟩ := by
  have inside : i < formals.length := (List.getElem?_eq_some_iff.mp found).1
  have taken : formals.take (i + 1) = formals.take i ++ [.var id name type] := by
    rw [List.take_add_one, found]
    rfl
  have counted : (formals.take i).length = i := by
    rw [List.length_take]
    omega
  rw [taken, bindFormals_append, counted]
  exact (Bindings.lookup_declare ..).trans (if_pos rfl)

/-- How many slots the receiver takes. -/
def receiverSlots (layout : Option ClassLayout) : Nat := if layout.isSome then 1 else 0

private theorem started_bindings (layout : Option ClassLayout) (s : LowerState) :
    ∃ e : Emitter, e.shape = s.emitter.shape ∧ ∀ formals,
      (started layout formals s).bindings = bindFormals e formals (receiverSlots layout) {} := by
  cases layout with
  | none => exact ⟨(started none [] s).emitter, rfl, fun _ => rfl⟩
  | some layout => exact ⟨(started (some layout) [] s).emitter, rfl, fun _ => rfl⟩

end Lower

/-- The pushed words of a caller lie where a callee looks for its parameters: `held` is what the locations
of the caller hold, and `frame` is what lies at the offsets of the frame of the callee. -/
def Handed {α : Type} (shape : FrameShape) (held : Location → α) (pushed : List Location)
    (frame : Int → α) : Prop :=
  ∀ j param, pushed[j]? = some param → frame (shape.paramOffset j) = held param

/-- A function that starts with such a frame receives a call: the receiver is its own, and each formal, as it
is bound and as long as no later one has its name, holds what the location of its argument held. -/
structure Receives {α : Type} (held : Location → α) (frame : Int → α) (receiver : Option Value)
    (args : List Value) (layout : Option ClassLayout) (formals : List Decl) (s : LowerState) : Prop where
  this : ∀ object, receiver = some object → ∃ method,
    (Lower.started layout formals s).method = some method ∧ method.this.loc.segment = .frame ∧
      frame method.this.loc.offset = held object.loc
  formal : ∀ (i : Nat) id name type, formals[i]? = some (.var id name type) → ∃ bound arg,
    args[i]? = some arg ∧
    (Lower.started layout (formals.take (i + 1)) s).bindings.lookup name.name = some bound ∧
    ((∀ later ∈ formals.drop (i + 1), later.name ≠ name.name) →
      (Lower.started layout formals s).bindings.lookup name.name = some bound) ∧
    bound.loc.segment = .frame ∧ frame bound.loc.offset = held arg.loc

theorem Emitter.param_offset (e : Emitter) (name : String) (slot : Nat) :
    (e.param name slot).offset = e.shape.paramOffset slot :=
  e.shape.wrap_paramPosition slot

/-- Caller and callee agree on where a parameter lies. -/
theorem Handed.receives {α : Type} {shape : FrameShape} {held : Location → α} {frame : Int → α}
    {receiver : Option Value} {args : List Value}
    (handed : Handed shape held (Lower.parametersOf receiver args) frame)
    {layout : Option ClassLayout} (kind : layout.isSome = receiver.isSome) {formals : List Decl}
    (counted : formals.length = args.length) {s : LowerState} (shaped : s.emitter.shape = shape) :
    Receives held frame receiver args layout formals s := by
  constructor
  · intro object given
    subst given
    obtain ⟨layout, rfl⟩ := Option.isSome_iff_exists.mp kind
    let started := (Lower.started (some layout) [] s).emitter
    refine ⟨⟨layout, ⟨started.param "this" 0, .object layout.name⟩⟩, rfl, rfl, ?_⟩
    have same : started.shape = shape := shaped
    rw [Emitter.param_offset, same]
    exact handed 0 object.loc rfl
  · intro i id name type found
    have inside : i < args.length := by
      rw [← counted]
      exact (List.getElem?_eq_some_iff.mp found).1
    obtain ⟨e, shape', bindings⟩ := Lower.started_bindings layout s
    let bound : Value := ⟨e.param name.name (Lower.receiverSlots layout + i), Tag.ofType type⟩
    have first := Lower.bindFormals_bound e found (Lower.receiverSlots layout) {}
    refine ⟨bound, args[i], List.getElem?_eq_getElem inside, ?_, fun free => ?_, rfl, ?_⟩
    · rw [bindings]
      exact first
    · have split : formals = formals.take (i + 1) ++ formals.drop (i + 1) :=
        (List.take_append_drop ..).symm
      rw [bindings, split, Lower.bindFormals_append, Lower.bindFormals_other e free]
      exact first
    · have place : (Lower.parametersOf receiver args)[Lower.receiverSlots layout + i]? =
          some args[i].loc := by
        rw [Lower.receiverSlots, kind]
        cases receiver with
        | none => simp [Lower.parametersOf, inside]
        | some object => simp [Lower.parametersOf, inside, Nat.add_comm 1]
      rw [Emitter.param_offset, shape', shaped]
      exact handed _ _ place

/-! ## Whole programs -/

/-- The actuals of a call expression. -/
def Expr.actuals : Expr → List Expr
  | .call _ _ actuals | .send _ _ _ actuals => actuals
  | _ => []

namespace Lower

variable {layouts : Layouts}

/-- Each expression gives one value. -/
theorem values_length {es : List Expr} {s t : LowerState} {args : List Value}
    {code : List Instruction} (run : values layouts es s = ⟨.ok args, t, code⟩) :
    args.length = es.length := by
  induction es generalizing s args code with
  | nil =>
    cases run
    rfl
  | cons e rest ih =>
    obtain ⟨v, s₁, _, _, -, run₁, rfl⟩ := bind_run run
    obtain ⟨vs, s₂, _, _, run₂, last, rfl⟩ := bind_run run₁
    cases last
    rw [List.length_cons, List.length_cons, ih run₂]

theorem Calling.counted {e : Expr} {giving : List Instruction} {receiver : Option Value}
    {args : List Value} {call : Instruction} (calling : Calling layouts e giving receiver args call) :
    args.length = e.actuals.length := by
  cases calling with
  | function _ evaluated _ => exact values_length evaluated
  | own _ _ _ _ evaluated _ _ => exact values_length evaluated
  | send _ _ _ _ _ evaluated => exact values_length evaluated

end Lower

namespace NestedSums

/-- A function that adds, and one that calls it with a call of it among the actuals. -/
def steps : List Step :=
  let word (name : String) : Ident := ⟨name, default⟩
  [ .var (word "a") (.primitive .int), .var (word "b") (.primitive .int),
    .name (word "a"), .name (word "b"), .binary .add ⟨0⟩ ⟨1⟩, .ret (some ⟨2⟩) default,
    .block [] [⟨0⟩] default, .function (word "sum") (.primitive .int) [⟨0⟩, ⟨1⟩] (some ⟨1⟩),
    .int 1 default, .int 2 default, .int 3 default, .call none (word "sum") [⟨4⟩, ⟨5⟩] default,
    .call none (word "sum") [⟨3⟩, ⟨6⟩] default, .expr ⟨7⟩, .block [] [⟨2⟩] default,
    .function (word "main") (.primitive .void) [] (some ⟨3⟩) ]

def slot (name : String) (position : Int) : Location := ⟨name, .frame, position⟩

/-- The code before the outer call. -/
def before : List Instruction :=
  [ .label "sum", .beginFunc, .binary .add (slot "_tmp0" (-8)) (slot "a" 4) (slot "b" 8),
    .ret (some (slot "_tmp0" (-8))), .endFunc 4, .label "main", .beginFunc,
    .loadConstant (slot "_tmp1" (-8)) (.int 1), .loadConstant (slot "_tmp2" (-12)) (.int 2),
    .loadConstant (slot "_tmp3" (-16)) (.int 3), .pushParam (slot "_tmp3" (-16)),
    .pushParam (slot "_tmp2" (-12)), .callLabel "sum" (some (slot "_tmp4" (-20))), .popParams 8,
    .pushParam (slot "_tmp4" (-20)), .pushParam (slot "_tmp1" (-8)) ]

/-- The outer call with what takes its parameters off. -/
def outer : List Instruction := [.callLabel "sum" (some (slot "_tmp5" (-24))), .popParams 8]

private theorem generated :
    ((Program.assemble steps [⟨2⟩, ⟨3⟩]).map fun program =>
        ((program.generate { functions := .ofDecls program.top } {}).outcome.toOption,
          (program.generate { functions := .ofDecls program.top } {}).code)) =
      some (some ⟨19, 2, 0⟩, before ++ outer ++ [.endFunc 20]) := by
  decide +kernel

end NestedSums

namespace WidePair

/-- A function that calls another with two actuals. -/
def steps : List Step :=
  let word (name : String) : Ident := ⟨name, default⟩
  [ .var (word "a") (.primitive .int), .var (word "b") (.primitive .int),
    .function (word "sum") (.primitive .int) [⟨0⟩, ⟨1⟩] none, .int 1 default, .int 2 default,
    .call none (word "sum") [⟨0⟩, ⟨1⟩] default, .expr ⟨2⟩, .block [] [⟨0⟩] default,
    .function (word "main") (.primitive .void) [] (some ⟨1⟩) ]

/-- Slots so wide that 32 bits do not hold the bytes of two. -/
def shape : FrameShape := { slotSize := 1073741824 }

def first : Location := ⟨"_tmp0", .frame, -8⟩

def second : Location := ⟨"_tmp1", .frame, -1073741832⟩

/-- The code up to the call. -/
def calling : List Instruction :=
  [ .label "sum", .beginFunc, .endFunc 0, .label "main", .beginFunc, .loadConstant first (.int 1),
    .loadConstant second (.int 2), .pushParam second, .pushParam first,
    .callLabel "sum" (some ⟨"_tmp2", .frame, -2147483656⟩) ]

end WidePair

end DecafTac
