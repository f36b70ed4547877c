import Mathlib.Tactic.Ring
import DecafTac.Proofs.Lower.Operands
import DecafTac.Proofs.Tac.Memory

/-!
Arrays on the machine with memory. The code of a new array asks for room, or says that the size is bad
and halts; the code of an element computes an address, or says that the index is bad and halts. Both are
followed instruction by instruction, with a list of the locations whose words are known.

The room of an array is one slot for its length and one for each element, while an element lies behind a
header. So the elements fit their array exactly when the header is as wide as a slot.
-/
namespace DecafTac

namespace Emitter

variable {e next : Emitter} {loc : Location}

/-- A location that is none of the slots still to be taken. -/
def Held (e : Emitter) (loc : Location) : Prop :=
  loc.segment = .frame → ∀ j : Nat, e.locals ≤ j → loc.position ≠ e.shape.localPosition j

theorem Held.later (held : e.Held loc) (follows : e.Follows next) : next.Held loc := by
  intro framed j taken
  rw [follows.shape]
  exact held framed j (Nat.le_trans follows.locals taken)

/-- A temporary is held once it is taken. -/
theorem held_next (wide : 0 < e.shape.slotSize) (follows : e.Follows next)
    (taken : e.locals < next.locals) : next.Held e.nextLocation := by
  intro _ j later same
  rw [follows.shape] at same
  have := Lower.localPosition_injective wide same
  omega

theorem Held.read_write {m : Store} (held : e.Held loc) (word : Word) :
    (m.write e.nextLocation word).read loc = m.read loc :=
  Store.read_write_apart fun framed => held framed e.locals (Nat.le_refl _)

theorem follows_refl (opened : e.inFunction = true) : e.Follows e := ⟨opened, rfl, Nat.le_refl _⟩

theorem follows_issued (opened : e.inFunction = true) (count : Nat) : e.Follows { e with issued := count } :=
  ⟨opened, rfl, Nat.le_refl _⟩

theorem follows_written {α : Type} (opened : e.inFunction = true) (make : Location → Instruction)
    (result : Location → α) : e.Follows (e.written make result).state :=
  follows_taken opened _ _

theorem loadInt_written (opened : e.inFunction = true) (n : Int) :
    loadInt n e = e.written (.loadConstant · (.int n)) id := by
  simp [loadInt, loadConstant, temp_apply opened, issue, written]

theorem load_written (opened : e.inFunction = true) (addr : Location) (offset : Int) :
    load addr offset e = e.written (.load · addr offset) id := by
  simp [load, temp_apply opened, issue, written]

/-! ## Steps that stay within a function -/

/-- In a function that is open, a step goes on with it. -/
def GoesOn {α : Type} (step : Emit α) : Prop :=
  ∀ e : Emitter, e.inFunction = true → e.Follows (step e).state

namespace GoesOn

variable {α β : Type}

theorem bind {step : Emit α} {rest : α → Emit β} (one : GoesOn step) (two : ∀ a, GoesOn (rest a)) :
    GoesOn (step >>= rest) := by
  intro e opened
  have first := one e opened
  exact first.trans (two _ _ first.opened)

theorem pure (a : α) : GoesOn (Pure.pure a) := fun _ opened => follows_refl opened

theorem get : GoesOn Emission.get := fun _ opened => follows_refl opened

theorem issue (i : Instruction) : GoesOn (Emitter.issue i) := fun _ opened => follows_issued opened _

theorem freshLabel : GoesOn Emitter.freshLabel := fun _ opened => ⟨opened, rfl, Nat.le_refl _⟩

/-- A temporary is taken and an instruction that may write it is issued. -/
theorem produce (make : Location → Instruction) :
    GoesOn (do let dst ← temp; Emitter.issue (make dst); return dst) := by
  refine .bind (fun e opened => ?_) fun dst => .bind (.issue (make dst)) fun _ => .pure dst
  rw [temp_apply opened]
  exact follows_taken opened _ _

theorem loadInt {n : Int} : GoesOn (Emitter.loadInt n) := .produce (.loadConstant · (.int n))

theorem binary {op : TacOp} {left right : Location} : GoesOn (Emitter.binary op left right) :=
  .produce (.binary op · left right)

theorem load {addr : Location} {offset : Int} : GoesOn (Emitter.load addr offset) :=
  .produce (.load · addr offset)

theorem request {routine : Routine} {args : List Location} : GoesOn (Lower.request routine args) :=
  .produce (.callRoutine routine args <| some ·)

theorem stopUnlessZero {test : Location} {message : String} :
    GoesOn (Lower.stopUnlessZero test message) := by
  refine .bind .freshLabel fun _ => .bind (.issue _) fun _ => .bind ?_ fun _ => .issue _
  exact .bind (.produce (.loadConstant · (.string message))) fun _ => .bind (.issue _) fun _ => .issue _

theorem newArray (size : Value) (element : Tag) : GoesOn (Lower.newArray size element) := by
  refine .bind .get fun _ => .bind .loadInt fun _ => .bind .binary fun _ => ?_
  refine .bind .stopUnlessZero fun _ => ?_
  refine .bind .loadInt fun _ => .bind .binary fun _ => .bind .loadInt fun _ => .bind .binary fun _ => ?_
  exact .bind .request fun _ => .bind (.issue _) fun _ => .pure _

theorem elementAddress (array index : Value) : GoesOn (Lower.elementAddress array index) := by
  refine .bind .get fun _ => .bind .load fun _ => ?_
  refine .bind (.bind .binary fun _ => .bind .binary fun _ => .binary) fun _ => ?_
  refine .bind .loadInt fun _ => .bind .binary fun _ => .bind .binary fun _ => ?_
  refine .bind .stopUnlessZero fun _ => ?_
  exact .bind .loadInt fun _ => .bind .binary fun _ => .binary

end GoesOn

end Emitter

namespace Lower

open Platform

/-! ## Following the code of a step -/

/-- Code went on from one emitter and store to another: what was held is as it was before, and some
locations that are held now have known words. -/
structure Since (start : Emitter) (before : Store) (facts : List (Location × Word)) (e : Emitter)
    (m : Store) : Prop where
  follows : start.Follows e
  kept : ∀ loc, start.Held loc → m.read loc = before.read loc
  known : ∀ fact ∈ facts, e.Held fact.1 ∧ m.read fact.1 = some fact.2

section Since

variable {start e next : Emitter} {before m : Store} {facts : List (Location × Word)} {loc : Location}
  {word : Word} {n : Int}

theorem Since.here (opened : e.inFunction = true)
    (known : ∀ fact ∈ facts, e.Held fact.1 ∧ m.read fact.1 = some fact.2) : Since e m facts e m :=
  ⟨Emitter.follows_refl opened, fun _ _ => rfl, known⟩

theorem Since.read (since : Since start before facts e m) (among : (loc, word) ∈ facts) :
    m.read loc = some word :=
  (since.known _ among).2

theorem Since.int (since : Since start before facts e m) (among : (loc, .int n) ∈ facts) :
    m.int? loc = some n :=
  Store.int?_eq_some (since.read among)

theorem Since.only (since : Since start before facts e m) (among : (loc, word) ∈ facts) :
    Since start before [(loc, word)] e m :=
  ⟨since.follows, since.kept, fun _ same => List.mem_singleton.mp same ▸ since.known _ among⟩

theorem Since.trans {mid : Emitter} {between : Store} {more : List (Location × Word)}
    (one : Since start before facts mid between) (two : Since mid between more e m) :
    Since start before more e m :=
  ⟨one.follows.trans two.follows,
    fun loc held => (two.kept loc (held.later one.follows)).trans (one.kept loc held), two.known⟩

/-- Going on without a change of the store. -/
theorem Since.later (since : Since start before facts e m) (follows : e.Follows next) :
    Since start before facts next m := by
  refine ⟨since.follows.trans follows, since.kept, fun fact among => ?_⟩
  exact ⟨(since.known fact among).1.later follows, (since.known fact among).2⟩

/-- Writing a new temporary adds to what is known. -/
theorem Since.write (since : Since start before facts e m) (wide : 0 < start.shape.slotSize)
    (follows : e.Follows next) (taken : e.locals < next.locals) (word : Word) :
    Since start before ((e.nextLocation, word) :: facts) next (m.write e.nextLocation word) := by
  refine ⟨since.follows.trans follows, fun loc held => ?_, fun fact among => ?_⟩
  · rw [(held.later since.follows).read_write, since.kept loc held]
  · rcases List.mem_cons.mp among with rfl | among
    · exact ⟨Emitter.held_next (since.follows.shape ▸ wide) follows taken, Store.read_write_self ..⟩
    · obtain ⟨held, there⟩ := since.known fact among
      exact ⟨held.later follows, (held.read_write word).trans there⟩

end Since

variable {α β : Type} {p : Platform}

/-- The code that a step issues takes a world through to one with `goes`, or to a halt with `ends`. -/
def Leads (p : Platform) (step : Emit α) (e : Emitter) (w : World) (ends : World → Prop)
    (goes : α → Emitter → World → Prop) : Prop :=
  (∃ w', p.Does (step e).code w (.through w') ∧ goes (step e).value (step e).state w') ∨
    ∃ w', p.Does (step e).code w (.halted w') ∧ ends w'

namespace Leads

variable {step : Emit α} {rest : α → Emit β} {e : Emitter} {w : World} {ends : World → Prop}
  {goes : α → Emitter → World → Prop} {onward : β → Emitter → World → Prop}

theorem bind (one : Leads p step e w ends fun a next w' => Leads p (rest a) next w' ends onward) :
    Leads p (step >>= rest) e w ends onward := by
  rcases one with ⟨w₁, does, two⟩ | ⟨w₁, does, ended⟩
  · rcases two with ⟨w₂, more, went⟩ | ⟨w₂, more, ended⟩
    · exact .inl ⟨w₂, does.append more, went⟩
    · exact .inr ⟨w₂, does.append more, ended⟩
  · exact .inr ⟨w₁, does.halted_append, ended⟩

/-- A step that never halts comes through. -/
theorem comes (leads : Leads p step e w (fun _ => False) goes) :
    ∃ w', p.Does (step e).code w (.through w') ∧ goes (step e).value (step e).state w' := by
  rcases leads with through | ⟨_, _, never⟩
  · exact through
  · exact never.elim

theorem pure {a : α} (went : goes a e w) : Leads p (Pure.pure a) e w ends goes :=
  .inl ⟨w, .nothing w, went⟩

theorem get {goes : Emitter → Emitter → World → Prop} (went : goes e e w) :
    Leads p Emission.get e w ends goes :=
  .inl ⟨w, .nothing w, went⟩

variable {start : Emitter} {before : Store} {facts : List (Location × Word)}
  {goes : Location → Emitter → World → Prop} {l r : Location} {v : Word} {n a b x offset : Int}

/-- One instruction that writes a new temporary. -/
theorem produce (since : Since start before facts e w.store) (wide : 0 < start.shape.slotSize)
    {step : Emit Location} (make : Location → Instruction) (issues : step e = e.written make id)
    {w' : World} (does : p.Does [make e.nextLocation] w (.through w'))
    (writes : w'.store = w.store.write e.nextLocation v)
    (went : ∀ next, Since start before ((e.nextLocation, v) :: facts) next w'.store →
      goes e.nextLocation next w') : Leads p step e w ends goes := by
  refine .inl ⟨w', ?_, ?_⟩
  · rw [issues]
    exact does
  · rw [issues]
    refine went _ (writes ▸ since.write wide (Emitter.follows_taken since.follows.opened ..) ?_ v)
    exact Nat.lt_succ_self _

theorem constant (since : Since start before facts e w.store) (wide : 0 < start.shape.slotSize)
    (went : ∀ next m, Since start before ((e.nextLocation, .int n) :: facts) next m →
      goes e.nextLocation next { w with store := m }) :
    Leads p (Emitter.loadInt n) e w ends goes := by
  refine produce since wide _ (Emitter.loadInt_written since.follows.opened n) (.effect rfl) rfl ?_
  intro next since
  simpa using went next _ since

theorem binary (since : Since start before facts e w.store) (wide : 0 < start.shape.slotSize) {op : TacOp}
    (left : (l, .int a) ∈ facts) (right : (r, .int b) ∈ facts) (found : op.eval .exact a b = some n)
    (went : ∀ next m, Since start before ((e.nextLocation, .int n) :: facts) next m →
      goes e.nextLocation next { w with store := m }) :
    Leads p (Emitter.binary op l r) e w ends goes := by
  have opened := since.follows.opened
  have acts : Machine.effect .exact w.store (.binary op e.nextLocation l r) =
      some (w.store.write e.nextLocation (.int n), []) := by
    simp [Machine.effect, since.int left, since.int right, found]
  refine produce since wide (.binary op · l r) ?_ (.effect acts) rfl ?_
  · simp [Emitter.binary, Emitter.temp_apply opened, Emitter.issue, Emitter.written]
  · intro next since
    simpa using went next _ since

theorem load (since : Since start before facts e w.store) (wide : 0 < start.shape.slotSize)
    (addr : (l, .int x) ∈ facts) (has : w.memory.Has p.width (x + offset))
    (went : ∀ next m,
      Since start before ((e.nextLocation, w.memory.words (x + offset)) :: facts) next m →
        goes e.nextLocation next { w with store := m }) :
    Leads p (Emitter.load l offset) e w ends goes := by
  exact produce since wide _ (Emitter.load_written since.follows.opened l offset)
    (.load (since.int addr) has) rfl fun next since => went next _ since

theorem take (since : Since start before facts e w.store) (wide : 0 < start.shape.slotSize)
    (bytes : (l, .int n) ∈ facts)
    (went : ∀ next m, Since start before ((e.nextLocation, .int (p.place w.memory n)) :: facts) next m →
      goes e.nextLocation next
        ⟨m, p.take w.memory n, w.deeds ++ [.took ⟨p.place w.memory n, n⟩]⟩) :
    Leads p (request .alloc [l]) e w ends goes := by
  have opened := since.follows.opened
  refine produce since wide (.callRoutine .alloc [l] <| some ·) ?_ (.take (since.int bytes)) rfl
    fun next since => went next _ since
  simp [request, Emitter.temp_apply opened, Emitter.issue, Emitter.written]

theorem store (since : Since start before facts e w.store) {goes : Unit → Emitter → World → Prop}
    (addr : (l, .int x) ∈ facts) (held : (r, v) ∈ facts) (has : w.memory.Has p.width (x + offset))
    (went : ∀ next, Since start before facts next w.store → goes () next { w with
      memory := p.put w.memory (x + offset) v
      deeds := w.deeds ++ [.stored (x + offset) v] }) :
    Leads p (Emitter.store l r offset) e w ends goes :=
  .inl ⟨_, .store (since.int addr) (since.read held) has,
    went _ (since.later (Emitter.follows_issued since.follows.opened _))⟩

/-- A guard lets a zero through; with anything else the message is all that is done. -/
theorem guard (since : Since start before facts e w.store) {goes : Unit → Emitter → World → Prop}
    {message : String} (test : (l, .int n) ∈ facts)
    (went : n = 0 → ∀ next, Since start before facts next w.store → goes () next w)
    (ended : n ≠ 0 → ∀ m, ends ⟨m, w.memory, w.deeds ++ [.printed (.text message)]⟩) :
    Leads p (stopUnlessZero l message) e w ends goes := by
  have issues : stopUnlessZero l message e =
      ⟨(), { e with nextLabel := e.nextLabel + 1, nextTemp := e.nextTemp + 1, locals := e.locals + 1,
                    issued := e.issued + 5 },
        guarded l e.nextLocation message (Emitter.labelName e.nextLabel)⟩ := by
    simp [stopUnlessZero, stop, Emitter.freshLabel, Emitter.jumpIfZero, Emitter.issue, Emitter.loadString,
      Emitter.loadConstant, Emitter.label, Emitter.temp, Emitter.allocate, since.follows.opened, Emission.get,
      Emission.modify, guarded, Emitter.nextLocation]
  unfold Leads
  rw [issues]
  by_cases zero : n = 0
  · subst zero
    exact .inl ⟨w, .guard_zero (since.int test),
      went rfl _ (since.later ⟨since.follows.opened, rfl, Nat.le_succ _⟩)⟩
  · exact .inr ⟨_, .guard_halts (since.int test) zero, ended zero _⟩

end Leads

/-! ## New arrays and elements -/

/-- A truth value is zero when it is false. -/
theorem truth_eq_zero {b : Bool} : truth b = 0 ↔ b = false := by
  cases b <;> decide

theorem slot_le_room {n slot : Int} (fine : 0 ≤ n) (wide : 0 < slot) : slot ≤ (1 + n) * slot := by
  have := Int.mul_nonneg fine (Int.le_of_lt wide)
  rw [Int.add_mul]
  omega

section Arrays

variable {e : Emitter} {w : World} {n i base : Int}

/-- A new array has room for its length and its elements, and its length in front; with a negative size
nothing is asked for. -/
theorem newArray_leads (opened : e.inFunction = true) (wide : 0 < e.shape.slotSize)
    (width : p.width = e.shape.slotSize) {size : Value} {element : Tag} (held : e.Held size.loc)
    (there : w.store.read size.loc = some (.int n)) :
    Leads p (newArray size element) e w
      (fun w' => n < 0 ∧ w'.memory = w.memory ∧ w'.deeds = w.deeds ++ [.printed (.text badSize)])
      (fun array next w' => 0 ≤ n ∧ array.tag = .array element ∧
        ∃ room : Extent, room = ⟨p.place w.memory ((1 + n) * e.shape.slotSize), (1 + n) * e.shape.slotSize⟩ ∧
          Since e w.store [(array.loc, .int room.base)] next w'.store ∧
          w'.memory = p.put (p.take w.memory room.size) room.base (.int n) ∧
          w'.deeds = w.deeds ++ [.took room, .stored room.base (.int n)]) := by
  have since : Since e w.store [(size.loc, .int n)] e w.store :=
    .here opened (by simp [held, there])
  unfold newArray
  refine .bind (.get (.bind (.constant since wide fun _ _ since => ?_)))
  refine .bind (.binary (a := n) (b := 0) since wide (by simp) (by simp) rfl fun _ _ since => ?_)
  refine .bind (.guard (n := truth (n < 0)) since (by simp) (fun fine _ since => ?_) fun bad _ => ?_)
  rotate_left
  · simp only [truth_eq_zero, ne_eq, Bool.not_eq_false, decide_eq_true_eq] at bad
    exact ⟨bad, rfl, rfl⟩
  simp only [truth_eq_zero, decide_eq_false_iff_not, Int.not_lt] at fine
  refine .bind (.constant since wide fun _ _ since => ?_)
  refine .bind (.binary (a := 1) (b := n) since wide (by simp) (by simp) rfl fun _ _ since => ?_)
  refine .bind (.constant since wide fun _ _ since => ?_)
  refine .bind (.binary (a := 1 + n) (b := e.shape.slotSize) since wide (by simp) (by simp) rfl
    fun _ _ since => ?_)
  refine .bind (.take (n := (1 + n) * e.shape.slotSize) since wide (by simp) fun _ _ since => ?_)
  have room := slot_le_room fine wide
  refine .bind (.store (x := p.place w.memory ((1 + n) * e.shape.slotSize)) (v := .int n) since
    (by simp) (by simp) ?_ fun _ since => .pure ?_)
  · exact ⟨_, List.mem_cons_self, by simp, by simp [width, room]⟩
  · refine ⟨fine, rfl, _, rfl, since.only (by simp), ?_, ?_⟩
    · simp
    · simp

/-- The address of an element is computed when the index lies in the array; with any other nothing is
done. -/
theorem elementAddress_leads (opened : e.inFunction = true) (wide : 0 < e.shape.slotSize)
    {array index : Value} (heldArray : e.Held array.loc) (heldIndex : e.Held index.loc)
    (arrayThere : w.store.read array.loc = some (.int base))
    (indexThere : w.store.read index.loc = some (.int i)) (has : w.memory.Has p.width base)
    (length : w.memory.words base = .int n) :
    Leads p (elementAddress array index) e w
      (fun w' => (i < 0 ∨ n ≤ i) ∧ w'.memory = w.memory ∧
        w'.deeds = w.deeds ++ [.printed (.text badIndex)])
      (fun addr next w' => 0 ≤ i ∧ i < n ∧ ∃ m, w' = { w with store := m } ∧
        Since e w.store [(addr, .int (base + i * e.shape.slotSize))] next m) := by
  have since : Since e w.store [(array.loc, .int base), (index.loc, .int i)] e w.store :=
    .here opened (by simp [heldArray, heldIndex, arrayThere, indexThere])
  unfold elementAddress either
  refine .bind (.get (.bind (.load (x := base) since wide (by simp) (by simpa) fun _ _ since => ?_)))
  rw [Int.add_zero, length] at since
  refine .bind (.bind (.binary (a := n) (b := i) since wide (by simp) (by simp) rfl fun _ _ since => ?_))
  refine .bind (.binary (a := n) (b := i) since wide (by simp) (by simp) rfl fun _ _ since => ?_)
  refine .binary (a := truth (n < i)) (b := truth (n = i)) since wide (by simp) (by simp) rfl
    fun _ _ since => ?_
  refine .bind (.constant since wide fun _ _ since => ?_)
  refine .bind (.binary (a := i) (b := 0) since wide (by simp) (by simp) rfl fun _ _ since => ?_)
  refine .bind (.binary (a := truth (truth (n < i) ≠ 0 ∨ truth (n = i) ≠ 0)) (b := truth (i < 0)) since wide
    (by simp) (by simp) rfl fun _ _ since => ?_)
  have inside : truth (truth (truth (n < i) ≠ 0 ∨ truth (n = i) ≠ 0) ≠ 0 ∨ truth (i < 0) ≠ 0) = 0 ↔
      0 ≤ i ∧ i < n := by
    simp [truth_eq_zero]
    omega
  refine .bind (.guard since (.head _) (fun fine _ since => ?_) fun bad _ => ?_)
  rotate_left
  · have outside := mt inside.mpr bad
    exact ⟨by omega, rfl, rfl⟩
  obtain ⟨low, high⟩ := inside.mp fine
  refine .bind (.constant since wide fun _ _ since => ?_)
  refine .bind (.binary (a := i) (b := e.shape.slotSize) since wide (by simp) (by simp) rfl
    fun _ _ since => ?_)
  refine .binary (a := base) (b := i * e.shape.slotSize) since wide (by simp) (by simp) rfl
    fun _ _ since => ?_
  exact ⟨low, high, _, rfl, since.only (by simp)⟩

end Arrays

/-- The place of an element is the word behind the header from its address on. -/
theorem elementPlace_apply {s : LowerState} (opened : s.emitter.inFunction = true) (array index : Value) :
    elementPlace array index s =
      ⟨.ok (.memory (elementAddress array index s.emitter).value s.emitter.shape.headerSize
          (array.tag.element?.getD .error)),
        { s with emitter := (elementAddress array index s.emitter).state },
        (elementAddress array index s.emitter).code⟩ := by
  have same := (Emitter.GoesOn.elementAddress array index _ opened).shape
  rw [elementPlace, bind_ok (emit_apply _ _)]
  simp [bind_apply, shape, same]

/-! ## The room of an array -/

end Lower

namespace FrameShape

/-- Where the word of an element begins. -/
def elementAt (shape : FrameShape) (base i : Int) : Int := base + i * shape.slotSize + shape.headerSize

/-- The word of an element lies in the room of its array and shares no byte with the length in front. -/
def Fits (shape : FrameShape) (room : Extent) (i : Int) : Prop :=
  room.Covers shape.slotSize (shape.elementAt room.base i) ∧
    Extent.Apart ⟨room.base, shape.slotSize⟩ ⟨shape.elementAt room.base i, shape.slotSize⟩

variable {shape : FrameShape} {room : Extent} {n i : Int}

theorem covers_elementAt (low : 0 ≤ i) (wide : 0 < shape.slotSize) (headed : 0 < shape.headerSize)
    (size : room.size = (1 + n) * shape.slotSize) :
    room.Covers shape.slotSize (shape.elementAt room.base i) ↔
      shape.headerSize ≤ shape.slotSize * (n - i) := by
  have behind := Int.mul_nonneg low (Int.le_of_lt wide)
  have split : shape.slotSize * (n - i) = n * shape.slotSize - i * shape.slotSize := by ring
  rw [Extent.Covers, elementAt, size, split, Int.add_mul]
  omega

theorem apart_elementAt (low : 0 ≤ i) (wide : 0 < shape.slotSize) (headed : 0 < shape.headerSize) :
    Extent.Apart ⟨room.base, shape.slotSize⟩ ⟨shape.elementAt room.base i, shape.slotSize⟩ ↔
      shape.slotSize ≤ shape.headerSize + shape.slotSize * i := by
  have behind := Int.mul_nonneg low (Int.le_of_lt wide)
  rw [Extent.Apart, elementAt, Int.mul_comm shape.slotSize i]
  simp only
  omega

/-- The last element tells a header that is too wide, the first one that is too narrow. -/
theorem all_fit_iff (some : 0 < n) (wide : 0 < shape.slotSize) (headed : 0 < shape.headerSize)
    (size : room.size = (1 + n) * shape.slotSize) :
    (∀ k, 0 ≤ k → k < n → shape.Fits room k) ↔ shape.headerSize = shape.slotSize := by
  constructor
  · intro fit
    have last := (covers_elementAt (by omega) wide headed size).mp (fit (n - 1) (by omega) (by omega)).1
    have first := (apart_elementAt (Int.le_refl 0) wide headed).mp (fit 0 (by omega) some).2
    rw [show n - (n - 1) = 1 by omega] at last
    omega
  · intro same k low high
    refine ⟨(covers_elementAt low wide headed size).mpr ?_, (apart_elementAt low wide headed).mpr ?_⟩
    · have := Int.mul_le_mul_of_nonneg_left (show 1 ≤ n - k by omega) (Int.le_of_lt wide)
      omega
    · have := Int.mul_nonneg (Int.le_of_lt wide) low
      omega

end FrameShape

namespace Lower

open Platform

section Room

variable {p : Platform}

variable {s : LowerState} {size index : Value} {element : Tag} {w : World} {n i : Int}

/-- Makes an array and finds one of its elements. -/
def newElement (size index : Value) (element : Tag) : Lower Place := do
  elementPlace (← emit (newArray size element)) index

/-- The code of a new array and one of its elements asks for room and comes to an address in it. -/
theorem newElement_does (opened : s.emitter.inFunction = true) (wide : 0 < s.emitter.shape.slotSize)
    (width : p.width = s.emitter.shape.slotSize) (heldSize : s.emitter.Held size.loc)
    (heldIndex : s.emitter.Held index.loc) (sized : w.store.read size.loc = some (.int n))
    (indexed : w.store.read index.loc = some (.int i)) (low : 0 ≤ i) (high : i < n) :
    ∃ (room : Extent) (addr : Location) (tag : Tag) (next : Emitter) (code : List Instruction)
        (final : World),
      newElement size index element s =
        ⟨.ok (.memory addr s.emitter.shape.headerSize tag), { s with emitter := next }, code⟩ ∧
      p.Does code w (.through final) ∧ room.size = (1 + n) * s.emitter.shape.slotSize ∧
      final.memory.extents = room :: w.memory.extents ∧
      final.deeds = w.deeds ++ [.took room, .stored room.base (.int n)] ∧
      final.store.read addr = some (.int (room.base + i * s.emitter.shape.slotSize)) := by
  have follows := Emitter.GoesOn.newArray size element _ opened
  rw [newElement, bind_ok (emit_apply _ _), elementPlace_apply follows.opened]
  rcases newArray_leads opened wide width heldSize sized with
    ⟨w₁, does, fine, -, room, rfl, since, memory, deeds⟩ | ⟨_, _, negative, -⟩
  · have has : w₁.memory.Has p.width (p.place w.memory ((1 + n) * s.emitter.shape.slotSize)) := by
      rw [memory, width]
      exact ⟨_, List.mem_cons_self, Int.le_refl _, Int.add_le_add_left (slot_le_room fine wide) _⟩
    have length : w₁.memory.words (p.place w.memory ((1 + n) * s.emitter.shape.slotSize)) = .int n := by
      rw [memory]
      exact words_put_self
    have held := (since.known _ (.head _)).1
    rcases elementAddress_leads follows.opened (follows.shape ▸ wide) held (heldIndex.later follows)
      (since.read (.head _)) (since.kept _ heldIndex ▸ indexed) has length with
      ⟨_, more, -, -, m, rfl, later⟩ | ⟨_, _, outside, -⟩
    · refine ⟨⟨p.place w.memory ((1 + n) * s.emitter.shape.slotSize), (1 + n) * s.emitter.shape.slotSize⟩,
        _, _, _, _, _, by rw [follows.shape], does.append more, rfl, ?_, deeds, ?_⟩
      · rw [memory]
        rfl
      · rw [later.read (.head _), follows.shape]
    · omega
  · omega

/-- The word of an element lies in the room that was asked for exactly when the header is no wider than
what is left for it and the elements behind, and it is clear of the length exactly when the header and the
elements before it are no narrower than a slot. So all elements fit exactly when the header is as wide as a
slot. -/
theorem array_room (opened : s.emitter.inFunction = true) (wide : 0 < s.emitter.shape.slotSize)
    (headed : 0 < s.emitter.shape.headerSize) (width : p.width = s.emitter.shape.slotSize)
    (heldSize : s.emitter.Held size.loc) (heldIndex : s.emitter.Held index.loc)
    (sized : w.store.read size.loc = some (.int n)) (indexed : w.store.read index.loc = some (.int i))
    (low : 0 ≤ i) (high : i < n) :
    ∃ (room : Extent) (addr : Location) (tag : Tag) (next : Emitter) (code : List Instruction)
        (final : World) (x : Int),
      newElement size index element s =
        ⟨.ok (.memory addr s.emitter.shape.headerSize tag), { s with emitter := next }, code⟩ ∧
      p.Does code w (.through final) ∧ final.memory.extents = room :: w.memory.extents ∧
      final.deeds = w.deeds ++ [.took room, .stored room.base (.int n)] ∧
      final.store.read addr = some (.int x) ∧
      x + s.emitter.shape.headerSize = s.emitter.shape.elementAt room.base i ∧
      (room.Covers s.emitter.shape.slotSize (x + s.emitter.shape.headerSize) ↔
        s.emitter.shape.headerSize ≤ s.emitter.shape.slotSize * (n - i)) ∧
      (Extent.Apart ⟨room.base, s.emitter.shape.slotSize⟩
          ⟨x + s.emitter.shape.headerSize, s.emitter.shape.slotSize⟩ ↔
        s.emitter.shape.slotSize ≤ s.emitter.shape.headerSize + s.emitter.shape.slotSize * i) ∧
      ((∀ k, 0 ≤ k → k < n → s.emitter.shape.Fits room k) ↔
        s.emitter.shape.headerSize = s.emitter.shape.slotSize) := by
  obtain ⟨room, addr, tag, next, code, final, lowered, does, size, extents, deeds, there⟩ :=
    newElement_does opened wide width heldSize heldIndex sized indexed low high
  exact ⟨room, addr, tag, next, code, final, _, lowered, does, extents, deeds, there, rfl,
    FrameShape.covers_elementAt low wide headed size, FrameShape.apart_elementAt low wide headed,
    FrameShape.all_fit_iff (by omega) wide headed size⟩

end Room

/-- Lowering in a function with two variables, `n` and `i`, where the header has its own width. -/
def twoNamed (headerSize : Int) : LowerState :=
  { emitter := { shape := { headerSize }, locals := 2, inFunction := true } }

/-- Where the two variables are. -/
def slotN : Value := ⟨⟨"n", .frame, -8⟩, .int⟩
def slotI : Value := ⟨⟨"i", .frame, -12⟩, .int⟩

/-- Nothing was done yet, and the two variables hold numbers. -/
def worldWith (n i : Int) : World :=
  ⟨(Store.write (fun _ _ => none) slotN.loc (.int n)).write slotI.loc (.int i), ⟨[], fun _ => .int 0⟩, []⟩

theorem twoNamed_held (headerSize : Int) :
    (twoNamed headerSize).emitter.Held slotN.loc ∧ (twoNamed headerSize).emitter.Held slotI.loc := by
  constructor <;>
  · intro _ j later
    simp only [twoNamed, slotN, slotI, FrameShape.localPosition] at later ⊢
    omega

/-- With a header of half a slot, the first of three elements lies in the room but on the length. -/
theorem array_room_narrow_header :
    ∃ (room : Extent) (addr : Location) (tag : Tag) (next : Emitter) (code : List Instruction)
        (final : World) (x : Int),
      newElement slotN slotI .int (twoNamed 2) =
        ⟨.ok (.memory addr 2 tag), { twoNamed 2 with emitter := next }, code⟩ ∧
      (stacking 4).Does code (worldWith 3 0) (.through final) ∧
      final.store.read addr = some (.int x) ∧ room.Covers 4 (x + 2) ∧
      ¬ Extent.Apart ⟨room.base, 4⟩ ⟨x + 2, 4⟩ := by
  obtain ⟨heldN, heldI⟩ := twoNamed_held 2
  obtain ⟨room, addr, tag, next, code, final, x, lowered, does, -, -, there, -, inside, apart, -⟩ :=
    array_room (p := stacking 4) (s := twoNamed 2) (w := worldWith 3 0) (n := 3) (i := 0) rfl
      (by decide) (by decide) rfl heldN heldI rfl rfl (by decide) (by decide)
  refine ⟨room, addr, tag, next, code, final, x, lowered, does, there, inside.mpr ?_, mt apart.mp ?_⟩
  · decide
  · decide

/-- With a header of two slots, the only element of an array ends behind the room of the array. -/
theorem only_element_overruns :
    ∃ (room : Extent) (addr : Location) (tag : Tag) (next : Emitter) (code : List Instruction)
        (final : World) (x : Int),
      newElement slotN slotI .int (twoNamed 8) =
        ⟨.ok (.memory addr 8 tag), { twoNamed 8 with emitter := next }, code⟩ ∧
      (stacking 4).Does code (worldWith 1 0) (.through final) ∧
      final.deeds = [.took room, .stored room.base (.int 1)] ∧ room.size = 8 ∧
      final.store.read addr = some (.int x) ∧ x = room.base ∧ ¬ room.Covers 4 (x + 8) := by
  obtain ⟨heldN, heldI⟩ := twoNamed_held 8
  obtain ⟨room, addr, tag, next, code, final, lowered, does, size, -, deeds, there⟩ :=
    newElement_does (p := stacking 4) (s := twoNamed 8) (w := worldWith 1 0) (n := 1) (i := 0) rfl
      (by decide) rfl heldN heldI rfl rfl (by decide) (by decide)
  refine ⟨room, addr, tag, next, code, final, room.base, lowered, does, deeds, size, ?_, rfl, ?_⟩
  · simpa using there
  · rw [Extent.Covers, size]
    simp [twoNamed]

end Lower

end DecafTac
