import DecafTac.Proofs.Lower.Arrays

/-!
The law of arrays. A variable keeps an array when it has the address of a room with the length in front.
The code that gives it a new array makes it keep one, or says that the size is bad and halts; code for the
length and for an element then yields what is in the room; and code that assigns an element changes this
element and nothing else, or says that the index is bad and halts.

Sizes, indices and values are given by operands: expressions whose code supplies a word and writes
nothing but new temporaries.
-/
namespace DecafTac.Lower

open Platform

variable {p : Platform} {layouts : Layouts}

/-! ## Operands -/

/-- Memory and what was held are as they were. -/
structure Unchanged (e : Emitter) (w w' : World) : Prop where
  memory : w'.memory = w.memory
  kept : ∀ loc, e.Held loc → w'.store.read loc = w.store.read loc

theorem Unchanged.refl (e : Emitter) (w : World) : Unchanged e w w := ⟨rfl, fun _ _ => rfl⟩

theorem Unchanged.since {e next after : Emitter} {w w' : World} {m : Store}
    {facts : List (Location × Word)} (unchanged : Unchanged e w w') (follows : e.Follows next)
    (since : Since next w'.store facts after m) : Unchanged e w { w' with store := m } := by
  refine ⟨unchanged.memory, fun loc held => ?_⟩
  exact (since.kept loc (held.later follows)).trans (unchanged.kept loc held)

/-- From here on in the function, as long as memory and the variables stay as they are, the code of an
expression supplies a word and does nothing else. -/
def Supplies (p : Platform) (layouts : Layouts) (s : LowerState) (w : World) (e : Expr) (word : Word) :
    Prop :=
  ∀ next, s.emitter.Follows next → ∃ v after code,
    value layouts e { s with emitter := next } = ⟨.ok v, { s with emitter := after }, code⟩ ∧
    next.Follows after ∧
    ∀ w', Unchanged s.emitter w w' → ∃ m, p.Does code w' (.through { w' with store := m }) ∧
      Since next w'.store [(v.loc, word)] after m

section Operands

variable {s : LowerState} {w : World} {word : Word} {site : ExprSite} {x : Ident} {v : Value}

theorem value_name (found : s.valueOf? x.name = some v) :
    value layouts (.name site x) s = ⟨.ok v, s, []⟩ := by
  rw [value, place, bind_ok (namePlace_apply found)]
  rfl

/-- A variable supplies what it holds. -/
theorem supplies_name (found : s.valueOf? x.name = some v) (held : s.emitter.Held v.loc)
    (there : w.store.read v.loc = some word) : Supplies p layouts s w (.name site x) word := by
  intro next follows
  refine ⟨v, next, [], value_name found, Emitter.follows_refl follows.opened, fun w' unchanged => ?_⟩
  refine ⟨w'.store, .nothing w', .here follows.opened ?_⟩
  simp [held.later follows, unchanged.kept _ held, there]

/-- A literal supplies its number. -/
theorem supplies_int (wide : 0 < s.emitter.shape.slotSize) (n : Int) :
    Supplies p layouts s w (.int site n) (.int n) := by
  intro next follows
  refine ⟨⟨(Emitter.loadInt n next).value, .int⟩, (Emitter.loadInt n next).state,
    (Emitter.loadInt n next).code, value_computed ?_, ?_, fun w' _ => ?_⟩
  · rw [place, bind_ok (emit_apply _ _)]
    simp
  · rw [Emitter.loadInt_written follows.opened]
    exact Emitter.follows_written follows.opened _ _
  · have since : Since next w'.store [] next w'.store := .here follows.opened (by simp)
    have leads : Leads p (Emitter.loadInt n) next w' (fun _ => False) fun loc after w'' =>
        ∃ m, w'' = { w' with store := m } ∧ Since next w'.store [(loc, .int n)] after m :=
      .constant since (follows.shape ▸ wide) fun _ m since => ⟨m, rfl, since⟩
    obtain ⟨_, does, m, rfl, since⟩ := leads.comes
    exact ⟨m, does, since⟩

end Operands

/-! ## Arrays in memory -/

/-- A variable keeps an array: its room is there, apart from all others, with the length in front. -/
structure ArrayAt (shape : FrameShape) (w : World) (slot : Location) (base n : Int) : Prop where
  there : w.store.read slot = some (.int base)
  sized : 0 ≤ n
  room : ⟨base, (1 + n) * shape.slotSize⟩ ∈ w.memory.extents
  length : w.memory.words base = .int n
  separate : w.memory.Separate

namespace ArrayAt

variable {shape : FrameShape} {w w' : World} {slot : Location} {base n i : Int}

theorem unchanged (array : ArrayAt shape w slot base n) {e : Emitter} (held : e.Held slot)
    (same : Unchanged e w w') : ArrayAt shape w' slot base n where
  there := (same.kept slot held).trans array.there
  sized := array.sized
  room := same.memory ▸ array.room
  length := same.memory ▸ array.length
  separate := same.memory ▸ array.separate

theorem has_length (array : ArrayAt shape w slot base n) (wide : 0 < shape.slotSize) :
    w.memory.Has shape.slotSize base :=
  ⟨_, array.room, Int.le_refl _, Int.add_le_add_left (slot_le_room array.sized wide) _⟩

theorem has_element (array : ArrayAt shape w slot base n)
    (fits : shape.Fits ⟨base, (1 + n) * shape.slotSize⟩ i) :
    w.memory.Has shape.slotSize (shape.elementAt base i) :=
  ⟨_, array.room, fits.1⟩

end ArrayAt

/-- With a header as wide as a slot every element fits. -/
theorem fits_of_even {shape : FrameShape} (wide : 0 < shape.slotSize)
    (even : shape.headerSize = shape.slotSize) (base : Int) {n i : Int} (low : 0 ≤ i) (high : i < n) :
    shape.Fits ⟨base, (1 + n) * shape.slotSize⟩ i := by
  have headed : 0 < shape.headerSize := even ▸ wide
  have some : 0 < n := by omega
  exact (FrameShape.all_fit_iff some wide headed rfl).mpr even i low high

/-- Words of different elements do not overlap. -/
theorem elementAt_apart {shape : FrameShape} (wide : 0 < shape.slotSize) (base : Int) {i j : Int}
    (different : j ≠ i) :
    shape.elementAt base j + shape.slotSize ≤ shape.elementAt base i ∨
      shape.elementAt base i + shape.slotSize ≤ shape.elementAt base j := by
  unfold FrameShape.elementAt
  rcases Int.lt_or_gt_of_ne different with before | after
  · have := Int.mul_le_mul_of_nonneg_right (show j + 1 ≤ i by omega) (Int.le_of_lt wide)
    rw [Int.add_mul] at this
    exact .inl (by omega)
  · have := Int.mul_le_mul_of_nonneg_right (show i + 1 ≤ j by omega) (Int.le_of_lt wide)
    rw [Int.add_mul] at this
    exact .inr (by omega)

/-- In an open function, where headers are as wide as slots, a name stands for a variable of an array type
with a slot of its own. -/
structure ArrayVariable (p : Platform) (s : LowerState) (a : Ident) (slot : Location) (tag : Tag) :
    Prop where
  opened : s.emitter.inFunction = true
  wide : 0 < s.emitter.shape.slotSize
  even : s.emitter.shape.headerSize = s.emitter.shape.slotSize
  width : p.width = s.emitter.shape.slotSize
  bound : s.valueOf? a.name = some ⟨slot, .array tag⟩
  held : s.emitter.Held slot

theorem ArrayVariable.later {s : LowerState} {a : Ident} {slot : Location} {tag : Tag}
    (known : ArrayVariable p s a slot tag) {next : Emitter} (follows : s.emitter.Follows next) :
    ArrayVariable p { s with emitter := next } a slot tag where
  opened := follows.opened
  wide := follows.shape ▸ known.wide
  even := follows.shape ▸ known.even
  width := follows.shape ▸ known.width
  bound := known.bound
  held := known.held.later follows

/-! ## Elements and length -/

section Use

variable {s : LowerState} {w : World} {a : Ident} {slot : Location} {tag : Tag} {base n i : Int}
  {site siteName : ExprSite} {index : Expr}

theorem element_place (bound : s.valueOf? a.name = some ⟨slot, tag⟩) {v : Value} {after : Emitter}
    {code : List Instruction}
    (lowered : value layouts index s = ⟨.ok v, { s with emitter := after }, code⟩)
    (opened : after.inFunction = true) :
    place layouts (.element site (.name siteName a) index) s =
      ⟨.ok (.memory (elementAddress ⟨slot, tag⟩ v after).value after.shape.headerSize
          (tag.element?.getD .error)),
        { s with emitter := (elementAddress ⟨slot, tag⟩ v after).state },
        code ++ (elementAddress ⟨slot, tag⟩ v after).code⟩ := by
  rw [place, ← value, ← value, bind_ok (value_name bound), bind_ok lowered, elementPlace_apply opened]
  simp

/-- The code of an element comes to its address when the index lies in the array, and halts with a message
when it does not. -/
theorem element_leads (known : ArrayVariable p s a slot tag) (array : ArrayAt s.emitter.shape w slot base n)
    (indexed : Supplies p layouts s w index (.int i)) {next : Emitter}
    (follows : s.emitter.Follows next) (site siteName : ExprSite) :
    ∃ addr kind after code,
      place layouts (.element site (.name siteName a) index) { s with emitter := next } =
        ⟨.ok (.memory addr s.emitter.shape.headerSize kind), { s with emitter := after }, code⟩ ∧
      next.Follows after ∧
      ∀ w', Unchanged s.emitter w w' →
        (0 ≤ i ∧ i < n ∧ ∃ m, p.Does code w' (.through { w' with store := m }) ∧
          Since next w'.store [(addr, .int (base + i * s.emitter.shape.slotSize))] after m) ∨
        ((i < 0 ∨ n ≤ i) ∧ ∃ final, p.Does code w' (.halted final) ∧ final.memory = w'.memory ∧
          final.deeds = w'.deeds ++ [.printed (.text badIndex)]) := by
  obtain ⟨v, after, code, lowered, later, supplies⟩ := indexed next follows
  have onward := Emitter.GoesOn.elementAddress ⟨slot, .array tag⟩ v _ later.opened
  have shape := (follows.trans later).shape
  have placed := @element_place layouts { s with emitter := next } a slot (.array tag) site siteName index
    known.bound v after code lowered later.opened
  rw [shape] at placed
  refine ⟨_, _, _, _, placed, later.trans onward, fun w' unchanged => ?_⟩
  obtain ⟨m, does, since⟩ := supplies w' unchanged
  have array := array.unchanged known.held (unchanged.since follows since)
  have leads : Leads p (elementAddress ⟨slot, .array tag⟩ v) after { w' with store := m } _ _ :=
    elementAddress_leads later.opened (shape ▸ known.wide) (known.held.later (follows.trans later))
      (since.known _ (.head _)).1 array.there (since.read (.head _))
      (known.width ▸ array.has_length known.wide) array.length
  rcases leads with ⟨_, more, low, high, m₂, rfl, found⟩ | ⟨final, more, outside, memory, deeds⟩
  · exact .inl ⟨low, high, m₂, does.append more, shape ▸ since.trans found⟩
  · exact .inr ⟨outside, final, does.append more, memory, deeds⟩

theorem value_memory {e : Expr} {addr : Location} {offset : Int} {kind : Tag} {after : Emitter}
    {code : List Instruction}
    (run : place layouts e s = ⟨.ok (.memory addr offset kind), { s with emitter := after }, code⟩) :
    value layouts e s = ⟨.ok ⟨(Emitter.load addr offset after).value, kind⟩,
      { s with emitter := (Emitter.load addr offset after).state },
      code ++ (Emitter.load addr offset after).code⟩ := by
  rw [value, bind_ok run, read, bind_ok (emit_apply _ _)]
  simp

/-- An element that lies in its array supplies its word. -/
theorem supplies_element (known : ArrayVariable p s a slot tag)
    (array : ArrayAt s.emitter.shape w slot base n) (indexed : Supplies p layouts s w index (.int i))
    (low : 0 ≤ i) (high : i < n) :
    Supplies p layouts s w (.element site (.name siteName a) index)
      (w.memory.words (s.emitter.shape.elementAt base i)) := by
  intro next follows
  obtain ⟨addr, kind, after, code, placed, later, runs⟩ :=
    element_leads known array indexed follows site siteName
  refine ⟨_, _, _, value_memory placed, ?_, fun w' unchanged => ?_⟩
  · rw [Emitter.load_written later.opened]
    exact later.trans (Emitter.follows_written later.opened _ _)
  · rcases runs w' unchanged with ⟨-, -, m, does, since⟩ | ⟨outside, -⟩
    · have has : w'.memory.Has p.width
          (base + i * s.emitter.shape.slotSize + s.emitter.shape.headerSize) := by
        rw [unchanged.memory, known.width]
        exact array.has_element (fits_of_even known.wide known.even base low high)
      have leads : Leads p (Emitter.load addr s.emitter.shape.headerSize) after { w' with store := m }
          (fun _ => False) fun loc last w'' => ∃ m', w'' = { w' with store := m' } ∧
            Since next w'.store [(loc, w'.memory.words (s.emitter.shape.elementAt base i))] last m' :=
        .load since (follows.shape ▸ known.wide) (.head _) has fun _ m' since =>
          ⟨m', rfl, since.only (.head _)⟩
      obtain ⟨_, more, m', rfl, since⟩ := leads.comes
      exact ⟨m', does.append more, unchanged.memory ▸ since⟩
    · omega

theorem length_place (bound : s.valueOf? a.name = some ⟨slot, .array tag⟩) (span : Span) :
    place layouts (.send site (.name siteName a) ⟨"length", span⟩ []) s =
      ⟨.ok (.computed ⟨(Emitter.load slot 0 s.emitter).value, .int⟩),
        { s with emitter := (Emitter.load slot 0 s.emitter).state },
        (Emitter.load slot 0 s.emitter).code⟩ := by
  have asked : callOn layouts (value layouts (.name siteName a)) "length" true (values layouts []) s =
      ⟨.ok (some ⟨(Emitter.load slot 0 s.emitter).value, .int⟩),
        { s with emitter := (Emitter.load slot 0 s.emitter).state },
        (Emitter.load slot 0 s.emitter).code⟩ := by
    rw [callOn, bind_ok (value_name bound)]
    simp [Tag.isArray, bind_apply, emit_apply]
  have given : needed "length" (callOn layouts (value layouts (.name siteName a)) "length" true
      (values layouts [])) s =
      ⟨.ok ⟨(Emitter.load slot 0 s.emitter).value, .int⟩,
        { s with emitter := (Emitter.load slot 0 s.emitter).state },
        (Emitter.load slot 0 s.emitter).code⟩ := by
    rw [needed, bind_ok asked]
    simp [ofOption]
  rw [place, ← value, List.isEmpty_nil, bind_ok given]
  simp

/-- An array supplies its length. -/
theorem supplies_length (known : ArrayVariable p s a slot tag)
    (array : ArrayAt s.emitter.shape w slot base n) (span : Span) :
    Supplies p layouts s w (.send site (.name siteName a) ⟨"length", span⟩ []) (.int n) := by
  intro next follows
  refine ⟨_, _, _, value_computed (@length_place layouts { s with emitter := next } a slot tag site siteName
    known.bound span), ?_, fun w' unchanged => ?_⟩
  · rw [Emitter.load_written follows.opened]
    exact Emitter.follows_written follows.opened _ _
  · have array := array.unchanged known.held unchanged
    have since : Since next w'.store [(slot, .int base)] next w'.store :=
      .here follows.opened (by simp [known.held.later follows, array.there])
    have leads : Leads p (Emitter.load slot 0) next w' (fun _ => False) fun loc after w'' =>
        ∃ m, w'' = { w' with store := m } ∧ Since next w'.store [(loc, .int n)] after m := by
      refine .load since (follows.shape ▸ known.wide) (.head _) ?_ fun _ m since => ⟨m, rfl, ?_⟩
      · rw [Int.add_zero, known.width]
        exact array.has_length known.wide
      · rw [Int.add_zero, array.length] at since
        exact since.only (.head _)
    obtain ⟨_, does, m, rfl, since⟩ := leads.comes
    exact ⟨m, does, since⟩

/-! ## Assignments -/

theorem effect_assign {target source : Expr} {dst : Place} {v : Value} {e₁ e₂ e₃ : Emitter}
    {c₁ c₂ c₃ : List Instruction}
    (targeted : place layouts target s = ⟨.ok dst, { s with emitter := e₁ }, c₁⟩)
    (valued : value layouts source { s with emitter := e₁ } = ⟨.ok v, { s with emitter := e₂ }, c₂⟩)
    (written : write dst v { s with emitter := e₂ } = ⟨.ok (), { s with emitter := e₃ }, c₃⟩) :
    effect layouts (.assign site target source) s =
      ⟨.ok (), { s with emitter := e₃ }, c₁ ++ (c₂ ++ c₃)⟩ := by
  have run : place layouts (.assign site target source) s =
      ⟨.ok (.computed v), { s with emitter := e₃ }, c₁ ++ (c₂ ++ c₃)⟩ := by
    rw [place, ← value, bind_ok targeted, bind_ok valued, bind_ok written]
    simp
  show (value layouts (.assign site target source) >>= fun _ => pure ()) s = _
  rw [bind_ok (value_computed run)]
  simp

/-- Assigning an element stores a word in the room, or halts with a message. -/
theorem assign_element_leads (known : ArrayVariable p s a slot tag)
    (array : ArrayAt s.emitter.shape w slot base n) (indexed : Supplies p layouts s w index (.int i))
    {source : Expr} {word : Word} (supplied : Supplies p layouts s w source word)
    (site siteElement siteName : ExprSite) :
    ∃ next piece,
      effect layouts (.assign site (.element siteElement (.name siteName a) index) source) s =
        ⟨.ok (), { s with emitter := next }, piece⟩ ∧ s.emitter.Follows next ∧
      ((0 ≤ i ∧ i < n ∧ ∃ m, p.Does piece w (.through ⟨m,
          p.put w.memory (s.emitter.shape.elementAt base i) word,
          w.deeds ++ [.stored (s.emitter.shape.elementAt base i) word]⟩) ∧
          ∀ loc, s.emitter.Held loc → m.read loc = w.store.read loc) ∨
        ((i < 0 ∨ n ≤ i) ∧ ∃ final, p.Does piece w (.halted final) ∧ final.memory = w.memory ∧
          final.deeds = w.deeds ++ [.printed (.text badIndex)])) := by
  have here := Emitter.follows_refl known.opened
  obtain ⟨addr, kind, e₁, c₁, placed, follows, runs⟩ :=
    element_leads known array indexed here siteElement siteName
  obtain ⟨v, e₂, c₂, valued, later, supplies⟩ := supplied e₁ follows
  have written : write (.memory addr s.emitter.shape.headerSize kind) v { s with emitter := e₂ } =
      ⟨.ok (), { s with emitter := { e₂ with issued := e₂.issued + 1 } },
        [.store addr v.loc s.emitter.shape.headerSize]⟩ := rfl
  refine ⟨_, _, effect_assign placed valued written,
    (follows.trans later).trans (Emitter.follows_issued later.opened _), ?_⟩
  rcases runs w (.refl _ _) with ⟨low, high, m₁, does₁, since₁⟩ | ⟨outside, final, does, told⟩
  · refine .inl ⟨low, high, ?_⟩
    have unchanged := (Unchanged.refl s.emitter w).since here since₁
    obtain ⟨m₂, does₂, since₂⟩ := supplies _ unchanged
    have addrThere : m₂.read addr = some (.int (base + i * s.emitter.shape.slotSize)) :=
      (since₂.kept addr (since₁.known _ (.head _)).1).trans (since₁.read (.head _))
    have has : w.memory.Has p.width (base + i * s.emitter.shape.slotSize + s.emitter.shape.headerSize) := by
      rw [known.width]
      exact array.has_element (fits_of_even known.wide known.even base low high)
    refine ⟨m₂, does₁.append (does₂.append ?_), ?_⟩
    · exact .store (Store.int?_eq_some addrThere) (since₂.read (.head _)) has
    · exact (unchanged.since follows since₂).kept
  · exact .inr ⟨outside, final, does.halted_append, told⟩

/-- Storing an element keeps the array, changes this element and no other, and leaves other rooms alone. -/
theorem ArrayAt.put (known : ArrayVariable p s a slot tag)
    (array : ArrayAt s.emitter.shape w slot base n) (low : 0 ≤ i) (high : i < n) {m : Store}
    (there : m.read slot = some (.int base)) (word : Word) (deeds : List Deed) :
    ArrayAt s.emitter.shape ⟨m, p.put w.memory (s.emitter.shape.elementAt base i) word, deeds⟩ slot base n ∧
      (∀ j, (p.put w.memory (s.emitter.shape.elementAt base i) word).words
          (s.emitter.shape.elementAt base j) =
        if j = i then word else w.memory.words (s.emitter.shape.elementAt base j)) ∧
      ∀ extent ∈ w.memory.extents, extent ≠ ⟨base, (1 + n) * s.emitter.shape.slotSize⟩ →
        ∀ x, extent.Covers p.width x →
          (p.put w.memory (s.emitter.shape.elementAt base i) word).words x = w.memory.words x := by
  obtain ⟨inside, clear⟩ := fits_of_even known.wide known.even base low high
  have width := known.width
  have wide : 0 < p.width := width ▸ known.wide
  refine ⟨⟨there, array.sized, array.room, ?_, array.separate⟩, fun j => ?_, ?_⟩
  · rw [words_put_apart wide (by rw [width]; exact clear), array.length]
  · split
    · rename_i same
      rw [same, words_put_self]
    · rename_i different
      rw [words_put_apart wide (by rw [width]; exact elementAt_apart known.wide base different)]
  · intro extent listed other x covered
    exact words_put_extent wide (array.separate.apart listed array.room other) (width ▸ inside) covered

/-- A variable with the address of an extent that was just taken, where a length was stored, keeps an array
of that length. The other extents are apart from it and as they were. -/
theorem ArrayAt.taken {shape : FrameShape} (wide : 0 < shape.slotSize) (width : p.width = shape.slotSize)
    (separate : w.memory.Separate) (sized : 0 ≤ n) {room : Extent}
    (made : room = ⟨p.place w.memory ((1 + n) * shape.slotSize), (1 + n) * shape.slotSize⟩) {w' : World}
    (memory : w'.memory = p.put (p.take w.memory room.size) room.base (.int n))
    (there : w'.store.read slot = some (.int room.base)) :
    ArrayAt shape w' slot room.base n ∧ ∀ extent ∈ w.memory.extents, extent.Apart room ∧
      ∀ x, extent.Covers p.width x → w'.memory.words x = w.memory.words x := by
  refine ⟨⟨there, sized, ?_, ?_, ?_⟩, fun extent listed => ?_⟩
  · rw [memory, made]
    exact List.mem_cons_self
  · rw [memory]
    exact words_put_self
  · rw [memory]
    exact separate_take separate
  · have apart : extent.Apart room := made ▸ p.fresh w.memory _ extent listed
    have inside : room.Covers p.width room.base := by
      rw [made, width]
      exact ⟨Int.le_refl _, Int.add_le_add_left (slot_le_room sized wide) _⟩
    refine ⟨apart, fun x covered => ?_⟩
    rw [memory, words_put_extent (width ▸ wide) apart inside covered]
    exact words_take_extent listed covered

theorem newArray_value {size : Expr} {type : TypeExpr} {v : Value} {after : Emitter}
    {code : List Instruction}
    (lowered : value layouts size s = ⟨.ok v, { s with emitter := after }, code⟩) :
    value layouts (.newArray site size type) s =
      ⟨.ok (newArray v (Tag.ofType type) after).value,
        { s with emitter := (newArray v (Tag.ofType type) after).state },
        code ++ (newArray v (Tag.ofType type) after).code⟩ := by
  refine value_computed ?_
  rw [place, ← value, bind_ok lowered, bind_ok (emit_apply _ _)]
  simp

/-- Giving a variable a new array makes it keep one in a room of its own, or halts with a message. -/
theorem assign_newArray_leads (known : ArrayVariable p s a slot tag) (separate : w.memory.Separate)
    {size : Expr} (sized : Supplies p layouts s w size (.int n)) (site siteName siteNew : ExprSite)
    (type : TypeExpr) :
    ∃ next piece,
      effect layouts (.assign site (.name siteName a) (.newArray siteNew size type)) s =
        ⟨.ok (), { s with emitter := next }, piece⟩ ∧ s.emitter.Follows next ∧
      ((0 ≤ n ∧ ∃ (room : Extent) (w' : World), p.Does piece w (.through w') ∧
          w'.deeds = w.deeds ++ [.took room, .stored room.base (.int n)] ∧
          ArrayAt s.emitter.shape w' slot room.base n ∧
          ∀ extent ∈ w.memory.extents, extent.Apart room ∧
            ∀ x, extent.Covers p.width x → w'.memory.words x = w.memory.words x) ∨
        (n < 0 ∧ ∃ final, p.Does piece w (.halted final) ∧ final.memory = w.memory ∧
          final.deeds = w.deeds ++ [.printed (.text badSize)])) := by
  have here := Emitter.follows_refl known.opened
  obtain ⟨v, e₁, c₁, valued, follows, supplies⟩ := sized s.emitter here
  obtain ⟨m₁, does₁, since₁⟩ := supplies w (.refl _ _)
  have later := Emitter.GoesOn.newArray v (Tag.ofType type) _ follows.opened
  have targeted : place layouts (.name siteName a) s =
      ⟨.ok (.variable a.name ⟨slot, .array tag⟩), { s with emitter := s.emitter }, []⟩ := by
    rw [place, namePlace_apply known.bound]
  have written : write (.variable a.name ⟨slot, .array tag⟩) (newArray v (Tag.ofType type) e₁).value
      { s with emitter := (newArray v (Tag.ofType type) e₁).state } =
      ⟨.ok (), { s with emitter := { (newArray v (Tag.ofType type) e₁).state with
          issued := (newArray v (Tag.ofType type) e₁).state.issued + 1 } },
        [.assign slot (newArray v (Tag.ofType type) e₁).value.loc]⟩ := rfl
  refine ⟨_, _, effect_assign targeted (newArray_value valued) written,
    (follows.trans later).trans (Emitter.follows_issued later.opened _), ?_⟩
  have leads : Leads p (newArray v (Tag.ofType type)) e₁ { w with store := m₁ } _ _ :=
    newArray_leads follows.opened (follows.shape ▸ known.wide) (follows.shape ▸ known.width)
      (since₁.known _ (.head _)).1 (since₁.read (.head _))
  rw [follows.shape] at leads
  rcases leads with ⟨w₂, does₂, fine, -, room, made, since₂, memory, deeds⟩ | ⟨final, does₂, bad, told⟩
  · have copies : Machine.effect .exact w₂.store (.assign slot (newArray v (Tag.ofType type) e₁).value.loc) =
        some (w₂.store.write slot (.int room.base), []) := by
      rw [Machine.effect, since₂.read (.head _)]
      rfl
    refine .inl ⟨fine, room, _, (does₁.append does₂).append (.effect copies), ?_, ?_⟩
    · simp [deeds]
    · exact ArrayAt.taken known.wide known.width separate fine made memory (Store.read_write_self ..)
  · exact .inr ⟨bad, final, (does₁.append does₂).halted_append, told⟩

/-! ## The law -/

/-- What an element of an array holds. -/
def elementWord (shape : FrameShape) (memory : Memory) (base j : Int) : Word :=
  memory.words (shape.elementAt base j)

/-- Code for the length of an array supplies `n`, and code for an element that lies in it its content. -/
structure Reads (p : Platform) (layouts : Layouts) (s : LowerState) (w : World) (a : Ident) (n : Int)
    (content : Int → Word) : Prop where
  length : ∀ site siteName span,
    Supplies p layouts s w (.send site (.name siteName a) ⟨"length", span⟩ []) (.int n)
  element : ∀ site siteName index j, Supplies p layouts s w index (.int j) → 0 ≤ j → j < n →
    Supplies p layouts s w (.element site (.name siteName a) index) (content j)

/-- What can be done with a variable that keeps an array of `n` elements. -/
structure ArrayLaw (p : Platform) (layouts : Layouts) (s : LowerState) (w : World) (a : Ident)
    (slot : Location) (base n : Int) : Prop where
  array : ArrayAt s.emitter.shape w slot base n
  reads : Reads p layouts s w a n (elementWord s.emitter.shape w.memory base)
  /-- Assigning an element is refused exactly when the index is bad. Otherwise one word is stored, this
  element is the only one to change, and the length and the other extents stay. -/
  assigns : ∀ site siteElement siteName index source i word,
    Supplies p layouts s w index (.int i) → Supplies p layouts s w source word →
    ∃ next piece,
      effect layouts (.assign site (.element siteElement (.name siteName a) index) source) s =
        ⟨.ok (), { s with emitter := next }, piece⟩ ∧ s.emitter.Follows next ∧
      ∀ code pc, Machine.CodeAt code pc piece → (labels code).Nodup →
        (p.Refuses code pc (pc + piece.length) w badIndex ↔ i < 0 ∨ n ≤ i) ∧
        (0 ≤ i → i < n → ∃ w', p.Runs code pc (pc + piece.length) w (.through w') ∧
          w'.deeds = w.deeds ++ [.stored (s.emitter.shape.elementAt base i) word] ∧
          ArrayAt s.emitter.shape w' slot base n ∧
          Reads p layouts { s with emitter := next } w' a n
            (fun j => if j = i then word else elementWord s.emitter.shape w.memory base j) ∧
          w'.memory.extents = w.memory.extents ∧
          ∀ extent ∈ w.memory.extents, extent ≠ ⟨base, (1 + n) * s.emitter.shape.slotSize⟩ →
            ∀ x, extent.Covers p.width x → w'.memory.words x = w.memory.words x)

theorem ArrayAt.reads (array : ArrayAt s.emitter.shape w slot base n) (known : ArrayVariable p s a slot tag) :
    Reads p layouts s w a n (elementWord s.emitter.shape w.memory base) where
  length _ _ span := supplies_length known array span
  element _ _ _ _ indexed low high := supplies_element known array indexed low high

/-- Whatever gave a variable an array, the law holds of it. -/
theorem ArrayAt.law (array : ArrayAt s.emitter.shape w slot base n) (known : ArrayVariable p s a slot tag) :
    ArrayLaw p layouts s w a slot base n := by
  refine ⟨array, array.reads known, ?_⟩
  intro site siteElement siteName index source i word indexed supplied
  obtain ⟨next, piece, lowered, follows, runs⟩ :=
    assign_element_leads known array indexed supplied site siteElement siteName
  refine ⟨next, piece, lowered, follows, fun code pc at_ distinct => ⟨?_, fun low high => ?_⟩⟩
  · refine Does.refuses_iff ?_ at_ distinct
    rcases runs with ⟨low, high, _, does, -⟩ | refused
    · exact .inl ⟨by omega, _, does⟩
    · exact .inr refused
  · rcases runs with ⟨-, -, m, does, kept⟩ | ⟨outside, -⟩
    · have there : m.read slot = some (.int base) := (kept slot known.held).trans array.there
      obtain ⟨still, changed, others⟩ := array.put known low high there word
        (w.deeds ++ [.stored (s.emitter.shape.elementAt base i) word])
      have reads : Reads p layouts { s with emitter := next } _ a n _ :=
        ArrayAt.reads (follows.shape.symm ▸ still) (known.later follows)
      rw [follows.shape] at reads
      have same := funext changed
      exact ⟨_, does code pc at_ distinct, rfl, still, same ▸ reads, rfl, others⟩
    · omega

/-- The code that gives a variable a new array of `n` elements says that the size is bad and halts before
it takes an extent exactly when `n` is negative. Otherwise it takes one and stores the length there; the
extents that were there are apart from it and unchanged; and the law of arrays holds of the variable. It
holds again wherever the variable keeps an array later in the function, as after each assignment. -/
theorem array_law (known : ArrayVariable p s a slot tag) :
    (∀ site siteName siteNew size type w n, w.memory.Separate → Supplies p layouts s w size (.int n) →
      ∃ next piece,
        effect layouts (.assign site (.name siteName a) (.newArray siteNew size type)) s =
          ⟨.ok (), { s with emitter := next }, piece⟩ ∧ s.emitter.Follows next ∧
        ∀ code pc, Machine.CodeAt code pc piece → (labels code).Nodup →
          (p.Refuses code pc (pc + piece.length) w badSize ↔ n < 0) ∧
          (0 ≤ n → ∃ room w', p.Runs code pc (pc + piece.length) w (.through w') ∧
            w'.deeds = w.deeds ++ [.took room, .stored room.base (.int n)] ∧
            (∀ extent ∈ w.memory.extents, extent.Apart room ∧
              ∀ x, extent.Covers p.width x → w'.memory.words x = w.memory.words x) ∧
            ArrayLaw p layouts { s with emitter := next } w' a slot room.base n)) ∧
      ∀ next w base n, s.emitter.Follows next → ArrayAt s.emitter.shape w slot base n →
        ArrayLaw p layouts { s with emitter := next } w a slot base n := by
  have later {next : Emitter} {w : World} {base n : Int} (follows : s.emitter.Follows next)
      (array : ArrayAt s.emitter.shape w slot base n) :
      ArrayLaw p layouts { s with emitter := next } w a slot base n :=
    ArrayAt.law (follows.shape.symm ▸ array) (known.later follows)
  refine ⟨?_, fun _ _ _ _ => later⟩
  intro site siteName siteNew size type w n separate sized
  obtain ⟨next, piece, lowered, follows, runs⟩ :=
    assign_newArray_leads known separate sized site siteName siteNew type
  refine ⟨next, piece, lowered, follows, fun code pc at_ distinct => ⟨?_, fun fine => ?_⟩⟩
  · refine Does.refuses_iff ?_ at_ distinct
    rcases runs with ⟨fine, _, _, does, -⟩ | refused
    · exact .inl ⟨by omega, _, does⟩
    · exact .inr refused
  · rcases runs with ⟨-, room, w', does, deeds, array, others⟩ | ⟨bad, -⟩
    · exact ⟨room, w', does code pc at_ distinct, deeds, others, later follows array⟩
    · omega

end Use

/-- An open function of a program with two global variables, an array of numbers and a number. -/
def arrayAndSize : LowerState :=
  { emitter := { shape := {}, inFunction := true }
    globals := [("a", ⟨⟨"a", .global, 0⟩, .array .int⟩), ("n", ⟨⟨"n", .global, 4⟩, .int⟩)] }

theorem arrayAndSize_variable :
    ArrayVariable (stacking 4) arrayAndSize ⟨"a", default⟩ ⟨"a", .global, 0⟩ .int where
  opened := rfl
  wide := by decide
  even := rfl
  width := rfl
  bound := by decide +kernel
  held framed := by cases framed

/-- Nothing was taken yet, and the second variable holds a number. -/
def sizeGiven (n : Int) : World :=
  ⟨Store.write (fun _ _ => none) ⟨"n", .global, 4⟩ (.int n), ⟨[], fun _ => .int 0⟩, []⟩

theorem supplies_sizeGiven (n : Int) :
    Supplies (stacking 4) {} arrayAndSize (sizeGiven n) (.name default ⟨"n", default⟩) (.int n) :=
  @supplies_name _ _ _ _ _ _ _ ⟨⟨"n", .global, 4⟩, .int⟩ (by decide +kernel) (fun framed => by cases framed)
    (Store.read_write_self ..)

/-- Gives the array variable a new array of the size in the other variable. -/
def renewed : Expr :=
  .assign default (.name default ⟨"a", default⟩)
    (.newArray default (.name default ⟨"n", default⟩) (.primitive .int))

/-- The second element of the array. -/
def secondElement : Expr := .element default (.name default ⟨"a", default⟩) (.int default 1)

/-- Of three elements the second is set to seven and read back; fewer than no elements are refused. -/
theorem array_law_three :
    (∃ next piece w' after more final,
      effect {} renewed arrayAndSize = ⟨.ok (), { arrayAndSize with emitter := next }, piece⟩ ∧
      (stacking 4).Runs piece 0 (0 + piece.length) (sizeGiven 3) (.through w') ∧
      effect {} (.assign default secondElement (.int default 7)) { arrayAndSize with emitter := next } =
        ⟨.ok (), { arrayAndSize with emitter := after }, more⟩ ∧
      (stacking 4).Runs more 0 (0 + more.length) w' (.through final) ∧
      Supplies (stacking 4) {} { arrayAndSize with emitter := after } final secondElement (.int 7)) ∧
    ∃ next piece,
      effect {} renewed arrayAndSize = ⟨.ok (), { arrayAndSize with emitter := next }, piece⟩ ∧
      (stacking 4).Refuses piece 0 (0 + piece.length) (sizeGiven (-1)) badSize := by
  have law := @array_law (stacking 4) {} arrayAndSize ⟨"a", default⟩ ⟨"a", .global, 0⟩ .int
    arrayAndSize_variable
  have alone (piece : List Instruction) : Machine.CodeAt piece 0 piece := ⟨[], [], by simp, rfl⟩
  have distinct : (labels (effect {} renewed arrayAndSize).code).Nodup := by decide +kernel
  constructor
  · obtain ⟨next, piece, lowered, follows, runs⟩ := law.1 default default default _ (.primitive .int)
      (sizeGiven 3) 3 .nil (supplies_sizeGiven 3)
    rw [renewed, lowered] at distinct
    obtain ⟨room, w', through, -, -, holds⟩ := (runs piece 0 (alone piece) distinct).2 (by decide)
    have wide : 0 < next.shape.slotSize := follows.shape ▸ arrayAndSize_variable.wide
    obtain ⟨after, more, then_, later, moreRuns⟩ := holds.assigns default default default
      (.int default 1) (.int default 7) 1 (.int 7) (supplies_int wide 1) (supplies_int wide 7)
    have moreDistinct : (labels (effect {} (.assign default secondElement (.int default 7))
        (effect {} renewed arrayAndSize).state).code).Nodup := by decide +kernel
    rw [renewed, lowered, secondElement, then_] at moreDistinct
    obtain ⟨final, moreThrough, -, -, reads, -⟩ :=
      (moreRuns more 0 (alone more) moreDistinct).2 (by decide) (by decide)
    refine ⟨next, piece, w', after, more, final, lowered, through, then_, moreThrough, ?_⟩
    exact reads.element default default (.int default 1) 1 (supplies_int (later.shape ▸ wide) 1)
      (by decide) (by decide)
  · obtain ⟨next, piece, lowered, -, runs⟩ := law.1 default default default _ (.primitive .int)
      (sizeGiven (-1)) (-1) .nil (supplies_sizeGiven (-1))
    rw [renewed, lowered] at distinct
    exact ⟨next, piece, lowered, (runs piece 0 (alone piece) distinct).1.mpr (by decide)⟩

end DecafTac.Lower
