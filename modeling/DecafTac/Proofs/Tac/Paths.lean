import DecafTac.Proofs.Tac.Form

/-!
Where control can go within the code of one function, and what is written on every way to an
instruction. Code is marked with locations that are written whenever control comes to an instruction;
when the marks agree wherever control goes from one instruction to another, then a location that is
read is written before, whatever way was taken.
-/
namespace DecafTac

namespace Instruction

/-- The locations that an instruction reads. -/
def reads : Instruction → List Location
  | .assign _ src => [src]
  | .load _ addr _ => [addr]
  | .store addr src _ => [addr, src]
  | .binary _ _ left right => [left, right]
  | .jumpIfZero test _ => [test]
  | .ret value => value.toList
  | .pushParam param => [param]
  | .callAddress addr _ => [addr]
  | .callRoutine _ args _ => args
  | _ => []

/-- The location that an instruction writes, if there is one. A store writes to memory. -/
def writes : Instruction → List Location
  | .loadConstant dst _ | .loadLabel dst _ | .assign dst _ | .load dst _ _ | .binary _ dst _ _ => [dst]
  | .callLabel _ dst | .callAddress _ dst | .callRoutine _ _ dst => dst.toList
  | _ => []

/-- Whether control may go on to the next instruction. -/
def goesOn : Instruction → Bool
  | .jump _ | .ret _ | .endFunc _ => false
  | _ => true

end Instruction

/-! ## Paths -/

/-- Where control goes from a position: to the next one, or to the label that is jumped to. -/
inductive Follows (code : List Instruction) : Nat → Nat → Prop where
  | next {pc : Nat} {i : Instruction} (here : code[pc]? = some i) (goesOn : i.goesOn = true) :
      Follows code pc (pc + 1)
  | jump {pc pc' : Nat} {i : Instruction} {target : String} (here : code[pc]? = some i)
      (jumps : i.target? = some target) (there : code[pc']? = some (.label target)) :
      Follows code pc pc'

/-- A way from the start of some code to a position, with the positions before it, last one first. -/
inductive Path (code : List Instruction) : List Nat → Nat → Prop where
  | start : Path code [] 0
  | step {earlier : List Nat} {pc pc' : Nat} (path : Path code earlier pc)
      (follows : Follows code pc pc') : Path code (pc :: earlier) pc'

/-- A location is written at one of some positions. -/
def WrittenAt (code : List Instruction) (positions : List Nat) (loc : Location) : Prop :=
  ∃ pc ∈ positions, ∃ i, code[pc]? = some i ∧ loc ∈ i.writes

/-! ## Marked code -/

/-- An instruction, with locations that are known whenever control comes to it: they were written on the
way, or are known from the start. -/
structure Point where
  instruction : Instruction
  known : List Location

/-- The marks of points in a row agree: what is known at a point was known before it or written by the
point before. Control does not come from one that it does not go on from. -/
inductive Threaded : List Location → List Point → List Location → Prop where
  | nil {known after : List Location} (fits : after ⊆ known) : Threaded known [] after
  | cons {known next after : List Location} {point : Point} {rest : List Point}
      (fits : point.known ⊆ known)
      (onward : point.instruction.goesOn = true → next ⊆ point.instruction.writes ++ point.known)
      (later : Threaded next rest after) : Threaded known (point :: rest) after

namespace Threaded

variable {known after : List Location} {points : List Point}

theorem weaken (threaded : Threaded known points after) {more fewer : List Location}
    (knows : known ⊆ more) (fits : fewer ⊆ after) : Threaded more points fewer := by
  induction threaded generalizing more with
  | nil fits' => exact .nil (List.Subset.trans fits (List.Subset.trans fits' knows))
  | cons fits' onward _ ih =>
    exact .cons (List.Subset.trans fits' knows) onward (ih (List.Subset.refl _) fits)

theorem append {middle : List Location} {first second : List Point}
    (one : Threaded known first middle) (two : Threaded middle second after) :
    Threaded known (first ++ second) after := by
  induction one with
  | nil fits => exact two.weaken fits (List.Subset.refl _)
  | cons fits onward _ ih => exact .cons fits onward (ih two)

/-- One point alone, from which control goes on. -/
theorem single (point : Point) (fits : point.known ⊆ known) :
    Threaded known [point] (point.instruction.writes ++ point.known) :=
  .cons fits (fun _ => List.Subset.refl _) (.nil (List.Subset.refl _))

/-- A label behind a jump starts anew. -/
theorem across (target label : String) {keep own : List Location} (fits : keep ⊆ known)
    (later : Threaded own points after) :
    Threaded known (⟨.jump target, keep⟩ :: ⟨.label label, own⟩ :: points) after :=
  .cons fits (fun goesOn => nomatch goesOn) (.cons (List.Subset.refl own) (fun _ => List.Subset.refl _) later)

theorem first_fits (threaded : Threaded known points after) {point : Point}
    (here : points[0]? = some point) : point.known ⊆ known := by
  cases threaded with
  | nil => cases here
  | cons fits => cases here; exact fits

/-- What is known at the next point. -/
theorem next_fits (threaded : Threaded known points after) {pc : Nat} {point point' : Point}
    (here : points[pc]? = some point) (goesOn : point.instruction.goesOn = true)
    (there : points[pc + 1]? = some point') :
    point'.known ⊆ point.instruction.writes ++ point.known := by
  induction threaded generalizing pc with
  | nil => cases here
  | cons _ onward later ih =>
    cases pc with
    | zero =>
      cases here
      exact List.Subset.trans (later.first_fits there) (onward goesOn)
    | succ pc => exact ih here there

end Threaded

/-- Among some points, one reads what is known there, and jumps to where no more than that is known. At
the exits, the variables are known. -/
structure Point.Checked (vars : List Location) (exits : List String) (points : List Point)
    (point : Point) : Prop where
  reads : point.instruction.reads ⊆ point.known
  lands : ∀ target, point.instruction.target? = some target →
    (target ∈ exits ∧ vars ⊆ point.known) ∨
      ∃ goal ∈ points, goal.instruction = .label target ∧ goal.known ⊆ point.known

namespace Point.Checked

variable {vars : List Location} {exits : List String} {points : List Point} {point : Point}

theorem weaken {wider : List String} {more : List Point} (checked : point.Checked vars exits points)
    (exitsFit : exits ⊆ wider) (pointsFit : points ⊆ more) : point.Checked vars wider more where
  reads := checked.reads
  lands target jumps := by
    rcases checked.lands target jumps with leaves | ⟨goal, member, label, fits⟩
    · exact .inl ⟨exitsFit leaves.1, leaves.2⟩
    · exact .inr ⟨goal, pointsFit member, label, fits⟩

/-- A point that does not jump. -/
theorem straight (within : point.instruction.reads ⊆ point.known)
    (stays : point.instruction.target? = none) : point.Checked vars exits points where
  reads := within
  lands target jumps := by
    rw [stays] at jumps
    cases jumps

/-- A point that jumps to another one. -/
theorem toward {target : String} {known : List Location}
    (within : point.instruction.reads ⊆ point.known)
    (jumps : point.instruction.target? = some target) (fits : known ⊆ point.known)
    (member : ⟨.label target, known⟩ ∈ points) : point.Checked vars exits points where
  reads := within
  lands other jumps' := by
    cases jumps.symm.trans jumps'
    exact .inr ⟨_, member, rfl, fits⟩

/-- An exit that is placed where the variables are known is one no longer. -/
theorem close {exit : String} (checked : point.Checked vars (exit :: exits) points)
    (placed : ⟨.label exit, vars⟩ ∈ points) : point.Checked vars exits points where
  reads := checked.reads
  lands target jumps := by
    rcases checked.lands target jumps with ⟨leaves, known⟩ | lands
    · rcases List.mem_cons.mp leaves with rfl | leaves
      · exact .inr ⟨_, placed, rfl, known⟩
      · exact .inl ⟨leaves, known⟩
    · exact .inr lands

end Point.Checked

/-- Code that can be marked so that all its points are checked, from what is known before it to what is
known behind it. -/
def Assigned (vars : List Location) (exits : List String) (known : List Location)
    (code : List Instruction) (after : List Location) : Prop :=
  ∃ points : List Point, points.map Point.instruction = code ∧ Threaded known points after ∧
    ∀ point ∈ points, point.Checked vars exits points

namespace Assigned

variable {vars known after : List Location} {exits : List String} {code : List Instruction}

theorem nil : Assigned vars exits known [] known :=
  ⟨[], rfl, .nil (List.Subset.refl _), by simp⟩

theorem weaken {more fewer : List Location} {wider : List String}
    (assigned : Assigned vars exits known code after) (knows : known ⊆ more) (fits : fewer ⊆ after)
    (leaves : exits ⊆ wider) : Assigned vars wider more code fewer := by
  obtain ⟨points, rfl, threaded, checked⟩ := assigned
  exact ⟨points, rfl, threaded.weaken knows fits,
    fun point member => (checked point member).weaken leaves (List.Subset.refl _)⟩

/-- Code that takes no exit can stand where there are some. -/
theorem among_exits (assigned : Assigned vars [] known code after) (exits : List String) :
    Assigned vars exits known code after :=
  assigned.weaken (List.Subset.refl _) (List.Subset.refl _) (List.nil_subset _)

/-- What is known before some code can be more. -/
theorem knowing {more : List Location} (assigned : Assigned vars exits known code after)
    (knows : known ⊆ more) : Assigned vars exits more code after :=
  assigned.weaken knows (List.Subset.refl _) (List.Subset.refl _)

theorem append {middle : List Location} {first second : List Instruction}
    (one : Assigned vars exits known first middle) (two : Assigned vars exits middle second after) :
    Assigned vars exits known (first ++ second) after := by
  obtain ⟨points₁, rfl, threaded₁, checked₁⟩ := one
  obtain ⟨points₂, rfl, threaded₂, checked₂⟩ := two
  refine ⟨points₁ ++ points₂, List.map_append, threaded₁.append threaded₂, ?_⟩
  intro point member
  rcases List.mem_append.mp member with member | member
  · exact (checked₁ point member).weaken (List.Subset.refl _) (List.subset_append_left ..)
  · exact (checked₂ point member).weaken (List.Subset.refl _) (List.subset_append_right ..)

/-- An instruction that does not jump. -/
theorem straight (i : Instruction) (within : i.reads ⊆ known) (stays : i.target? = none) :
    Assigned vars exits known [i] (i.writes ++ known) := by
  refine ⟨[⟨i, known⟩], rfl, .single _ (List.Subset.refl _), ?_⟩
  intro point member
  rw [List.mem_singleton.mp member]
  exact .straight within stays

/-- A jump to one of the exits. -/
theorem leave {exit : String} (isOpen : exit ∈ exits) (knows : vars ⊆ known) :
    Assigned vars exits known [.jump exit] known := by
  refine ⟨[⟨.jump exit, known⟩], rfl, .single _ (List.Subset.refl _), ?_⟩
  intro point member
  rw [List.mem_singleton.mp member]
  refine ⟨List.nil_subset _, ?_⟩
  intro target jumps
  cases jumps
  exact .inl ⟨isOpen, knows⟩

/-- Code that is skipped: what is known before it is kept, as far as it is kept inside. -/
theorem skip {test : Location} {label : String} {keep : List Location}
    (tested : test ∈ known) (kept : keep ⊆ known)
    (inside : Assigned vars exits known code after) (keptInside : keep ⊆ after) :
    Assigned vars exits known (.jumpIfZero test label :: (code ++ [.label label])) keep := by
  obtain ⟨points, rfl, threaded, checked⟩ := inside
  refine ⟨⟨.jumpIfZero test label, known⟩ :: (points ++ [⟨.label label, keep⟩]), by simp, ?_, ?_⟩
  · refine .cons (List.Subset.refl known) (fun _ => List.subset_append_right ..) (threaded.append ?_)
    exact .single _ keptInside
  · intro point member
    rcases List.mem_cons.mp member with rfl | member
    · exact .toward (by simpa [Instruction.reads] using tested) rfl kept (by simp)
    · rcases List.mem_append.mp member with member | member
      · exact (checked point member).weaken (List.Subset.refl _) fun _ inner => by simp [inner]
      · rw [List.mem_singleton.mp member]
        exact .straight (List.nil_subset _) rfl

/-- One of two pieces of code: what both keep is known behind them. -/
theorem either {test : Location} {other done : String} {yes no : List Instruction}
    {keep after' : List Location} (tested : test ∈ known)
    (one : Assigned vars exits known yes after) (two : Assigned vars exits known no after')
    (kept : keep ⊆ after) (kept' : keep ⊆ after') :
    Assigned vars exits known (.jumpIfZero test other ::
      (yes ++ (.jump done :: .label other :: (no ++ [.label done])))) keep := by
  obtain ⟨points₁, rfl, threaded₁, checked₁⟩ := one
  obtain ⟨points₂, rfl, threaded₂, checked₂⟩ := two
  refine ⟨⟨.jumpIfZero test other, known⟩ :: (points₁ ++ (⟨.jump done, keep⟩ ::
    ⟨.label other, known⟩ :: (points₂ ++ [⟨.label done, keep⟩]))), by simp, ?_, ?_⟩
  · refine .cons (List.Subset.refl _) (fun _ => List.subset_append_right ..) (threaded₁.append ?_)
    -- control comes to the second piece from the test alone
    refine .across _ _ kept (threaded₂.append ?_)
    exact .single _ kept'
  · intro point member
    simp only [List.mem_cons, List.mem_append, List.not_mem_nil, or_false] at member
    rcases member with rfl | member | rfl | rfl | member | rfl
    · exact .toward (by simpa [Instruction.reads] using tested) rfl (List.Subset.refl _) (by simp)
    · exact (checked₁ point member).weaken (List.Subset.refl _) fun _ inner => by simp [inner]
    · exact .toward (List.nil_subset _) rfl (List.Subset.refl _) (by simp)
    · exact .straight (List.nil_subset _) rfl
    · exact (checked₂ point member).weaken (List.Subset.refl _) fun _ inner => by simp [inner]
    · exact .straight (List.nil_subset _) rfl

/-- A loop: only the variables are known at its top, which control comes to again and again, and behind
it. -/
theorem loop {value : Location} {top exit : String} {test body step : List Instruction}
    (before : Assigned vars exits vars test known) (knows : vars ⊆ known) (tested : value ∈ known)
    (inside : Assigned vars (exit :: exits) vars body vars)
    (behind : Assigned vars exits vars step vars) :
    Assigned vars exits vars (.label top :: (test ++ (.jumpIfZero value exit ::
      (body ++ (step ++ [.jump top, .label exit]))))) vars := by
  obtain ⟨points₁, rfl, threaded₁, checked₁⟩ := before
  obtain ⟨points₂, rfl, threaded₂, checked₂⟩ := inside
  obtain ⟨points₃, rfl, threaded₃, checked₃⟩ := behind
  refine ⟨⟨.label top, vars⟩ :: (points₁ ++ (⟨.jumpIfZero value exit, known⟩ ::
    (points₂ ++ (points₃ ++ [⟨.jump top, vars⟩, ⟨.label exit, vars⟩])))), by simp, ?_, ?_⟩
  · refine .cons (List.Subset.refl vars) (fun _ => List.subset_append_right ..) (threaded₁.append ?_)
    refine .cons (List.Subset.refl known) (fun _ => knows) (threaded₂.append ?_)
    exact threaded₃.append (.across _ _ (List.Subset.refl _) (.nil (List.Subset.refl _)))
  · intro point member
    simp only [List.mem_cons, List.mem_append, List.not_mem_nil, or_false] at member
    rcases member with rfl | member | rfl | member | member | rfl | rfl
    · exact .straight (List.nil_subset _) rfl
    · exact (checked₁ point member).weaken (List.Subset.refl _) fun _ inner => by simp [inner]
    · exact .toward (by simpa [Instruction.reads] using tested) rfl knows (by simp)
    · refine ((checked₂ point member).weaken (List.Subset.refl _) ?_).close (by simp)
      intro _ inner
      simp [inner]
    · exact (checked₃ point member).weaken (List.Subset.refl _) fun _ inner => by simp [inner]
    · exact .toward (List.nil_subset _) rfl (List.Subset.refl _) (by simp)
    · exact .straight (List.nil_subset _) rfl

end Assigned

/-! ## Along a path -/

/-- A label that is placed once stands at one position. -/
theorem label_position {code : List Instruction} (single : (labels code).Nodup) {label : String}
    {pc pc' : Nat} (here : code[pc]? = some (.label label)) (there : code[pc']? = some (.label label)) :
    pc = pc' := by
  have apart := List.pairwise_iff_getElem.mp (List.pairwise_filterMap.mp single)
  obtain ⟨bound, here⟩ := List.getElem?_eq_some_iff.mp here
  obtain ⟨bound', there⟩ := List.getElem?_eq_some_iff.mp there
  rcases Nat.lt_trichotomy pc pc' with less | same | less
  · exact absurd rfl (apart pc pc' bound bound' less label (by rw [here]; rfl) label (by rw [there]; rfl))
  · exact same
  · exact absurd rfl (apart pc' pc bound' bound less label (by rw [there]; rfl) label (by rw [here]; rfl))

/-- What is known at a point was written on the way to it, unless it is known from the start. -/
theorem Path.known_written {points : List Point} {vars after : List Location}
    (threaded : Threaded vars points after) (checked : ∀ point ∈ points, point.Checked vars [] points)
    (single : (labels (points.map Point.instruction)).Nodup) {earlier : List Nat} {pc : Nat}
    (path : Path (points.map Point.instruction) earlier pc) {point : Point}
    (here : points[pc]? = some point) :
    ∀ loc ∈ point.known, loc ∈ vars ∨ WrittenAt (points.map Point.instruction) earlier loc := by
  induction path generalizing point with
  | start => exact fun loc member => .inl (threaded.first_fits here member)
  | @step earlier pc pc' _ follows ih =>
    have later {loc : Location} (written : WrittenAt (points.map Point.instruction) earlier loc) :
        WrittenAt (points.map Point.instruction) (pc :: earlier) loc := by
      obtain ⟨pc₀, member, found⟩ := written
      exact ⟨pc₀, List.mem_cons_of_mem _ member, found⟩
    intro loc member
    cases follows with
    | next there goesOn =>
      rw [List.getElem?_map] at there
      obtain ⟨before, found, rfl⟩ := Option.map_eq_some_iff.mp there
      rcases List.mem_append.mp (threaded.next_fits found goesOn here member) with written | known
      · exact .inr ⟨pc, List.mem_cons_self, _, by rw [List.getElem?_map, found]; rfl, written⟩
      · exact (ih found loc known).imp_right later
    | @jump _ _ target there jumps lands =>
      rw [List.getElem?_map] at there
      obtain ⟨before, found, rfl⟩ := Option.map_eq_some_iff.mp there
      rcases (checked before (List.mem_of_getElem? found)).lands target jumps with leaves | goal
      · cases leaves.1
      · obtain ⟨goal, among, label, fits⟩ := goal
        -- the label that was checked is the one that control comes to
        obtain ⟨pc₀, place⟩ := List.getElem?_of_mem among
        have same : pc₀ = pc' := by
          refine label_position single ?_ lands
          rw [List.getElem?_map, place, Option.map_some, label]
        subst same
        cases place.symm.trans here
        exact (ih found loc (fits member)).imp_right later

/-- What is read in assigned code is known from the start, or was written on the way. -/
theorem Assigned.read_written {vars after : List Location} {code : List Instruction}
    (assigned : Assigned vars [] vars code after) (single : (labels code).Nodup) {earlier : List Nat}
    {pc : Nat} (path : Path code earlier pc) {i : Instruction} (here : code[pc]? = some i) :
    ∀ loc ∈ i.reads, loc ∈ vars ∨ WrittenAt code earlier loc := by
  obtain ⟨points, rfl, threaded, checked⟩ := assigned
  rw [List.getElem?_map] at here
  obtain ⟨point, found, rfl⟩ := Option.map_eq_some_iff.mp here
  intro loc read
  have known := (checked point (List.mem_of_getElem? found)).reads read
  exact path.known_written threaded checked single found loc known

end DecafTac
