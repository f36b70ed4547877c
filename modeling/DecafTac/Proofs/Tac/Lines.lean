import Mathlib.Tactic.SplitIfs
import DecafTac.Proofs.Text.Quoting
import DecafTac.Tac.Instruction

/-!
Lines of a listing. Names of locations, labels and classes are written as they are, and string constants
in quotes. Where no name breaks a line, the lines of a listing are its instructions, one each, whatever
strings they load; where no name holds a quote, a line tells whether it loads a string, which one and
where to. All this holds for every choice of characters that are written by code point, so it is said for
any choice, and the one that listings are written with is an instance.
-/
namespace DecafTac

/-! ## Writing under any choice of characters -/

/-- A constant, with the chosen characters of a string written by code point. -/
def Constant.textBy (byCode : Char → Bool) : Constant → String
  | .string value => Text.Quoted.quote byCode value
  | .int value => (Constant.int value).text
  | .double bits => (Constant.double bits).text

namespace Instruction

def textBy (byCode : Char → Bool) : Instruction → String
  | .loadConstant dst value => dst.name ++ " = " ++ value.textBy byCode
  | i => i.text

/-- One line of a listing, without its end. -/
def rowBy (byCode : Char → Bool) (i : Instruction) : String :=
  (if i.isLabel then "" else "\t") ++ i.textBy byCode

/-- The labels and classes that an instruction is written with. -/
def symbols : Instruction → List String
  | .loadLabel _ target | .label target | .jump target | .jumpIfZero _ target | .callLabel target _ =>
    [target]
  | .methodTable cls methods => cls :: methods
  | _ => []

/-- The names that an instruction is written with. -/
def names (i : Instruction) : List String := i.operands.map Location.name ++ i.symbols

/-- No name of the instruction holds the character. -/
def Avoids (i : Instruction) (x : Char) : Prop := ∀ name ∈ i.names, x ∉ name.toList

/-- The string that an instruction loads, with the name of the place it loads it to. -/
def loaded? : Instruction → Option (String × String)
  | .loadConstant dst (.string value) => some (dst.name, value)
  | _ => none

end Instruction

/-- A listing, with the chosen characters of strings written by code point. -/
def listingBy (byCode : Char → Bool) (code : List Instruction) : String :=
  String.join (code.map fun i => i.rowBy byCode ++ "\n")

theorem Constant.text_eq (c : Constant) : c.text = c.textBy Text.isUnseen := by
  cases c <;> rfl

theorem Instruction.text_eq (i : Instruction) : i.text = i.textBy Text.isUnseen := by
  cases i with
  | loadConstant dst value => rw [text, textBy, Constant.text_eq]
  | _ => rfl

theorem listing_eq (code : List Instruction) : listing code = listingBy Text.isUnseen code := by
  rw [listing, listingBy]
  congr 1
  refine List.map_congr_left fun i _ => ?_
  rw [Instruction.line, Instruction.rowBy, Instruction.text_eq]

theorem Text.hidesControls_isUnseen : Text.Quoted.HidesControls Text.isUnseen := by
  intro c control
  right
  rw [Text.isUnseen, List.any_eq_true]
  rcases control with low | ⟨least, most⟩
  · exact ⟨(0x0, 0x1F), .head _, by simp; omega⟩
  · exact ⟨(0x7F, 0xA0), .tail _ (.head _), by simp; omega⟩

/-! ## What stands in a line -/

/-- The two characters that end a line or a string. -/
def Breaks (x : Char) : Prop := x = '\n' ∨ x = '"'

section Numbers

variable {x : Char}

private theorem not_mem_digits (breaks : Breaks x) (n : Nat) : x ∉ Nat.toDigits 10 n := by
  intro member
  have digit := Nat.isDigit_of_mem_toDigits (by decide) (by decide) member
  rcases breaks with rfl | rfl <;> cases digit

private theorem not_mem_int (breaks : Breaks x) (v : Int) : x ∉ (toString v).toList := by
  have digits := not_mem_digits breaks
  rw [Int.toString_eq_repr, Int.repr_eq_if]
  split
  · rw [Nat.toList_repr]
    exact digits _
  · rw [String.toList_append, List.mem_append, Nat.toList_repr, not_or]
    refine ⟨?_, digits _⟩
    rcases breaks with rfl | rfl <;> decide

private theorem not_mem_positional (breaks : Breaks x) (s : Decimal.Scaled) :
    x ∉ (Decimal.positional s).toList := by
  have digits : x ∉ (Decimal.trimZeros (Nat.toDigits 10 s.digits) s.place).1 := fun member =>
    not_mem_digits breaks _ (List.mem_of_mem_take member)
  have before : ∀ n, x ∉ (Decimal.trimZeros (Nat.toDigits 10 s.digits) s.place).1.take n :=
    fun _ member => digits (List.mem_of_mem_take member)
  have behind : ∀ n, x ∉ (Decimal.trimZeros (Nat.toDigits 10 s.digits) s.place).1.drop n :=
    fun _ member => digits (List.mem_of_mem_drop member)
  have fixed : x ≠ '0' ∧ x ≠ '.' := by rcases breaks with rfl | rfl <;> decide
  rw [Decimal.positional, String.toList_ofList]
  split
  · simp [digits, fixed]
  · split
    · simp [before, behind, fixed]
    · simp [digits, fixed]

private theorem not_mem_double (breaks : Breaks x) (bits : UInt64) :
    x ∉ (Decimal.text bits).toList := by
  have places := not_mem_positional breaks
  rw [Decimal.text]
  rcases breaks with rfl | rfl <;> split_ifs <;> simp [places]

end Numbers

namespace Instruction

open Text.Quoted

section Parts

variable {x : Char}

private theorem not_mem_address (breaks : Breaks x) {addr : Location} (named : x ∉ addr.name.toList)
    (offset : Int) : x ∉ (address addr offset).toList := by
  have digits := not_mem_int breaks
  unfold address
  simp only [Int.toString_eq_repr] at digits ⊢
  rcases breaks with rfl | rfl <;> split_ifs <;> simp [named, digits]

private theorem not_mem_receiving (breaks : Breaks x) {dst : Option Location}
    (named : ∀ loc ∈ dst, x ∉ loc.name.toList) : x ∉ (receiving dst).toList := by
  cases dst with
  | none => simp [receiving]
  | some loc =>
    have target := named loc rfl
    rcases breaks with rfl | rfl <;> simp [receiving, target]

private theorem not_mem_intercalate (breaks : Breaks x) {listed : List String}
    (named : ∀ name ∈ listed, x ∉ name.toList) : x ∉ (", ".intercalate listed).toList := by
  rw [String.toList_intercalate]
  induction listed with
  | nil => simp
  | cons name more ih =>
    have first := named name (by simp)
    have later := ih fun other member => named other (List.mem_cons_of_mem name member)
    cases more with
    | nil => simpa using first
    | cons next rest =>
      rw [List.map_cons, List.map_cons, List.intercalate_cons_cons, ← List.map_cons, List.mem_append,
        List.mem_append, not_or, not_or]
      refine ⟨⟨first, ?_⟩, later⟩
      rcases breaks with rfl | rfl <;> decide

end Parts

variable (byCode : Char → Bool) {x : Char} {i j : Instruction}

private theorem not_mem_op (breaks : Breaks x) (op : TacOp) : x ∉ op.text.toList := by
  rcases breaks with rfl | rfl <;> cases op <;> decide

private theorem not_mem_routine (breaks : Breaks x) (routine : Routine) : x ∉ routine.text.toList := by
  rcases breaks with rfl | rfl <;> cases routine <;> decide

/-- What loads no string is written without a line end or a quote, but for those of its names. -/
theorem not_mem_textBy (breaks : Breaks x) (avoids : i.Avoids x) (none : i.loaded? = none) :
    x ∉ (i.textBy byCode).toList := by
  have located : ∀ loc ∈ i.operands, x ∉ loc.name.toList := fun loc member =>
    avoids _ (List.mem_append_left _ (List.mem_map_of_mem member))
  have named : ∀ name ∈ i.symbols, x ∉ name.toList := fun name member =>
    avoids _ (List.mem_append_right _ member)
  clear avoids
  have ints := not_mem_int breaks
  cases i with
  | loadConstant dst value =>
    have place := located dst (by simp [operands])
    cases value with
    | string value => cases none
    | int value => rcases breaks with rfl | rfl <;> simp_all [textBy, Constant.textBy, Constant.text]
    | double bits =>
      have number := not_mem_double breaks bits
      rcases breaks with rfl | rfl <;> simp [textBy, Constant.textBy, Constant.text, place, number]
  | load dst addr offset =>
    have place := located dst (by simp [operands])
    have memory := not_mem_address breaks (located addr (by simp [operands])) offset
    rcases breaks with rfl | rfl <;> simp [textBy, text, place, memory]
  | store addr src offset =>
    have memory := not_mem_address breaks (located addr (by simp [operands])) offset
    have place := located src (by simp [operands])
    rcases breaks with rfl | rfl <;> simp [textBy, text, place, memory]
  | binary op dst left right =>
    have sign := not_mem_op breaks op
    rcases breaks with rfl | rfl <;> simp_all [operands, textBy, text]
  | ret value =>
    cases value <;> rcases breaks with rfl | rfl <;> simp_all [operands, textBy, text]
  | callLabel target dst =>
    have place := not_mem_receiving breaks fun loc (member : loc ∈ dst) =>
      located loc (by simpa [operands] using member)
    have label := named target (by simp [symbols])
    rcases breaks with rfl | rfl <;> simp [textBy, text, place, label]
  | callAddress addr dst =>
    have place := not_mem_receiving breaks fun loc (member : loc ∈ dst) =>
      located loc (by simp_all [operands])
    have callee := located addr (by simp [operands])
    rcases breaks with rfl | rfl <;> simp [textBy, text, place, callee]
  | callRoutine routine args dst =>
    have place := not_mem_receiving breaks fun loc (member : loc ∈ dst) =>
      located loc (by simp_all [operands])
    have listed : x ∉ (", ".intercalate (args.map Location.name)).toList := by
      refine not_mem_intercalate breaks fun name member => ?_
      obtain ⟨loc, inside, rfl⟩ := List.mem_map.mp member
      exact located loc (by simp [operands, inside])
    have callee := not_mem_routine breaks routine
    rcases breaks with rfl | rfl <;> simp_all [textBy, text]
  | methodTable cls methods =>
    have listed := not_mem_intercalate breaks fun name (member : name ∈ methods) =>
      named name (by simp [symbols, member])
    have table := named cls (by simp [symbols])
    rcases breaks with rfl | rfl <;> simp_all [textBy, text]
  | _ => rcases breaks with rfl | rfl <;> simp_all [operands, symbols, textBy, text]

theorem eq_of_loaded? {dst value : String} (load : i.loaded? = some (dst, value)) :
    ∃ loc, i = .loadConstant loc (.string value) ∧ loc.name = dst := by
  cases i with
  | loadConstant loc constant =>
    cases constant with
    | string text =>
      obtain ⟨rfl, rfl⟩ : loc.name = dst ∧ text = value := by simpa [loaded?] using load
      exact ⟨loc, rfl, rfl⟩
    | int | double => cases load
  | _ => cases load

/-- A string stands in its line between quotes, behind the place it goes to. -/
theorem toList_rowBy {dst value : String} (load : i.loaded? = some (dst, value)) :
    (i.rowBy byCode).toList =
      ('\t' :: dst.toList ++ " = ".toList) ++
        '"' :: (encode byCode value.toList ++ ['"']) := by
  obtain ⟨loc, rfl, rfl⟩ := eq_of_loaded? load
  simp [rowBy, isLabel, textBy, Constant.textBy, Text.Quoted.quote]

theorem mem_names_of_loaded? {dst value : String} (load : i.loaded? = some (dst, value)) :
    dst ∈ i.names := by
  obtain ⟨loc, rfl, rfl⟩ := eq_of_loaded? load
  simp [names, operands]

theorem not_mem_rowBy (breaks : Breaks x) (avoids : i.Avoids x) (none : i.loaded? = none) :
    x ∉ (i.rowBy byCode).toList := by
  have inside := not_mem_textBy byCode breaks avoids none
  rw [rowBy, String.toList_append, List.mem_append, not_or]
  refine ⟨?_, inside⟩
  rcases breaks with rfl | rfl <;> split <;> decide

/-- Whatever it loads, an instruction stands on one line if its names do. -/
theorem newline_not_mem_rowBy (hides : HidesControls byCode) (avoids : i.Avoids '\n') :
    '\n' ∉ (i.rowBy byCode).toList := by
  cases load : i.loaded? with
  | none => exact not_mem_rowBy byCode (.inl rfl) avoids load
  | some loaded =>
    obtain ⟨dst, value⟩ := loaded
    have place : '\n' ∉ dst.toList := avoids dst (mem_names_of_loaded? load)
    have body : '\n' ∉ encode byCode value.toList := fun member =>
      not_control_of_mem_encode byCode hides member (by decide)
    simp [toList_rowBy byCode load, place, body]

/-- A line tells the string that it loads: the first quote in it opens one. -/
theorem loaded?_eq_of_rowBy (here : i.Avoids '"') (there : j.Avoids '"')
    (same : i.rowBy byCode = j.rowBy byCode) : i.loaded? = j.loaded? := by
  have quotes : ∀ {k : Instruction} {dst value}, k.Avoids '"' → k.loaded? = some (dst, value) →
      '"' ∉ '\t' :: dst.toList ++ " = ".toList := by
    intro k dst value avoids load
    simpa using avoids dst (mem_names_of_loaded? load)
  cases loads : i.loaded? with
  | none =>
    cases loads' : j.loaded? with
    | none => rfl
    | some other =>
      have absent := not_mem_rowBy byCode (.inr rfl) here loads
      simp [same, toList_rowBy byCode loads'] at absent
  | some loaded =>
    cases loads' : j.loaded? with
    | none =>
      have absent := not_mem_rowBy byCode (.inr rfl) there loads'
      simp [← same, toList_rowBy byCode loads] at absent
    | some other =>
      obtain ⟨dst, value⟩ := loaded
      obtain ⟨dst', value'⟩ := other
      have rows := congrArg String.toList same
      rw [toList_rowBy byCode loads, toList_rowBy byCode loads'] at rows
      have parts := congrArg (List.splitOn '"') rows
      rw [List.splitOn_append_cons_self_of_not_mem (quotes here loads),
        List.splitOn_append_cons_self_of_not_mem (quotes there loads')] at parts
      have places := (List.cons.inj parts).1
      rw [places] at rows
      have bodies : encode byCode value.toList = encode byCode value'.toList := by
        simpa using List.append_cancel_left rows
      have names : dst = dst' := String.toList_injective (by simpa using places)
      rw [names, String.toList_injective (encode_injective byCode bodies)]

end Instruction

/-- The lines of a listing are its instructions, one each, and nothing stands behind the last. -/
theorem splitOn_listingBy (byCode : Char → Bool) {code : List Instruction}
    (hides : Text.Quoted.HidesControls byCode)
    (avoids : ∀ i ∈ code, i.Avoids '\n') :
    (listingBy byCode code).toList.splitOn '\n' =
      code.map (fun i => (i.rowBy byCode).toList) ++ [[]] := by
  induction code with
  | nil => rfl
  | cons i rest ih =>
    have first := Instruction.newline_not_mem_rowBy byCode hides (avoids i (by simp))
    have later := ih fun j member => avoids j (List.mem_cons_of_mem i member)
    have split : (listingBy byCode (i :: rest)).toList =
        (i.rowBy byCode).toList ++ '\n' :: (listingBy byCode rest).toList := by
      simp [listingBy, String.toList_join]
    rw [split, List.splitOn_append_cons_self_of_not_mem first, later, List.map_cons, List.cons_append]

/-- A string constant is written between quotes, without a control, so that the first free quote closes
it and reading what stands between gives it back. So different strings are written differently, and no
string breaks a line of a listing or stands for another instruction's line. -/
theorem string_constants_readable :
    (∀ c : Constant, c.text = c.textBy Text.isUnseen) ∧
    (∀ code, listing code = listingBy Text.isUnseen code) ∧
    Text.Quoted.HidesControls Text.isUnseen ∧
    ∀ byCode, Text.Quoted.HidesControls byCode →
      (∀ value, ∃ body, ((Constant.string value).textBy byCode).toList = '"' :: body ++ ['"'] ∧
        (∀ c ∈ body, ¬ Text.Control c) ∧
        (∀ rest, Text.Quoted.untilQuote false (body ++ '"' :: rest) = some (body, rest)) ∧
        Text.Quoted.decode body = some value.toList) ∧
      Function.Injective (fun value => (Constant.string value).textBy byCode) ∧
      (∀ code : List Instruction, (∀ i ∈ code, i.Avoids '\n') →
        (listingBy byCode code).toList.splitOn '\n' =
          code.map (fun i => (i.rowBy byCode).toList) ++ [[]]) ∧
      ∀ i j : Instruction, i.Avoids '"' → j.Avoids '"' → i.rowBy byCode = j.rowBy byCode →
        i.loaded? = j.loaded? := by
  refine ⟨Constant.text_eq, listing_eq, Text.hidesControls_isUnseen, fun byCode hides => ?_⟩
  refine ⟨fun value => ?_, Text.Quoted.quote_injective byCode, fun code => splitOn_listingBy byCode hides,
    fun i j => Instruction.loaded?_eq_of_rowBy byCode⟩
  refine ⟨Text.Quoted.encode byCode value.toList, String.toList_ofList, fun c => ?_, fun rest => ?_, ?_⟩
  · exact Text.Quoted.not_control_of_mem_encode byCode hides
  · exact Text.Quoted.untilQuote_encode byCode value.toList rest
  · exact Text.Quoted.decode_encode byCode value.toList

/-- A load of a string that would close itself, end its line and jump. -/
def spelledJump : Instruction :=
  .loadConstant ⟨"_tmp0", .frame, -8⟩ (.string "a\"\n\tGoto _L0")

theorem string_constants_readable_jump :
    (∀ i ∈ [spelledJump, .jump "_L0"], i.Avoids '\n' ∧ i.Avoids '"') ∧
    (listing [spelledJump, .jump "_L0"]).toList.splitOn '\n' =
      ["\t_tmp0 = \"a\\\"\\n\\tGoto _L0\"".toList, "\tGoto _L0".toList, []] ∧
    spelledJump.rowBy Text.isUnseen ≠ (Instruction.jump "_L0").rowBy Text.isUnseen := by
  have named : ∀ i ∈ [spelledJump, .jump "_L0"], i.Avoids '\n' ∧ i.Avoids '"' := by
    simp [spelledJump, Instruction.Avoids, Instruction.names, Instruction.operands, Instruction.symbols]
  obtain ⟨-, written, hides, readable⟩ := string_constants_readable
  obtain ⟨-, -, lines, told⟩ := readable Text.isUnseen hides
  refine ⟨named, ?_, fun same => ?_⟩
  · rw [written, lines _ fun i member => (named i member).1]
    decide +kernel
  · have loads := told _ _ (named spelledJump (by simp)).2 (named (.jump "_L0") (by simp)).2 same
    cases loads

end DecafTac
