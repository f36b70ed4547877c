import Mathlib.Logic.Function.Basic
import DecafTac.Text.Quoted

/-!
Reading quoted text back. A reader takes the escapes apart one character at a time and refuses what is no
escape, and a scanner goes to the first quote that no backslash escapes. Whatever characters are written
by code point, the scanner comes to the closing quote of a quoted text and to no other, and the reader
gives the text back; so different texts are written differently. If controls without an escape of their
own are written by code point, no control stands in a quoted text.
-/
namespace DecafTac.Text

/-- The control characters. -/
def Control (c : Char) : Prop := c.toNat < 0x20 ∨ 0x7F ≤ c.toNat ∧ c.toNat ≤ 0x9F

instance (c : Char) : Decidable (Control c) :=
  inferInstanceAs (Decidable (c.toNat < 0x20 ∨ 0x7F ≤ c.toNat ∧ c.toNat ≤ 0x9F))

namespace Quoted

/-! ## Reading -/

/-- The character that a mark after a backslash stands for. -/
def unmark? (mark : Char) : Option Char :=
  if mark = '0' then some '\x00'
  else if mark = 't' then some '\t'
  else if mark = 'r' then some '\r'
  else if mark = 'n' then some '\n'
  else if mark = '"' then some '"'
  else if mark = '\\' then some '\\'
  else none

/-- The value of a hexadecimal digit in lower case. -/
def hexValue? (c : Char) : Option Nat :=
  if '0' ≤ c ∧ c ≤ '9' then some (c.toNat - '0'.toNat)
  else if 'a' ≤ c ∧ c ≤ 'f' then some (c.toNat - 'a'.toNat + 10)
  else none

/-- The character of a code point, where digits were read and there is one. -/
def ofCode? (value : Option Nat) : Option Char :=
  value.bind fun n => if n.isValidChar then some (Char.ofNat n) else none

theorem ofCode?_toNat (c : Char) : ofCode? (some c.toNat) = some c := by
  have valid : c.toNat.isValidChar := c.valid
  rw [ofCode?, Option.bind_some, if_pos valid, Char.ofNat_toNat]

/-- Where a reader stands: between characters, after a backslash, before the brace of a code point, or
among its digits, with their value so far. -/
inductive Reading where
  | plain
  | escape
  | brace
  | code (value : Option Nat)

/-- Reads escaped text from where the reader stands. A quote that no backslash escapes is refused, and so
is an escape that is none. -/
def decodeFrom : Reading → List Char → Option (List Char)
  | .plain, [] => some []
  | .plain, c :: rest =>
    if c = '\\' then decodeFrom .escape rest
    else if c = '"' then none
    else (decodeFrom .plain rest).map (c :: ·)
  | .escape, c :: rest =>
    if c = 'u' then decodeFrom .brace rest
    else (unmark? c).bind fun meant => (decodeFrom .plain rest).map (meant :: ·)
  | .brace, c :: rest => if c = '\x7b' then decodeFrom (.code none) rest else none
  | .code value, c :: rest =>
    if c = '\x7d' then (ofCode? value).bind fun meant => (decodeFrom .plain rest).map (meant :: ·)
    else (hexValue? c).bind fun digit => decodeFrom (.code (some (16 * value.getD 0 + digit))) rest
  | .escape, [] | .brace, [] | .code _, [] => none

/-- Reads escaped text. -/
def decode (text : List Char) : Option (List Char) := decodeFrom .plain text

/-- The text before the first quote that no backslash escapes, and the text after it. The flag says
whether a backslash stands before. -/
def untilQuote (escaped : Bool) : List Char → Option (List Char × List Char)
  | [] => none
  | c :: rest =>
    if c = '"' ∧ escaped = false then some ([], rest)
    else (untilQuote (c == '\\' && !escaped) rest).map fun found => (c :: found.1, found.2)

/-- Controls are written by an escape of their own or by code point. -/
def HidesControls (byCode : Char → Bool) : Prop :=
  ∀ c, Control c → (shortEscape? c).isSome ∨ byCode c = true

/-! ## Digits -/

/-- A digit is read as its value and is none of the characters that mean something to the reader. -/
private theorem digitChar_facts {d : Nat} (small : d < 16) :
    hexValue? d.digitChar = some d ∧ d.digitChar ≠ '\x7d' ∧ d.digitChar ≠ '"' ∧
      d.digitChar ≠ '\\' ∧ ¬ Control d.digitChar := by
  revert d
  decide

/-- The digits of a number are read as that number. -/
private theorem decodeFrom_digits (n : Nat) (rest : List Char) :
    decodeFrom (.code none) (Nat.toDigits 16 n ++ rest) = decodeFrom (.code (some n)) rest := by
  induction n using Nat.strongRecOn generalizing rest with
  | _ n ih =>
    rw [Nat.toDigits_eq_if (by decide)]
    split
    · rename_i small
      obtain ⟨read, inside, -⟩ := digitChar_facts small
      simp [decodeFrom, read, inside]
    · have smaller : n / 16 < n := by omega
      obtain ⟨read, inside, -⟩ := digitChar_facts (Nat.mod_lt n (by decide : 0 < 16))
      rw [List.append_assoc, ih _ smaller]
      simp [decodeFrom, read, inside, Nat.div_add_mod]

private theorem mem_digits {n : Nat} {c : Char} (member : c ∈ Nat.toDigits 16 n) :
    ∃ d < 16, c = d.digitChar := by
  induction n using Nat.strongRecOn with
  | _ n ih =>
    rw [Nat.toDigits_eq_if (by decide)] at member
    split at member
    · rename_i small
      exact ⟨n, small, List.mem_singleton.mp member⟩
    · rcases List.mem_append.mp member with high | low
      · exact ih (n / 16) (by omega) high
      · exact ⟨n % 16, Nat.mod_lt n (by decide), List.mem_singleton.mp low⟩

/-- Behind its mark a code point has no quote, no backslash and no control. -/
private theorem codePoint_cases (c : Char) :
    ∃ more, codePoint c = '\\' :: 'u' :: more ∧ ∀ x ∈ more, x ≠ '"' ∧ x ≠ '\\' ∧ ¬ Control x := by
  refine ⟨'\x7b' :: (Nat.toDigits 16 c.toNat ++ ['\x7d']), rfl, fun x member => ?_⟩
  rw [List.mem_cons, List.mem_append, List.mem_singleton] at member
  rcases member with rfl | digit | rfl
  · decide
  · obtain ⟨d, small, rfl⟩ := mem_digits digit
    obtain ⟨-, -, facts⟩ := digitChar_facts small
    exact facts
  · decide

/-! ## One character -/

section Char

variable (byCode : Char → Bool) (c : Char)

/-- The ways in which a character is written. -/
private theorem encodeChar_cases :
    (∃ mark, encodeChar byCode c = ['\\', mark] ∧ unmark? mark = some c ∧ mark ≠ 'u' ∧ ¬ Control mark) ∨
    encodeChar byCode c = codePoint c ∨
    (encodeChar byCode c = [c] ∧ c ≠ '"' ∧ c ≠ '\\' ∧ shortEscape? c = none ∧ byCode c = false) := by
  unfold encodeChar
  split
  · rename_i mark escape
    refine .inl ⟨mark, rfl, ?_⟩
    unfold shortEscape? at escape
    repeat' split at escape
    all_goals cases escape
    all_goals subst_vars; decide
  · rename_i none
    split
    · exact .inr (.inl rfl)
    · rename_i copied
      refine .inr (.inr ⟨rfl, ?_, ?_, none, by simpa using copied⟩)
      · rintro rfl
        cases none
      · rintro rfl
        cases none

private theorem decodeFrom_encodeChar (rest : List Char) :
    decodeFrom .plain (encodeChar byCode c ++ rest) = (decodeFrom .plain rest).map (c :: ·) := by
  rcases encodeChar_cases byCode c with
    ⟨mark, written, meant, other, -⟩ | written | ⟨written, quote, slash, -⟩
  · simp [written, decodeFrom, meant, other]
  · rw [written, codePoint, List.append_assoc, List.append_assoc]
    simp [decodeFrom, decodeFrom_digits, ofCode?_toNat]
  · simp [written, decodeFrom, quote, slash]

private theorem untilQuote_copied {written : List Char} (rest : List Char)
    (copied : ∀ x ∈ written, x ≠ '"' ∧ x ≠ '\\') :
    untilQuote false (written ++ rest) =
      (untilQuote false rest).map fun found => (written ++ found.1, found.2) := by
  induction written with
  | nil => simp
  | cons x more ih =>
    obtain ⟨quote, slash⟩ := copied x (by simp)
    have later := ih fun y member => copied y (List.mem_cons_of_mem x member)
    simp [untilQuote, quote, beq_false_of_ne slash, later, Function.comp_def]

private theorem untilQuote_encodeChar (rest : List Char) :
    untilQuote false (encodeChar byCode c ++ rest) =
      (untilQuote false rest).map fun found => (encodeChar byCode c ++ found.1, found.2) := by
  rcases encodeChar_cases byCode c with ⟨mark, written, -⟩ | written | ⟨written, quote, slash, -⟩
  · simp [written, untilQuote, Function.comp_def]
  · obtain ⟨more, listed, copied⟩ := codePoint_cases c
    have later := untilQuote_copied rest fun x member => ⟨(copied x member).1, (copied x member).2.1⟩
    simp [written, listed, untilQuote, later, Function.comp_def]
  · rw [written]
    exact untilQuote_copied rest (by simp [quote, slash])

end Char

section Text

variable (byCode : Char → Bool)

/-- Reading gives back what was written. -/
theorem decode_encode (text : List Char) : decode (encode byCode text) = some text := by
  induction text with
  | nil => rfl
  | cons c rest ih =>
    rw [decode, encode, List.flatMap_cons, decodeFrom_encodeChar]
    exact congrArg (Option.map (c :: ·)) ih

/-- The first quote behind written text that no backslash escapes is the one that closes it. -/
theorem untilQuote_encode (text rest : List Char) :
    untilQuote false (encode byCode text ++ '"' :: rest) = some (encode byCode text, rest) := by
  induction text with
  | nil => rfl
  | cons c more ih =>
    rw [encode, List.flatMap_cons, List.append_assoc, untilQuote_encodeChar]
    exact congrArg (Option.map _) ih

theorem not_control_of_mem_encode (hides : HidesControls byCode) {text : List Char} {x : Char}
    (member : x ∈ encode byCode text) : ¬ Control x := by
  obtain ⟨c, -, inside⟩ := List.mem_flatMap.mp member
  rcases encodeChar_cases byCode c with
    ⟨mark, written, -, -, visible⟩ | written | ⟨written, -, -, plain, copied⟩
  · rw [written, List.mem_cons, List.mem_singleton] at inside
    rcases inside with rfl | rfl
    · decide
    · exact visible
  · obtain ⟨more, listed, facts⟩ := codePoint_cases c
    rw [written, listed, List.mem_cons, List.mem_cons] at inside
    rcases inside with rfl | rfl | inside
    · decide
    · decide
    · exact (facts x inside).2.2
  · rw [written, List.mem_singleton] at inside
    subst inside
    intro control
    simpa [plain, copied] using hides x control

/-- Different texts are written differently. -/
theorem encode_injective : Function.Injective (encode byCode) := by
  intro text other same
  have read := (decode_encode byCode text).symm.trans (same ▸ decode_encode byCode other)
  exact Option.some.inj read

theorem quote_injective : Function.Injective (quote byCode) := by
  intro text other same
  have bodies : encode byCode text.toList = encode byCode other.toList := by
    simpa [quote] using congrArg String.toList same
  exact String.toList_injective (encode_injective byCode bodies)

end Text
end Quoted
end DecafTac.Text
