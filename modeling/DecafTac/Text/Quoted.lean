/-!
Text in double quotes. The quote, the backslash and the usual controls have two-character escapes; a
character of a chosen class is written by its code point in hexadecimal; all others stand for
themselves. Which characters are written by code point is a parameter.
-/
namespace DecafTac.Text.Quoted

/-- The escape of a character that has one of its own. -/
def shortEscape? (c : Char) : Option Char :=
  if c = '\x00' then some '0'
  else if c = '\t' then some 't'
  else if c = '\r' then some 'r'
  else if c = '\n' then some 'n'
  else if c = '"' then some '"'
  else if c = '\\' then some '\\'
  else none

/-- A character by its code point, in hexadecimal digits between braces. -/
def codePoint (c : Char) : List Char :=
  ['\\', 'u', '\x7b'] ++ Nat.toDigits 16 c.toNat ++ ['\x7d']

/-- A character as it stands between the quotes. -/
def encodeChar (byCode : Char → Bool) (c : Char) : List Char :=
  match shortEscape? c with
  | some mark => ['\\', mark]
  | none => if byCode c then codePoint c else [c]

/-- The characters between the quotes. -/
def encode (byCode : Char → Bool) (text : List Char) : List Char :=
  text.flatMap (encodeChar byCode)

/-- A text in double quotes. -/
def quote (byCode : Char → Bool) (text : String) : String :=
  String.ofList ('"' :: encode byCode text.toList ++ ['"'])

end DecafTac.Text.Quoted
