import DecafTac.Decimal.Shortest

/-!
Doubles in positional notation: the fewest digits that read back, never an exponent, and no point
where nothing stands after it.
-/
namespace DecafTac.Decimal

/-- Takes zeros off the end of the digits, moving the place up. -/
def trimZeros (digits : List Char) (place : Int) : List Char × Int :=
  let zeros := (digits.reverse.takeWhile (· == '0')).length
  (digits.take (digits.length - zeros), place + zeros)

/-- Writes a positive number with every place that it needs and no other. -/
def positional (s : Scaled) : String :=
  let (digits, place) := trimZeros (Nat.toDigits 10 s.digits) s.place
  let point := digits.length + place
  String.ofList <|
    if 0 ≤ place then digits ++ List.replicate place.toNat '0'
    else if 0 < point then digits.take point.toNat ++ '.' :: digits.drop point.toNat
    else '0' :: '.' :: List.replicate (-point).toNat '0' ++ digits

/-- Fields of a double's bits: the sign, the exponent field and the fraction field. -/
structure Fields where
  negative : Bool
  exponent : Nat
  fraction : Nat
  deriving DecidableEq, Inhabited

def Fields.ofBits (bits : UInt64) : Fields where
  negative := bits.toNat / Nat.pow 2 63 = 1
  exponent := bits.toNat / Nat.pow 2 52 % Nat.pow 2 11
  fraction := bits.toNat % Nat.pow 2 52

/-- The absolute value of a finite double that is not zero. -/
def Fields.magnitude (f : Fields) : Dyadic :=
  if f.exponent = 0 then ⟨f.fraction, -1074, false⟩
  else ⟨Nat.pow 2 52 + f.fraction, f.exponent - 1075, f.fraction = 0 && 1 < f.exponent⟩

/-- A double as text. Zero keeps its sign, and a value that is not a number has none. -/
def text (bits : UInt64) : String :=
  let f := Fields.ofBits bits
  let sign := if f.negative then "-" else ""
  if f.exponent = 2047 then
    if f.fraction = 0 then sign ++ "inf" else "NaN"
  else if f.exponent = 0 ∧ f.fraction = 0 then sign ++ "0"
  else sign ++ positional f.magnitude.shortest

end DecafTac.Decimal
