/-!
The fewest decimal digits that read back. A positive double is `m · 2 ^ q`; a decimal reads back as it
when it lies between the two points halfway to the neighbouring doubles, and the points themselves
count when `m` is even. On the grid of decimals with a given last place only the two neighbours of
the value can be the nearest, so the search tries those two, place by place. All arithmetic is exact.
-/
namespace DecafTac.Decimal

/-- A positive double: `m · 2 ^ q`, and whether the double below it is only half as far away as the
one above. -/
structure Dyadic where
  m : Nat
  q : Int
  closeBelow : Bool
  deriving DecidableEq, Inhabited

/-- The number `digits · 10 ^ place`. -/
structure Scaled where
  digits : Nat
  place : Int
  deriving DecidableEq, Inhabited

/-- Whether `d · 10 ^ k` is at most `a · 2 ^ q`. -/
def atMost (d : Nat) (k : Int) (a : Nat) (q : Int) : Bool :=
  d * Nat.pow 10 k.toNat * Nat.pow 2 (-q).toNat ≤ a * Nat.pow 2 q.toNat * Nat.pow 10 (-k).toNat

/-- Whether `d · 10 ^ k` is at least `a · 2 ^ q`. -/
def atLeast (d : Nat) (k : Int) (a : Nat) (q : Int) : Bool :=
  a * Nat.pow 2 q.toNat * Nat.pow 10 (-k).toNat ≤ d * Nat.pow 10 k.toNat * Nat.pow 2 (-q).toNat

/-- The largest `d` with `d · 10 ^ k ≤ a · 2 ^ q`. -/
def floorAt (a : Nat) (q k : Int) : Nat :=
  a * Nat.pow 2 q.toNat * Nat.pow 10 (-k).toNat / (Nat.pow 10 k.toNat * Nat.pow 2 (-q).toNat)

namespace Dyadic

/-- Whether the decimal reads back as the double. In quarters of a unit of `m`, the halfway points
are two above and two below, or one below where the double below is close. -/
def readsBack (x : Dyadic) (s : Scaled) : Bool :=
  let quarter := x.q - 2
  let low := 4 * x.m - (if x.closeBelow then 1 else 2)
  let high := 4 * x.m + 2
  if x.m % 2 = 0 then
    atLeast s.digits s.place low quarter && atMost s.digits s.place high quarter
  else
    !atMost s.digits s.place low quarter && !atLeast s.digits s.place high quarter

/-- How many zeros follow the point directly in a double below one. No double has as many as 400. -/
def zerosAfterPoint (x : Dyadic) : Nat :=
  ((List.range 400).takeWhile fun n => floorAt x.m x.q (Int.negSucc n) = 0).length

/-- How many digits the double has before the point, or how many zeros after it, counted down. -/
def pointAfter (x : Dyadic) : Int :=
  let whole := floorAt x.m x.q 0
  if whole = 0 then Int.neg x.zerosAfterPoint else (Nat.toDigits 10 whole).length

/-- The better of the two neighbours with last place `k`, among those that read back. A double
halfway between two neighbours goes to the larger. -/
def nearestAt (x : Dyadic) (k : Int) : Option Scaled :=
  let d := floorAt x.m x.q k
  let below : Scaled := ⟨d, k⟩
  let above : Scaled := ⟨d + 1, k⟩
  match x.readsBack below, x.readsBack above with
  | true, true => some (if atLeast (2 * d + 1) k (2 * x.m) x.q && !atMost (2 * d + 1) k (2 * x.m) x.q
      then below else above)
  | true, false => some below
  | false, true => some above
  | false, false => none

/-- The decimal with the fewest digits that reads back. Seventeen digits always suffice. -/
def shortest (x : Dyadic) : Scaled :=
  let point := x.pointAfter
  let found := (List.range 17).findSome? fun n => x.nearestAt (point - (n + 1 : Nat))
  found.getD ⟨floorAt x.m x.q (point - 17), point - 17⟩

end Dyadic

end DecafTac.Decimal
