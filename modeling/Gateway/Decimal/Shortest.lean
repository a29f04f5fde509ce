import Gateway.Decimal.Double

/-!
# Shortest decimal digits

The fewest decimal digits that read back as a given double: the reals that round to the double form
an interval, and the first decimal grid (by number of digits) with a point of the interval gives the
digits. Of two points of that grid the nearer one is taken, and of two equally near the even one.
-/

namespace Gateway

/-- A decimal number `digits · 10^exponent`. -/
structure Decimal where
  /-- The coefficient. -/
  digits : Nat
  /-- The power of ten. -/
  exponent : Int
  deriving DecidableEq, Repr

namespace Decimal

/-- Drops trailing zeros of the coefficient, at most as many as the fuel. -/
def trim : Nat → Decimal → Decimal
  | 0, d => d
  | fuel + 1, d =>
    if d.digits ≠ 0 ∧ d.digits % 10 = 0 then trim fuel ⟨d.digits / 10, d.exponent + 1⟩ else d

end Decimal

namespace Double

/-- A positive fraction. -/
structure Ratio where
  /-- The numerator. -/
  num : Nat
  /-- The denominator. -/
  den : Nat

/-- `m · 2^e` as a fraction. -/
def Ratio.scaled (m : Nat) (e : Int) : Ratio :=
  if e ≥ 0 then ⟨m * Nat.pow 2 e.toNat, 1⟩ else ⟨m, Nat.pow 2 (-e).toNat⟩

/-- `n · 10^k` as a fraction. -/
def Ratio.decimal (n : Nat) (k : Int) : Ratio :=
  if k ≥ 0 then ⟨n * Nat.pow 10 k.toNat, 1⟩ else ⟨n, Nat.pow 10 (-k).toNat⟩

/-- Whether one fraction is below another. -/
def Ratio.lt (a b : Ratio) : Bool :=
  decide (a.num * b.den < b.num * a.den)

/-- The distance of two fractions. -/
def Ratio.distance (a b : Ratio) : Ratio :=
  let x := a.num * b.den
  let y := b.num * a.den
  ⟨if x ≤ y then y - x else x - y, a.den * b.den⟩

/-- The interval of reals that round to a positive double. -/
structure Interval where
  /-- The lower end. -/
  low : Ratio
  /-- The upper end. -/
  high : Ratio
  /-- Whether the ends belong to the interval. -/
  closed : Bool

/-- Whether the fraction lies in the interval. -/
def Interval.holds (i : Interval) (r : Ratio) : Bool :=
  (i.low.lt r || (i.closed && !r.lt i.low)) && (r.lt i.high || (i.closed && !i.high.lt r))

/-- The interval of a positive finite double: half a step to each neighbour, where the step below a
power of two is half as wide; the ends belong to it when the significand is even. -/
def interval (x : Double) : Interval :=
  let m := x.significand
  let e := x.exponent
  let low :=
    if x.fractionBits = 0 ∧ x.exponentBits > 1 then Ratio.scaled (4 * m - 1) (e - 2)
    else Ratio.scaled (2 * m - 1) (e - 1)
  ⟨low, Ratio.scaled (2 * m + 1) (e - 1), m % 2 == 0⟩

/-- The exponent `k` with `10^k ≤ r < 10^(k+1)`, searched downwards from an upper bound. -/
def floorLog10 (r : Ratio) : Nat → Int → Int
  | 0, k => k
  | fuel + 1, k => if r.lt (Ratio.decimal 1 k) then floorLog10 r fuel (k - 1) else k

/-- The better of the two grid points around the value on the grid of step `10^k`. -/
def gridPoint (value : Ratio) (i : Interval) (k : Int) : Option Decimal :=
  let floor :=
    if k ≥ 0 then value.num / (value.den * Nat.pow 10 k.toNat)
    else value.num * Nat.pow 10 (-k).toNat / value.den
  let lower := Ratio.decimal floor k
  let upper := Ratio.decimal (floor + 1) k
  match i.holds lower && floor ≠ 0, i.holds upper with
  | false, false => none
  | true, false => some ⟨floor, k⟩
  | false, true => some ⟨floor + 1, k⟩
  | true, true =>
    let below := Ratio.distance value lower
    let above := Ratio.distance value upper
    if below.lt above then some ⟨floor, k⟩
    else if above.lt below then some ⟨floor + 1, k⟩
    else some ⟨if floor % 2 = 0 then floor else floor + 1, k⟩

/-- Tries the grids of ever more digits, ending with the exact one of seventeen. -/
def firstGrid (value : Ratio) (i : Interval) : Nat → Int → Decimal
  | 0, k => ⟨value.num / value.den, k⟩
  | fuel + 1, k => (gridPoint value i k).getD (firstGrid value i fuel (k - 1))

/-- The shortest decimal that rounds to the magnitude of a finite double. -/
def shortest (x : Double) : Decimal :=
  if x.significand = 0 then ⟨0, 0⟩
  else
    let value := Ratio.scaled x.significand x.exponent
    let start : Int := (x.significand.log2 + x.exponent) * 30103 / 100000 + 1
    let k := floorLog10 value 4 start
    (firstGrid value x.interval 17 k).trim 20

end Double

end Gateway
