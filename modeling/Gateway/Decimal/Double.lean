/-!
# Double precision numbers

A finite double is `± m · 2^e` with a 53-bit significand `m`. Numbers are kept as their 64-bit
encoding, so that they have decidable equality and all arithmetic on them is on natural numbers.
-/

namespace Gateway

/-- A number of the IEEE 754 format binary64, as its encoding. -/
structure Double where
  /-- The sign bit, eleven exponent bits and fifty-two fraction bits. -/
  bits : UInt64
  deriving DecidableEq, Repr, Inhabited

namespace Double

/-- Whether the sign bit is set. -/
def isNegative (x : Double) : Bool :=
  decide (x.bits.toNat ≥ Nat.pow 2 63)

/-- The eleven exponent bits. -/
def exponentBits (x : Double) : Nat :=
  x.bits.toNat / Nat.pow 2 52 % 2048

/-- The fifty-two fraction bits. -/
def fractionBits (x : Double) : Nat :=
  x.bits.toNat % Nat.pow 2 52

/-- Whether the number is neither an infinity nor a NaN. -/
def isFinite (x : Double) : Bool :=
  x.exponentBits != 2047

/-- The significand `m` of a finite `± m · 2^e`. -/
def significand (x : Double) : Nat :=
  if x.exponentBits = 0 then x.fractionBits else x.fractionBits + Nat.pow 2 52

/-- The exponent `e` of a finite `± m · 2^e`. -/
def exponent (x : Double) : Int :=
  if x.exponentBits = 0 then -1074 else (x.exponentBits : Int) - 1075

/-- The double with the given sign and magnitude bits. -/
def ofParts (negative : Bool) (magnitude : Nat) : Double :=
  ⟨UInt64.ofNat (magnitude + if negative then Nat.pow 2 63 else 0)⟩

/-- The magnitude bits of infinity. -/
def infinityBits : Nat := 2047 * Nat.pow 2 52

/-- `numerator / denominator` rounded to the nearest natural number, a half to the even one. -/
def roundQuotient (numerator denominator : Nat) : Nat :=
  let quotient := numerator / denominator
  let rest := 2 * (numerator % denominator)
  if rest < denominator then quotient
  else if rest > denominator then quotient + 1
  else quotient + quotient % 2

/-- The magnitude bits of the double nearest to `numerator / denominator`, a half going to the even
significand. A carry out of the fraction runs into the exponent, which is the next double. -/
def nearestMagnitude (numerator denominator : Nat) : Nat :=
  if numerator = 0 then 0
  else
    -- `2^(k-1) < numerator / denominator < 2^(k+1)`
    let k : Int := (numerator.log2 : Int) - denominator.log2
    let below : Bool :=
      if k ≥ 0 then numerator < denominator * Nat.pow 2 k.toNat
      else numerator * Nat.pow 2 (-k).toNat < denominator
    let floorLog : Int := if below then k - 1 else k
    let e : Int := max (floorLog - 52) (-1074)
    let m :=
      if e ≥ 0 then roundQuotient numerator (denominator * Nat.pow 2 e.toNat)
      else roundQuotient (numerator * Nat.pow 2 (-e).toNat) denominator
    let bits := if m < Nat.pow 2 52 then m else m - Nat.pow 2 52 + (e + 1075).toNat * Nat.pow 2 52
    min bits infinityBits

/-- The double nearest to `± coefficient · 10^exponent`. -/
def ofDecimal (negative : Bool) (coefficient : Nat) (exponent : Int) : Double :=
  ofParts negative <|
    if exponent ≥ 0 then
      -- Beyond `10^400` every non-zero coefficient overflows.
      if coefficient = 0 then 0
      else if exponent > 400 then infinityBits
      else nearestMagnitude (coefficient * Nat.pow 10 exponent.toNat) 1
    else
      let digits := (toString coefficient).length
      if (exponent + digits : Int) < -400 then 0
      else nearestMagnitude coefficient (Nat.pow 10 (-exponent).toNat)

end Double

end Gateway
