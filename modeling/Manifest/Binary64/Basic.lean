/-!
# Binary floating point numbers of 64 bits

A number is its 64 bits: a sign, eleven bits of exponent and fifty-two bits of fraction. Without
its sign, a finite number is `m · 2 ^ q`, where `m` has at most fifty-three bits.
-/

namespace Manifest

/-- A floating point number, as its bits. -/
structure Binary64 where
  bits : UInt64
  deriving DecidableEq, Repr, Inhabited

namespace Binary64

/-- The bits below the sign of an infinity; larger ones are no numbers. -/
def infinityBits : Nat := 0x7FF0000000000000

/-- The bit of the sign. -/
def signBit : Nat := 0x8000000000000000

/-- A number from its sign and the bits below it. -/
def ofMagnitude (negative : Bool) (magnitude : Nat) : Binary64 :=
  ⟨UInt64.ofNat (magnitude + if negative then signBit else 0)⟩

/-- The bits below the sign. -/
def magnitude (x : Binary64) : Nat := x.bits.toNat % signBit

/-- The sign bit is set. -/
def isNegative (x : Binary64) : Bool := signBit ≤ x.bits.toNat

/-- Neither infinite nor a NaN. -/
def isFinite (x : Binary64) : Bool := x.magnitude < infinityBits

/-- Not a number. -/
def isNaN (x : Binary64) : Bool := infinityBits < x.magnitude

/-- A NaN. -/
def nan : Binary64 := ⟨0x7FF8000000000000⟩

/-- The opposite number. -/
def neg (x : Binary64) : Binary64 := ofMagnitude (!x.isNegative) x.magnitude

/-- The weight of the leading bit of a significand: two to the fifty-second. -/
def leadingBit : Nat := 0x10000000000000

/-- The significand `m` of a finite number. -/
def significand (x : Binary64) : Nat :=
  let fraction := x.magnitude % leadingBit
  if x.magnitude < leadingBit then fraction else fraction + leadingBit

/-- The exponent `q` of a finite number, plus 1074. -/
def scale (x : Binary64) : Nat := x.magnitude / leadingBit - 1

/-- Numerical equality: the two zeros are equal, and a NaN equals nothing. -/
def same (x y : Binary64) : Bool :=
  !x.isNaN && !y.isNaN && (x.bits == y.bits || (x.magnitude == 0 && y.magnitude == 0))

/-- The nearest natural number to a quotient, the even one of two. -/
def roundHalfEven (num den : Nat) : Nat :=
  let quotient := num / den
  let twice := 2 * (num % den)
  if twice < den || (twice == den && quotient % 2 == 0) then quotient else quotient + 1

/-- The largest `s` with `2 ^ (s - 1074 + 52) ≤ num / den`, or zero: the scale at which the quotient
has fifty-three bits. -/
def scaleOf (num den : Nat) : Nat :=
  let guess := Nat.log2 num + 1074 - 52 - Nat.log2 den
  if guess = 0 then 0
  else
    let leading := den * Nat.pow 2 (guess - 1074) * leadingBit
    if num * Nat.pow 2 (1074 - guess) < leading then guess - 1 else guess

/-- The bits of the number nearest to a quotient; a quotient beyond all numbers gives the bits of
an infinity. -/
def nearestBits (num den : Nat) : Nat :=
  if num = 0 then 0
  else
    let s := scaleOf num den
    let nearest := roundHalfEven (num * Nat.pow 2 (1074 - s)) (den * Nat.pow 2 (s - 1074))
    let bits := s * leadingBit + nearest
    min bits infinityBits

end Binary64

end Manifest
