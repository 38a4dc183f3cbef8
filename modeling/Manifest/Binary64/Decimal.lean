import Manifest.Binary64.Basic

/-!
# Decimal text of floating point numbers

Reading takes a sign, digits with a point, and an exponent, or one of the words for infinity and
NaN, and rounds to the nearest number. Writing takes the fewest digits that read back.

* `nearest` rounds `digits · 10 ^ exponent`.
* `shortest` finds, for one digit, two digits and so on, whether one of the two neighbours on that
  decimal grid reads back; of two that do, the nearer wins, and the larger one on a tie.
* `render` writes positionally from `0.0001` up to below `10 ^ 16`, and always with a fraction;
  outside it writes an exponent.
-/

namespace Manifest.Binary64

/-- The bits nearest to `digits · 10 ^ exponent`. -/
def nearestDecimal (digits : Nat) (exponent : Int) : Nat :=
  nearestBits (digits * Nat.pow 10 exponent.toNat) (Nat.pow 10 (-exponent).toNat)

/-- The value of a string of decimal digits. -/
def digitsValue (cs : List Char) : Nat := cs.foldl (fun n c => 10 * n + (c.toNat - '0'.toNat)) 0

/-- A number of digits beyond which the size of a number is settled: every number lies below
`10 ^ 310`, and what lies below `10 ^ -330` rounds to zero. -/
def nearest (digits : List Char) (exponent : Int) : Nat :=
  let digits := digits.dropWhile (· == '0')
  let size := exponent + digits.length
  if digits.isEmpty || size < -330 then 0
  else if 310 < size then infinityBits
  else nearestDecimal (digitsValue digits) exponent

/-! ## Reading -/

/-- A sign at the front, and what follows. -/
def takeSign : List Char → Bool × List Char
  | '-' :: cs => (true, cs)
  | '+' :: cs => (false, cs)
  | cs => (false, cs)

/-- An exponent, to the end of the text; absent, it is zero. -/
def exponent? : List Char → Option Int
  | [] => some 0
  | c :: cs =>
      if c = 'e' || c = 'E' then
        let (negative, digits) := takeSign cs
        if digits.isEmpty || !digits.all Char.isDigit then none
        else some (if negative then -(digitsValue digits : Int) else digitsValue digits)
      else none

/-- Digits with an optional point and an optional exponent, at least one digit in all. -/
def magnitude? (cs : List Char) : Option Nat :=
  let whole := cs.takeWhile Char.isDigit
  let rest := cs.drop whole.length
  let (fraction, rest) :=
    match rest with
    | '.' :: rest =>
        let fraction := rest.takeWhile Char.isDigit
        (fraction, rest.drop fraction.length)
    | _ => ([], rest)
  if whole.isEmpty && fraction.isEmpty then none
  else (exponent? rest).map fun e => nearest (whole ++ fraction) (e - fraction.length)

/-- The number that a text denotes. -/
def ofText? (cs : List Char) : Option Binary64 :=
  let (negative, body) := takeSign cs
  let word := String.ofList (body.map Char.toLower)
  if word == "inf" || word == "infinity" then some (ofMagnitude negative infinityBits)
  else if word == "nan" then some (if negative then nan.neg else nan)
  else (magnitude? body).map (ofMagnitude negative)

/-! ## Writing -/

/-- A finite magnitude as a quotient. -/
def quotient (x : Binary64) : Nat × Nat :=
  (x.significand * Nat.pow 2 (x.scale - 1074), Nat.pow 2 (1074 - x.scale))

/-- How many steps of ten lift the quotient to one or more; `fuel` bounds the search. -/
def stepsBelowOne (num den : Nat) : Nat → Nat
  | 0 => 0
  | fuel + 1 => if den ≤ num then 0 else stepsBelowOne (num * 10) den fuel + 1

/-- The place of the decimal point: the quotient lies below `10 ^ p` and not below
`10 ^ (p - 1)`. -/
def pointOf (num den : Nat) : Int :=
  if den ≤ num then ((Nat.toDigits 10 (num / den)).length : Int)
  else 1 - (stepsBelowOne num den 400 : Int)

/-- Of the two neighbours with `n` digits, the one that reads back and is nearer. -/
def candidate? (bits num den : Nat) (unit : Int) : Option Nat :=
  let top := num * Nat.pow 10 (-unit).toNat
  let bottom := den * Nat.pow 10 unit.toNat
  let low := top / bottom
  let lowReads := nearestDecimal low unit == bits
  let highReads := nearestDecimal (low + 1) unit == bits
  if highReads && (!lowReads || bottom ≤ 2 * (top % bottom)) then some (low + 1)
  else if lowReads then some low
  else none

/-- The fewest digits that read back, trying `n` digits and then more, and the power of ten of the
last one. When seventeen digits do not suffice, all of them are given. -/
def shortestFrom (bits num den : Nat) (point : Int) : Nat → Nat → Nat × Int
  | 0, _ => (num * Nat.pow 10 1074 / den, -1074)
  | tries + 1, n =>
      let unit := point - n
      match candidate? bits num den unit with
      | some digits => (digits, unit)
      | none => shortestFrom bits num den point tries (n + 1)

/-- The fewest digits that read back, and the power of ten of the last one. -/
def shortest (x : Binary64) : Nat × Int :=
  let (num, den) := x.quotient
  shortestFrom x.magnitude num den (pointOf num den) 17 1

/-- Digits without the zeros at the end, and how many those were. -/
def trimZeros (digits : List Char) : List Char × Nat :=
  let kept := (digits.reverse.dropWhile (· == '0')).reverse
  (kept, digits.length - kept.length)

/-- Positional notation of `0.digits · 10 ^ point`, with at least one digit on each side. -/
def positional (digits : List Char) (point : Int) : List Char :=
  if point ≤ 0 then '0' :: '.' :: List.replicate (-point).toNat '0' ++ digits
  else
    let n := point.toNat
    if digits.length ≤ n then
      digits ++ List.replicate (n - digits.length) '0' ++ ['.', '0']
    else digits.take n ++ '.' :: digits.drop n

/-- A decimal integer. -/
def integerText (i : Int) : List Char :=
  if i < 0 then '-' :: Nat.toDigits 10 i.natAbs else Nat.toDigits 10 i.natAbs

/-- Notation of `0.digits · 10 ^ point` with an exponent. -/
def scientific (digits : List Char) (point : Int) : List Char :=
  match digits with
  | [] => []
  | d :: ds =>
      d :: ((if ds.isEmpty then [] else '.' :: ds) ++ 'e' :: integerText (point - 1))

/-- The text of a finite magnitude that is not zero. -/
def magnitudeText (x : Binary64) : List Char :=
  let (value, unit) := x.shortest
  let (digits, zeros) := trimZeros (Nat.toDigits 10 value)
  let point := unit + zeros + digits.length
  if -3 ≤ point && point ≤ 16 then positional digits point else scientific digits point

/-- The text of a number. -/
def render (x : Binary64) : List Char :=
  if x.isNaN then ['N', 'a', 'N']
  else
    let body :=
      if !x.isFinite then ['i', 'n', 'f']
      else if x.magnitude = 0 then ['0', '.', '0']
      else x.magnitudeText
    if x.isNegative then '-' :: body else body

/-- The text of a number, as a string. -/
def toText (x : Binary64) : String := String.ofList x.render

end Manifest.Binary64
