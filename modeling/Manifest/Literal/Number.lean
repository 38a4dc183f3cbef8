import Manifest.Binary64.Decimal
import Manifest.Diagnostic.Code

/-!
# Number literals

An integer is written in octal (`0` and more digits), in decimal or in hexadecimal (`0x`), and
keeps its radix, so that it can be written back the way it was read. A float has a fraction or an
exponent.

* `fault?` checks the shape of a literal and names the rule it breaks.
* `Number.parse` reads a literal with an optional minus sign.
* `Number.render` writes one.
-/

namespace Manifest

/-- The radix in which an integer is written. -/
inductive Radix
  | octal
  | decimal
  | hex
  deriving DecidableEq, Repr, Inhabited

namespace Radix

/-- The base of the positional system. -/
def base : Radix → Nat
  | .octal => 8
  | .decimal => 10
  | .hex => 16

/-- What precedes the digits. -/
def mark : Radix → List Char
  | .octal => ['0']
  | .decimal => []
  | .hex => ['0', 'x']

/-- The radix with the base. -/
def ofBase? : Nat → Option Radix
  | 8 => some .octal
  | 10 => some .decimal
  | 16 => some .hex
  | _ => none

end Radix

/-- A number of the language. -/
inductive Number
  | integer (value : Int64) (radix : Radix)
  | float (x : Binary64)
  deriving DecidableEq, Repr, Inhabited

namespace Number

/-- An octal digit. -/
def isOctalDigit (c : Char) : Bool := '0' ≤ c && c ≤ '7'

/-- A hexadecimal digit, of either case. -/
def isHexDigit (c : Char) : Bool :=
  c.isDigit || ('a' ≤ c && c ≤ 'f') || ('A' ≤ c && c ≤ 'F')

/-- The value of a digit of either case. -/
def digitValue (c : Char) : Nat :=
  if c.isDigit then c.toNat - '0'.toNat
  else if 'a' ≤ c then c.toNat - 'a'.toNat + 10
  else c.toNat - 'A'.toNat + 10

/-- The value of a string of digits. -/
def positional (base : Nat) (digits : List Char) : Nat :=
  digits.foldl (fun n c => base * n + digitValue c) 0

/-! ## Shapes -/

/-- The digits of a hexadecimal literal, if the text starts like one. -/
def hexDigits? : List Char → Option (List Char)
  | '0' :: 'x' :: ds => some ds
  | '0' :: 'X' :: ds => some ds
  | _ => none

/-- The digits of an octal literal, if the text starts like one. -/
def octalDigits? : List Char → Option (List Char)
  | '0' :: c :: ds => if c = '.' then none else some (c :: ds)
  | _ => none

/-- Digits followed by a point or the mark of an exponent. -/
def startsLikeFloat (cs : List Char) : Bool :=
  let whole := cs.takeWhile Char.isDigit
  !whole.isEmpty && match cs.drop whole.length with
    | c :: _ => c = 'e' || c = 'E' || c = '.'
    | [] => false

/-- Digits, at least one, to the end of the text. -/
def allDigits (cs : List Char) : Bool := !cs.isEmpty && cs.all Char.isDigit

/-- Nothing, or an exponent: its mark, an optional minus sign and digits. -/
def isExponent : List Char → Bool
  | [] => true
  | c :: cs =>
      (c = 'e' || c = 'E') && match cs with
        | '-' :: ds => allDigits ds
        | ds => allDigits ds

/-- Digits, an optional fraction and an optional exponent. -/
def isFloat (cs : List Char) : Bool :=
  let whole := cs.takeWhile Char.isDigit
  !whole.isEmpty && match cs.drop whole.length with
    | '.' :: cs =>
        let fraction := cs.takeWhile Char.isDigit
        !fraction.isEmpty && isExponent (cs.drop fraction.length)
    | cs => isExponent cs

/-- The rule that an unsigned literal breaks. -/
def fault? (cs : List Char) : Option Code :=
  match hexDigits? cs with
  | some ds => if !ds.isEmpty && ds.all isHexDigit then none else some .illegalHex
  | none =>
    match octalDigits? cs with
    | some ds => if ds.all isOctalDigit then none else some .illegalOctal
    | none =>
      if startsLikeFloat cs then
        if isFloat cs then none else some .illegalDecimal
      else if allDigits cs then none
      else some .illegalNumber

/-! ## Reading -/

/-- Two to the sixty-third: integers of the language lie below it. -/
def integerBound : Nat := 0x8000000000000000

/-- An integer with a sign, if its magnitude is below the bound. -/
def signed? (negative : Bool) (magnitude : Nat) (radix : Radix) : Except Code Number :=
  if magnitude < integerBound then
    .ok (.integer (Int64.ofInt (if negative then -magnitude else magnitude)) radix)
  else .error .illegalNumber

/-- The digits of an integer literal and its radix; a literal of another shape has none. -/
def integerDigits? (cs : List Char) : Option (List Char × Radix) :=
  match hexDigits? cs with
  | some ds => some (ds, .hex)
  | none =>
    match octalDigits? cs with
    | some ds => some (ds, .octal)
    | none => if startsLikeFloat cs then none else some (cs, .decimal)

/-- The number that an unsigned literal and a sign denote. -/
def parseUnsigned (negative : Bool) (cs : List Char) : Except Code Number :=
  match fault? cs with
  | some code => .error code
  | none =>
    match integerDigits? cs with
    | some (ds, radix) => signed? negative (positional radix.base ds) radix
    | none =>
      match Binary64.magnitude? cs with
      | some bits => .ok (.float (.ofMagnitude negative bits))
      | none => .error .illegalDecimal

/-- The number that a literal with an optional minus sign denotes. -/
def parse : List Char → Except Code Number
  | '-' :: cs => parseUnsigned true cs
  | cs => parseUnsigned false cs

/-! ## Writing -/

/-- The digits of a natural number, with capital letters. -/
def digitsIn (radix : Radix) (n : Nat) : List Char := (Nat.toDigits radix.base n).map Char.toUpper

/-- A sign, the mark of the radix and the digits. -/
def renderInteger (value : Int64) (radix : Radix) : List Char :=
  let body := radix.mark ++ digitsIn radix value.toInt.natAbs
  if value < 0 then '-' :: body else body

/-- The literal of a number, in the radix it was read in. -/
def render : Number → List Char
  | .integer value radix => renderInteger value radix
  | .float x => x.render

/-- The literal of a number, as a string. -/
def toText (n : Number) : String := String.ofList n.render

end Number

/-- The integer that a decimal numeral with an optional minus sign denotes, if it has 64 bits. -/
def int64OfText? (cs : List Char) : Option Int64 :=
  let (negative, digits) := match cs with
    | '-' :: ds => (true, ds)
    | ds => (false, ds)
  let n : Int := Number.positional 10 digits
  let value := if negative then -n else n
  let bound : Int := Number.integerBound
  if Number.allDigits digits && -bound ≤ value && value < bound then some (Int64.ofInt value)
  else none

/-- A decimal numeral. -/
def textOfInt64 (i : Int64) : String := String.ofList (Binary64.integerText i.toInt)

end Manifest
