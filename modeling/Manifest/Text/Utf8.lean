/-!
# Reading UTF-8

Bytes become characters by the table of well-formed sequences: no overlong form, no surrogate,
nothing above U+10FFFF. The first ill-formed place is reported as the number of valid bytes
before it.
-/

namespace Manifest.Text

/-- A byte of the form `10xxxxxx`. -/
def isContinuation (b : UInt8) : Bool := 0x80 ≤ b && b ≤ 0xBF

/-- The six payload bits of a continuation byte. -/
def payload (b : UInt8) : Nat := b.toNat % 64

/-- The well-formed character at the front and its length in bytes. -/
def decodeChar? : List UInt8 → Option (Char × Nat)
  | [] => none
  | a :: bs =>
      if a < 0x80 then some (Char.ofNat a.toNat, 1)
      else if 0xC2 ≤ a && a ≤ 0xDF then
        match bs with
        | b :: _ =>
            if isContinuation b then some (Char.ofNat ((a.toNat % 32) * 64 + payload b), 2)
            else none
        | _ => none
      else if 0xE0 ≤ a && a ≤ 0xEF then
        match bs with
        | b :: c :: _ =>
            let low : UInt8 := if a == 0xE0 then 0xA0 else 0x80
            let high : UInt8 := if a == 0xED then 0x9F else 0xBF
            if low ≤ b && b ≤ high && isContinuation c then
              some (Char.ofNat (((a.toNat % 16) * 64 + payload b) * 64 + payload c), 3)
            else none
        | _ => none
      else if 0xF0 ≤ a && a ≤ 0xF4 then
        match bs with
        | b :: c :: d :: _ =>
            let low : UInt8 := if a == 0xF0 then 0x90 else 0x80
            let high : UInt8 := if a == 0xF4 then 0x8F else 0xBF
            if low ≤ b && b ≤ high && isContinuation c && isContinuation d then
              some (Char.ofNat
                ((((a.toNat % 8) * 64 + payload b) * 64 + payload c) * 64 + payload d), 4)
            else none
        | _ => none
      else none

/-- The longest well-formed start of the bytes, and whether that is all of them. -/
def decodeUtf8 : List UInt8 → List Char × Bool :=
  go 0
where
  /-- `skip` bytes of the last character are still to be passed over. -/
  go : Nat → List UInt8 → List Char × Bool
    | _, [] => ([], true)
    | skip + 1, _ :: bs => go skip bs
    | 0, b :: bs =>
        match decodeChar? (b :: bs) with
        | some (c, n) =>
            let (cs, whole) := go (n - 1) bs
            (c :: cs, whole)
        | none => ([], false)

/-- The UTF-8 form of a text. -/
def encodeUtf8 (cs : List Char) : List UInt8 := (String.ofList cs).toUTF8.toList

end Manifest.Text
