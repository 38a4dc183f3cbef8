/-!
# Byte offsets into text

Text is a list of characters; places in it are offsets into its UTF-8 form. An offset is usable
when it lies on the boundary of a character: cuts at other offsets give nothing.

* `dropBytes?`, `takeBytes?`, `slice?` cut at boundaries only.
* `charsBefore cs n` counts the characters whose first byte lies before `n`; it is defined at
  every offset, also inside a character and past the end.
-/

namespace Manifest.Text

/-- The length of the UTF-8 form. -/
def byteLength : List Char → Nat
  | [] => 0
  | c :: cs => c.utf8Size + byteLength cs

/-- What follows the offset, if it lies on a boundary. -/
def dropBytes? : List Char → Nat → Option (List Char)
  | cs, 0 => some cs
  | [], _ + 1 => none
  | c :: cs, n + 1 => if c.utf8Size ≤ n + 1 then dropBytes? cs (n + 1 - c.utf8Size) else none

/-- What precedes the offset, if it lies on a boundary. -/
def takeBytes? : List Char → Nat → Option (List Char)
  | _, 0 => some []
  | [], _ + 1 => none
  | c :: cs, n + 1 =>
      if c.utf8Size ≤ n + 1 then (takeBytes? cs (n + 1 - c.utf8Size)).map (c :: ·) else none

/-- The text between two offsets, if both lie on boundaries and in order. -/
def slice? (cs : List Char) (start stop : Nat) : Option (List Char) :=
  if start ≤ stop then (dropBytes? cs start).bind (takeBytes? · (stop - start)) else none

/-- The text from a boundary on; nothing at any other offset. -/
def dropBytes (cs : List Char) (n : Nat) : List Char := (dropBytes? cs n).getD []

/-- The text between two boundaries; nothing at any other pair of offsets. -/
def slice (cs : List Char) (start stop : Nat) : List Char := (slice? cs start stop).getD []

/-- How many characters begin before the offset. -/
def charsBefore : List Char → Nat → Nat
  | _, 0 => 0
  | [], _ + 1 => 0
  | c :: cs, n + 1 => charsBefore cs (n + 1 - c.utf8Size) + 1

/-- Every character takes one byte. -/
def isAscii (cs : List Char) : Bool := cs.all (·.val < 128)

/-- A space or a tab. -/
def isSpaceOrTab (c : Char) : Bool := c = ' ' || c = '\t'

/-- The offset of the first place from which `wanted` holds of the rest, counted from `base`. -/
def findOffset (wanted : List Char → Bool) (base : Nat) : List Char → Option Nat
  | [] => if wanted [] then some base else none
  | c :: cs =>
      if wanted (c :: cs) then some base else findOffset wanted (base + c.utf8Size) cs

/-- Every occurrence of `old`, from left to right, becomes `new`; `old` is not empty. -/
def replace (old new : List Char) (cs : List Char) : List Char :=
  go 0 cs
where
  /-- `skip` characters of an occurrence are still to be passed over. -/
  go : Nat → List Char → List Char
    | _, [] => []
    | skip + 1, _ :: cs => go skip cs
    | 0, c :: cs =>
        if old.isPrefixOf (c :: cs) then new ++ go (old.length - 1) cs else c :: go 0 cs

/-- The longest end of the text that satisfies `p` throughout is removed. -/
def dropEndWhile (p : Char → Bool) (cs : List Char) : List Char :=
  (cs.reverse.dropWhile p).reverse

end Manifest.Text
