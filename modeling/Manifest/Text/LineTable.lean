import Manifest.Text.Bytes

/-!
# Line tables

A line table lists the offsets at which the lines of a text start. The line of an offset is found
by bisection; a *finger* remembers the line of the last question, and is used again when the next
question falls on the same line. Lines are counted from zero here.
-/

namespace Manifest.Text

/-- The offsets at which lines start, in order. -/
structure LineTable where
  starts : Array Nat
  deriving DecidableEq, Repr, Inhabited

namespace LineTable

/-- The offsets that follow a line feed, for text that begins at `offset`. -/
def startsAfterFeeds (offset : Nat) : List Char → List Nat
  | [] => []
  | c :: cs =>
      let next := offset + c.utf8Size
      if c = '\n' then next :: startsAfterFeeds next cs else startsAfterFeeds next cs

/-- The first line starts at zero, every other one after a line feed. -/
def ofText (cs : List Char) : LineTable := ⟨(0 :: startsAfterFeeds 0 cs).toArray⟩

/-- The offset at which a line starts, zero for a line that is not in the table. -/
def start (t : LineTable) (slot : Nat) : Nat := t.starts.getD slot 0

/-- Bisection between `base` and `base + size`: the last line of the stretch that starts at or
before the offset, or `base` when none does. -/
def bisect (t : LineTable) (offset base size : Nat) : Nat :=
  if 1 < size then
    let half := size / 2
    let middle := base + half
    bisect t offset (if t.start middle ≤ offset then middle else base) (size - half)
  else base
termination_by size
decreasing_by omega

/-- The line of an offset: as many lines as start at or before it, less one. -/
def search (t : LineTable) (offset : Nat) : Nat := t.bisect offset 0 t.starts.size

/-- Whether the line holds the offset; the last line holds all that follows. -/
def holds (t : LineTable) (slot offset : Nat) : Bool :=
  match t.starts[slot]? with
  | none => false
  | some first =>
      first ≤ offset && match t.starts[slot + 1]? with
        | none => true
        | some next => offset < next

/-- The line of an offset, asked with the line of the last question at hand. -/
def slotFrom (t : LineTable) (finger offset : Nat) : Nat :=
  if t.holds finger offset then finger else t.search offset

/-- The line of an offset, asked afresh. -/
def slot (t : LineTable) (offset : Nat) : Nat := t.slotFrom 0 offset

end LineTable

end Manifest.Text
