import Manifest.Tree.Basic

/-!
# Recording ranges

A finished part gets the range from the start of the first thing it was made from to the end of
the last.

* `record` keeps a range that is there already.
* `restamp` replaces it.
-/

namespace Manifest

open Text (Range)

namespace Build

/-- A part of a tree with room for a range. -/
class Ranged (α : Type) where
  range : α → Option Range
  withRange : α → Option Range → α

instance : Ranged Expr := ⟨Expr.range, fun e range => { e with range }⟩

instance {ε : Type} : Ranged (Entry ε) := ⟨Entry.range, fun e range => { e with range }⟩

instance {ε : Type} : Ranged (CaseOption ε) := ⟨CaseOption.range, fun o range => { o with range }⟩

instance {ε : Type} : Ranged (Query ε) := ⟨Query.range, fun q range => { q with range }⟩

instance {ε : Type} : Ranged (Parameter ε) := ⟨Parameter.range, fun p range => { p with range }⟩

instance {ε : Type} : Ranged (Operation ε) := ⟨Operation.range, Operation.withRange⟩

instance {ε : Type} : Ranged (ResourceBody ε) :=
  ⟨ResourceBody.range, fun b range => { b with range }⟩

/-- From the start of one range to the end of another, or to its own end when the other one is
missing or ends before it. -/
def hull (start : Range) : Option Range → Range
  | some stop => if start.start ≤ stop.stop then ⟨start.start, stop.stop⟩ else start
  | none => start

/-- The part with the range from `start` to `stop`. Nothing is known without a start. -/
def restamp {α : Type} [Ranged α] (start stop : Option Range) (a : α) : α :=
  match start with
  | some r => Ranged.withRange a (some (hull r stop))
  | none => a

/-- The part with the range from `start` to `stop`, unless it has one. -/
def record {α : Type} [Ranged α] (start stop : Option Range) (a : α) : α :=
  if (Ranged.range a).isNone then restamp start stop a else a

end Build

end Manifest
