import Manifest.Literal.Number

/-!
# S-expressions

Values of a text format in which trees can be written down and read back: scalars, symbols, lists,
maps with keys, and calls of a head with arguments.

* `same` is equality of values: floats are compared as numbers, and maps without regard to order.
* `put` inserts into the entries of a map: a repeated key keeps its place and takes the new value.
-/

namespace Manifest

/-- A value of the format. -/
inductive Sexp
  | nil
  | bool (b : Bool)
  | int (i : Int64)
  | float (x : Binary64)
  | str (s : String)
  | sym (s : String)
  | list (items : List Sexp)
  | map (entries : List (String × Sexp))
  | call (head : String) (args : List Sexp)
  deriving Inhabited, Repr

namespace Sexp

/-- The head of a call. -/
def head? : Sexp → Option String
  | .call head _ => some head
  | _ => none

/-- The arguments of a call, or the elements of a list. -/
def items : Sexp → List Sexp
  | .call _ args => args
  | .list items => items
  | _ => []

/-- The entries with a value for a key. -/
def put (key : String) (value : Sexp) : List (String × Sexp) → List (String × Sexp)
  | [] => [(key, value)]
  | (k, v) :: entries =>
      if k = key then (k, value) :: entries else (k, v) :: put key value entries

/-- Entries with the keys and values of a list, put in from left to right. -/
def ofPairs (pairs : List (String × Sexp)) : List (String × Sexp) :=
  pairs.foldl (fun entries (k, v) => put k v entries) []

/-- The value of a key. -/
def valueOf? (key : String) : List (String × Sexp) → Option Sexp
  | [] => none
  | (k, v) :: entries => if k = key then some v else valueOf? key entries

mutual

/-- Equality of values. -/
def same : Sexp → Sexp → Bool
  | .nil, .nil => true
  | .bool a, .bool b => a == b
  | .int a, .int b => a == b
  | .float a, .float b => a.same b
  | .str a, .str b => a == b
  | .sym a, .sym b => a == b
  | .list as, .list bs => sameItems as bs
  | .map as, .map bs => as.length == bs.length && sameEntries as bs
  | .call f as, .call g bs => f == g && sameItems as bs
  | _, _ => false

/-- Equality of lists of values. -/
def sameItems : List Sexp → List Sexp → Bool
  | [], [] => true
  | a :: as, b :: bs => same a b && sameItems as bs
  | _, _ => false

/-- Every entry of the first map is one of the second. -/
def sameEntries : List (String × Sexp) → List (String × Sexp) → Bool
  | [], _ => true
  | (k, v) :: as, bs =>
      (match valueOf? k bs with
        | some w => same v w
        | none => false) && sameEntries as bs

end

end Sexp

end Manifest
