/-!
# Operators

The operators of expressions and of resource attributes, with the names and the spellings that
they have in a manifest.
-/

namespace Manifest

/-- What an assignment does to its left-hand side. -/
inductive AssignmentOp
  | assign
  | append
  | delete
  deriving DecidableEq, Repr, Inhabited

namespace AssignmentOp

/-- Every one of them. -/
def all : List AssignmentOp := [.assign, .append, .delete]

/-- Its name. -/
def label : AssignmentOp → String
  | .assign => "Assign"
  | .append => "Append"
  | .delete => "Delete"

/-- Its spelling. -/
def symbol : AssignmentOp → String
  | .assign => "="
  | .append => "+="
  | .delete => "-="

/-- The one with a spelling. -/
def ofSymbol? (s : String) : Option AssignmentOp := all.find? (·.symbol == s)

end AssignmentOp

/-- Arithmetic. -/
inductive ArithmeticOp
  | add
  | sub
  | mul
  | div
  | mod
  | shiftLeft
  | shiftRight
  deriving DecidableEq, Repr, Inhabited

namespace ArithmeticOp

/-- Every one of them. -/
def all : List ArithmeticOp := [.add, .sub, .mul, .div, .mod, .shiftLeft, .shiftRight]

/-- Its name. -/
def label : ArithmeticOp → String
  | .add => "Add"
  | .sub => "Sub"
  | .mul => "Mul"
  | .div => "Div"
  | .mod => "Mod"
  | .shiftLeft => "Shl"
  | .shiftRight => "Shr"

/-- Its spelling. -/
def symbol : ArithmeticOp → String
  | .add => "+"
  | .sub => "-"
  | .mul => "*"
  | .div => "/"
  | .mod => "%"
  | .shiftLeft => "<<"
  | .shiftRight => ">>"

/-- The one with a spelling. -/
def ofSymbol? (s : String) : Option ArithmeticOp := all.find? (·.symbol == s)

end ArithmeticOp

/-- Edges between resources. -/
inductive RelationshipOp
  | before
  | require
  | notify
  | subscribe
  deriving DecidableEq, Repr, Inhabited

namespace RelationshipOp

/-- Every one of them. -/
def all : List RelationshipOp := [.before, .require, .notify, .subscribe]

/-- Its name. -/
def label : RelationshipOp → String
  | .before => "Before"
  | .require => "Require"
  | .notify => "Notify"
  | .subscribe => "Subscribe"

/-- Its spelling. -/
def symbol : RelationshipOp → String
  | .before => "->"
  | .require => "<-"
  | .notify => "~>"
  | .subscribe => "<~"

/-- The one with a spelling. -/
def ofSymbol? (s : String) : Option RelationshipOp := all.find? (·.symbol == s)

end RelationshipOp

/-- Comparisons. -/
inductive ComparisonOp
  | eq
  | ne
  | lt
  | le
  | gt
  | ge
  deriving DecidableEq, Repr, Inhabited

namespace ComparisonOp

/-- Every one of them. -/
def all : List ComparisonOp := [.eq, .ne, .lt, .le, .gt, .ge]

/-- Its name. -/
def label : ComparisonOp → String
  | .eq => "Eq"
  | .ne => "Ne"
  | .lt => "Lt"
  | .le => "Le"
  | .gt => "Gt"
  | .ge => "Ge"

/-- Its spelling. -/
def symbol : ComparisonOp → String
  | .eq => "=="
  | .ne => "!="
  | .lt => "<"
  | .le => "<="
  | .gt => ">"
  | .ge => ">="

/-- The one with a spelling. -/
def ofSymbol? (s : String) : Option ComparisonOp := all.find? (·.symbol == s)

end ComparisonOp

/-- Matches against a pattern. -/
inductive MatchOp
  | holds
  | fails
  deriving DecidableEq, Repr, Inhabited

namespace MatchOp

/-- Every one of them. -/
def all : List MatchOp := [.holds, .fails]

/-- Its name. -/
def label : MatchOp → String
  | .holds => "Match"
  | .fails => "NoMatch"

/-- Its spelling. -/
def symbol : MatchOp → String
  | .holds => "=~"
  | .fails => "!~"

/-- The one with a spelling. -/
def ofSymbol? (s : String) : Option MatchOp := all.find? (·.symbol == s)

end MatchOp

/-- How an attribute gets its value. -/
inductive AttributeOp
  | set
  | append
  deriving DecidableEq, Repr, Inhabited

namespace AttributeOp

/-- Every one of them. -/
def all : List AttributeOp := [.set, .append]

/-- Its name. -/
def label : AttributeOp → String
  | .set => "Set"
  | .append => "Append"

/-- Its spelling. -/
def symbol : AttributeOp → String
  | .set => "=>"
  | .append => "+>"

/-- The one with a spelling. -/
def ofSymbol? (s : String) : Option AttributeOp := all.find? (·.symbol == s)

end AttributeOp

end Manifest
