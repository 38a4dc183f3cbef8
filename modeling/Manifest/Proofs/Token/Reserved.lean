import Manifest.Token.Kind

/-!
# Reserved words

`true` and `false` are booleans and each keyword has a kind of its own; `plan` is a keyword only
where tasks are allowed. A word is looked up among the keywords; the lookup finds these words with
these kinds, and no others.

* `Reserved` — the reserved words and their kinds.
* `reserved?_eq_some_iff` — the lookup finds them.
-/

namespace Manifest.Token

variable {tasks : Bool} {word : String} {kind : Kind}

/-- How a boolean is written. -/
def booleanWord (b : Bool) : String := if b then "true" else "false"

/-- The reserved words and their kinds. -/
inductive Reserved (tasks : Bool) : String → Kind → Prop
  | boolean (b : Bool) : Reserved tasks (booleanWord b) .boolean
  | keyword (w : Keyword) (h : w = .planWord → tasks = true) :
      Reserved tasks w.spelling (.keyword w)

/-- No two keywords are spelled alike, and all of them are listed. -/
theorem Keyword.find?_spelling (w : Keyword) : all.find? (·.spelling == w.spelling) = some w := by
  cases w <;> decide +kernel

/-- No keyword is spelled like a boolean. -/
theorem Keyword.spelling_ne_booleanWord (w : Keyword) (b : Bool) : w.spelling ≠ booleanWord b := by
  cases b <;> cases w <;> decide +kernel

/-- The lookup of a word that is no boolean. -/
theorem reserved?_of_ne (htrue : word ≠ "true") (hfalse : word ≠ "false") :
    reserved? tasks word = match Keyword.all.find? (·.spelling == word) with
      | some .planWord => if tasks then some (.keyword .planWord) else none
      | some w => some (.keyword w)
      | none => none := by
  have hword : ¬ (word == "true" || word == "false") := by
    rw [Bool.or_eq_true, beq_iff_eq, beq_iff_eq]
    exact not_or.2 ⟨htrue, hfalse⟩
  rw [reserved?]
  exact if_neg hword

/-- The lookup finds each keyword by its spelling. -/
theorem reserved?_spelling (w : Keyword) (h : w = .planWord → tasks = true) :
    reserved? tasks w.spelling = some (.keyword w) := by
  rw [reserved?_of_ne (w.spelling_ne_booleanWord true) (w.spelling_ne_booleanWord false),
    w.find?_spelling]
  by_cases hplan : w = .planWord
  · obtain rfl := hplan
    rw [h rfl]
    rfl
  · cases w <;> first | rfl | exact absurd rfl hplan

/-- The lookup finds the reserved words, with their kinds, and no other word. -/
theorem reserved?_eq_some_iff : reserved? tasks word = some kind ↔ Reserved tasks word kind := by
  constructor
  · intro h
    by_cases htrue : word = "true"
    · obtain rfl := htrue
      obtain rfl : Kind.boolean = kind := Option.some.inj h
      exact .boolean true
    by_cases hfalse : word = "false"
    · obtain rfl := hfalse
      obtain rfl : Kind.boolean = kind := Option.some.inj h
      exact .boolean false
    rw [reserved?_of_ne htrue hfalse] at h
    cases hfind : Keyword.all.find? (·.spelling == word) with
    | none =>
        rw [hfind] at h
        exact nomatch h
    | some w =>
        obtain rfl : w.spelling = word :=
          eq_of_beq (List.find?_some (p := fun w : Keyword => w.spelling == word) hfind)
        rw [hfind] at h
        split at h
        next heq =>
          obtain rfl := Option.some.inj heq
          split at h
          next htasks =>
            obtain rfl := Option.some.inj h
            exact .keyword _ fun _ => htasks
          next => exact nomatch h
        next hplan heq =>
          obtain rfl := Option.some.inj heq
          obtain rfl := Option.some.inj h
          exact .keyword _ fun hw => absurd hw hplan
        next heq => exact nomatch heq
  · rintro (b | ⟨w, h⟩)
    · cases b <;> rfl
    · exact reserved?_spelling w h

/-- The lookup finds nothing for any other word. -/
theorem reserved?_eq_none_iff :
    reserved? tasks word = none ↔ ∀ kind, ¬ Reserved tasks word kind := by
  rw [Option.eq_none_iff_forall_ne_some]
  exact forall_congr' fun kind => not_congr reserved?_eq_some_iff

/-- The keywords as they are written. -/
example : Keyword.all.map Keyword.spelling =
    ["case", "class", "default", "define", "if", "elsif", "else", "inherits", "node", "and", "or",
      "undef", "in", "unless", "function", "type", "attr", "private", "application", "consumes",
      "produces", "site", "plan"] := rfl

end Manifest.Token
