import Manifest.Quote.Escape

/-!
# What the sets of escapes hold

Each escape has one letter, the character behind its backslash, and a set of escapes allows the
letters of those in it.

* `EscapeSet.allows_iff` — the letters that a set allows.
* `allows_singleQuoted_iff`, `allows_doubleQuoted_iff` — those that have a meaning between quotes.
-/

namespace Manifest.Quote

variable {set : EscapeSet} {e : Escape} {c : Char}

/-- The character behind the backslash. -/
def Escape.letter : Escape → Char
  | backslash => '\\'
  | dollar => '$'
  | quote => '\''
  | doubleQuote => '"'
  | carriageReturn => 'r'
  | lineFeed => 'n'
  | tab => 't'
  | space => 's'
  | unicode => 'u'
  | lineBreak => '\n'

/-- An escape is found by its letter. -/
theorem Escape.ofChar?_eq_some_iff : Escape.ofChar? c = some e ↔ e.letter = c := by
  constructor
  · intro h
    unfold Escape.ofChar? at h
    split at h
    all_goals first
      | obtain rfl := Option.some.inj h; rfl
      | exact nomatch h
  · rintro rfl
    cases e <;> rfl

/-- A set allows the letters of its escapes. -/
theorem EscapeSet.allows_iff : set.allows c ↔ ∃ e ∈ set.escapes, e.letter = c := by
  unfold allows
  constructor
  · intro h
    split at h
    next e he => exact ⟨e, List.contains_iff_mem.1 h, Escape.ofChar?_eq_some_iff.1 he⟩
    next => exact absurd h Bool.false_ne_true
  · rintro ⟨e, he, hc⟩
    rw [Escape.ofChar?_eq_some_iff.2 hc]
    exact List.contains_iff_mem.2 he

/-- An escape with a meaning is a character of one byte. -/
theorem utf8Size_of_allows (h : set.allows c) : c.utf8Size = 1 := by
  obtain ⟨e, -, rfl⟩ := EscapeSet.allows_iff.1 h
  cases e <;> rfl

/-- The empty set allows nothing. -/
theorem not_allows_none (c : Char) : (!EscapeSet.none.allows c) = true := by
  rw [Bool.not_eq_true', Bool.eq_false_iff]
  intro h
  obtain ⟨e, he, -⟩ := EscapeSet.allows_iff.1 h
  exact nomatch he

/-- In single quotes, a backslash has a meaning before another one and before a quote. -/
theorem allows_singleQuoted_iff : EscapeSet.singleQuoted.allows c ↔ c = '\\' ∨ c = '\'' := by
  rw [EscapeSet.allows_iff]
  simp [EscapeSet.singleQuoted, Escape.letter, eq_comm]

/-- In double quotes, it has a meaning before the eight letters that write a character, before the
number of one, and at the end of a line. -/
theorem allows_doubleQuoted_iff : EscapeSet.doubleQuoted.allows c ↔
    c ∈ ['\\', '$', '\'', '"', 'r', 'n', 't', 's', 'u', '\n'] := by
  constructor
  · intro h
    obtain ⟨e, -, rfl⟩ := EscapeSet.allows_iff.1 h
    cases e <;> decide
  · intro h
    have hall : ['\\', '$', '\'', '"', 'r', 'n', 't', 's', 'u', '\n'].all
        EscapeSet.doubleQuoted.allows := by decide
    exact List.all_eq_true.1 hall c h

end Manifest.Quote
