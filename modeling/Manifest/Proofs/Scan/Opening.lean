import Manifest.Scan.Opening

/-!
# What an opening says of the text

The rule that is chosen fixes the first characters of the text, and a mark that is chosen is the
longest one that is spelled there.

* `opening?_begins` — how the text begins under each rule.
* `markAt?_longest` — no mark of code is spelled there that is longer.
-/

namespace Manifest.Scan

open Token (Mark)

variable {cs : List Char} {c : Char} {m : Mark} {o : Opening}

/-! ## Marks -/

/-- The ends of template tags are no marks of code. -/
def endsTag : Mark → Bool
  | .tagEnd | .trimmingTagEnd => true
  | _ => false

/-- No mark of code that the text begins with is longer than the given one. -/
def Longest (m : Mark) (cs : List Char) : Prop :=
  ∀ n : Mark, endsTag n = false → n.spelling.toList <+: cs →
    n.spelling.toList.length ≤ m.spelling.toList.length

/-- Longer spellings come first. -/
theorem plainMarks_pairwise :
    plainMarks.Pairwise fun m n => n.spelling.toList.length ≤ m.spelling.toList.length := by
  decide

/-- A mark of code that is not tried has one character. -/
theorem length_le_of_not_mem_plainMarks (hm : endsTag m = false) (h : m ∉ plainMarks) :
    m.spelling.toList.length ≤ 1 := by
  revert hm h
  cases m <;> decide

/-- Every mark is spelled with a character at least. -/
theorem length_spelling_pos (m : Mark) : 1 ≤ m.spelling.toList.length := by
  cases m <;> decide

/-- A text that begins with a mark begins with the first character of that. -/
theorem head?_of_begins (h : m.spelling.toList <+: c :: cs) : m.spelling.toList.head? = some c := by
  obtain ⟨d, ds, hspelling⟩ := List.exists_cons_of_length_pos (length_spelling_pos m)
  obtain ⟨rest, hrest⟩ := h
  rw [hspelling] at hrest ⊢
  rw [(List.cons.inj hrest).1]
  rfl

/-- A mark begins a text that begins with its spelling. -/
theorem begins_iff : Mark.begins m cs ↔ m.spelling.toList <+: cs := List.isPrefixOf_iff_prefix

/-- The mark that is found is the longest one at the front. -/
theorem markAt?_longest (h : markAt? cs = some m) : m.spelling.toList <+: cs ∧ Longest m cs := by
  obtain ⟨hm, before, after, hsplit, hbefore⟩ := List.find?_eq_some_iff_append.1 h
  refine ⟨begins_iff.1 hm, ?_⟩
  intro n hn hbegins
  by_cases hmem : n ∈ plainMarks
  · rw [hsplit, List.mem_append, List.mem_cons] at hmem
    have hpairwise := plainMarks_pairwise
    rw [hsplit, List.pairwise_append, List.pairwise_cons] at hpairwise
    rcases hmem with hmem | rfl | hmem
    · -- the marks before it do not begin the text
      exact absurd (begins_iff.2 hbegins) (by simpa using hbefore n hmem)
    · exact Nat.le_refl _
    · exact hpairwise.2.1.1 n hmem
  · exact Nat.le_trans (length_le_of_not_mem_plainMarks hn hmem) (length_spelling_pos m)

/-- Brackets and the slash begin no longer mark. -/
theorem longest_of_head (h : c ∈ ['[', '(', '{', '}', '/']) : Longest m (c :: cs) := by
  intro n _ hbegins
  refine Nat.le_trans ?_ (length_spelling_pos m)
  -- no mark that begins like these is longer than they are
  have hone : ∀ n : Mark, n.spelling.toList.head?.any ['[', '(', '{', '}', '/'].contains →
      n.spelling.toList.length ≤ 1 := by
    intro n
    cases n <;> decide
  refine hone n ?_
  rw [head?_of_begins hbegins]
  exact List.contains_iff_mem.2 h

/-! ## Openings -/

/-- How a text begins under a rule. -/
def Opening.Begins (cs : List Char) : Opening → Prop
  | .mark m => m.spelling.toList <+: cs ∧ Longest m cs
  | .bracket => ['['] <+: cs
  | .paren => ['('] <+: cs
  | .brace => ['{'] <+: cs
  | .closeBrace => ['}'] <+: cs
  | .tagEnd true => ['-', '%', '>'] <+: cs
  | .tagEnd false => ['%', '>'] <+: cs
  | .hereDoc => ['@', '('] <+: cs
  | .doubleQuote => ['"'] <+: cs
  | .singleQuote => ['\''] <+: cs
  | .lineComment => ['#'] <+: cs
  | .blockComment => ['/', '*'] <+: cs
  | .slash => ['/'] <+: cs
  | .dollar => ['$'] <+: cs
  | .number => ∃ c rest, cs = c :: rest ∧ c.isDigit
  | .word => cs ≠ []
  | .reference _ => cs ≠ []
  | .separator => [':', ':'] <+: cs
  | .newline => ['\n'] <+: cs
  | .blank => ∃ c rest, cs = c :: rest ∧ isBlank c
  | .foreignLetter c => [c] <+: cs
  | .other c => [c] <+: cs

/-- What a character opens begins with it. -/
theorem openingOfChar_begins (hc : c ≠ '\n') : (openingOfChar c).Begins (c :: cs) := by
  unfold openingOfChar
  split
  next h => exact ⟨c, cs, rfl, h⟩
  next =>
    split
    next => exact List.cons_ne_nil c cs
    next =>
      split
      next => exact List.cons_ne_nil c cs
      next =>
        split
        next h => exact ⟨c, cs, rfl, Bool.and_eq_true_iff.2 ⟨decide_eq_true hc, h⟩⟩
        next =>
          split
          next => exact ⟨cs, rfl⟩
          next => exact ⟨cs, rfl⟩

/-- What is found in code begins the text. -/
theorem plainOpening_begins (hc : c ≠ '\n') : (plainOpening c cs).Begins (c :: cs) := by
  unfold plainOpening
  split
  next h => exact markAt?_longest h
  next => exact openingOfChar_begins hc

/-- The end of a tag that is found begins the text. -/
theorem tagEndAt?_begins (h : tagEndAt? cs = some o) : o.Begins cs := by
  unfold tagEndAt? at h
  split at h
  next rest =>
    obtain rfl := Option.some.inj h
    exact ⟨rest, rfl⟩
  next rest =>
    obtain rfl := Option.some.inj h
    exact ⟨rest, rfl⟩
  next => exact nomatch h

/-- What is found at two colons begins with them. -/
theorem openingAfterColons_begins (cs : List Char) :
    (openingAfterColons cs).Begins (':' :: ':' :: cs) := by
  unfold openingAfterColons
  split
  next =>
    split
    next => exact List.cons_ne_nil _ _
    next =>
      split
      next => exact List.cons_ne_nil _ _
      next => exact ⟨_, rfl⟩
  next => exact ⟨_, rfl⟩

/-- The rule that is chosen says how the text begins. -/
theorem opening?_begins {inTemplate : Bool} (h : opening? inTemplate cs = some o) :
    o.Begins cs := by
  unfold opening? at h
  split at h
  case h_1 => exact nomatch h
  case h_14 =>
    obtain rfl := Option.some.inj h
    exact openingAfterColons_begins _
  case h_15 c cs _ _ _ _ _ _ _ _ _ _ hnewline _ _ =>
    have hc : c ≠ '\n' := hnewline
    split at h
    next =>
      obtain rfl := Option.some.inj h
      cases htag : tagEndAt? (c :: cs) with
      | none => exact plainOpening_begins hc
      | some o => exact tagEndAt?_begins htag
    next =>
      obtain rfl := Option.some.inj h
      exact plainOpening_begins hc
  all_goals
    obtain rfl := Option.some.inj h
    exact ⟨_, rfl⟩

end Manifest.Scan
