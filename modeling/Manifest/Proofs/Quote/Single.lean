import Manifest.Proofs.Text.Bytes
import Manifest.Quote.Run

/-!
# Text in single quotes

Every text can be written in single quotes, with a backslash before quotes and backslashes, and is
read back.

* `singleQuoted` — a text in single quotes.
* `collect_singleQuoted` — the run of what was written is the text.
-/

namespace Manifest.Quote

open Text (byteLength byteLength_append)

variable {cs rest : List Char} {c : Char} {offset : Nat}

/-- A character between single quotes. -/
def escapeQuote (c : Char) : List Char := if c = '\\' ∨ c = '\'' then ['\\', c] else [c]

/-- A text in single quotes. -/
def singleQuoted (cs : List Char) : List Char := '\'' :: cs.flatMap escapeQuote ++ ['\'']

/-- A text in single quotes, before more text. -/
theorem singleQuoted_append (cs rest : List Char) :
    singleQuoted cs ++ rest = '\'' :: (cs.flatMap escapeQuote ++ '\'' :: rest) := by
  rw [singleQuoted, List.append_assoc]
  rfl

/-- Quotes take two bytes. -/
theorem byteLength_singleQuoted (cs : List Char) :
    byteLength (singleQuoted cs) = byteLength (cs.flatMap escapeQuote) + 2 := by
  show 1 + byteLength (cs.flatMap escapeQuote ++ ['\'']) = _
  rw [byteLength_append, Nat.add_comm]
  rfl

/-- A character that was written is read, and what follows it after that. -/
theorem collect_escapeQuote (c : Char) (offset : Nat) (rest : List Char) :
    (collect .single .singleQuoted offset (escapeQuote c ++ rest)).run =
      ((collect .single .singleQuoted (offset + byteLength (escapeQuote c)) rest).push
        [c]).run := by
  unfold escapeQuote
  split
  next hc =>
    rcases hc with rfl | rfl
    · rw [List.cons_append, List.cons_append, collect]
      · rfl
      · rintro _ ⟨⟩
    · rw [List.cons_append, List.cons_append, collect]
      · rfl
      · rintro _ ⟨⟩
  next hc =>
    obtain ⟨hbackslash, hquote⟩ := not_or.1 hc
    have hopen : ¬ Mode.single.quote? = some c := fun h => hquote (Option.some.inj h).symm
    have hdollar : ¬ (decide (c = '$') && Mode.single.stopsAtDollar) = true := by
      rw [show Mode.single.stopsAtDollar = false from rfl, Bool.and_false]
      exact Bool.false_ne_true
    rw [List.cons_append, List.nil_append, collect, if_neg hopen, if_neg hdollar]
    · rfl
    · exact fun h => absurd h hbackslash
    · exact fun _ h => absurd h hbackslash
    · exact fun _ _ h => absurd h hbackslash

/-- The run of a text in single quotes, behind the first quote. -/
theorem collect_singleQuoted (cs : List Char) (offset : Nat) (rest : List Char) :
    (collect .single .singleQuoted offset (cs.flatMap escapeQuote ++ '\'' :: rest)).run
      = .ok ⟨cs, .quote, offset + byteLength (cs.flatMap escapeQuote) + 1⟩ := by
  induction cs generalizing offset with
  | nil =>
      rw [List.flatMap_nil, List.nil_append, collect]
      · rfl
      · exact fun h => absurd h (by decide)
      · exact fun _ h => absurd h (by decide)
      · exact fun _ _ h => absurd h (by decide)
  | cons c cs ih =>
      rw [List.flatMap_cons, List.append_assoc, collect_escapeQuote]
      show (collect _ _ _ _).run.map _ = _
      rw [ih, byteLength_append, ← Nat.add_assoc]
      rfl

end Manifest.Quote
