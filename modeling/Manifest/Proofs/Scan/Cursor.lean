import Manifest.Proofs.Text.Bytes
import Manifest.Scan.Rule

/-!
# The cursor of a scan

A scan that succeeds leaves its cursor between two characters: it moves over a front of the text
that was left, or goes back to where the body of a here-doc ended, which is a boundary too.

* `State.At` — the text that is left.
* `State.Moves` — the cursor moves over a part of the text, and the text stays what it is.
-/

namespace Manifest.Scan

open Text (byteLength byteLength_append dropBytes_byteLength)

variable {α β : Type} {s s' : State} {cs ds : List Char}

/-! ## Scanners as functions of the state -/

/-- Reading the state changes nothing. -/
@[simp] theorem get_bind (f : State → Scanner β) (s : State) : (get >>= f) s = f s s := rfl

/-- A state that is set is the one that comes next. -/
@[simp] theorem set_bind (s' : State) (f : PUnit → Scanner β) (s : State) :
    (set s' >>= f) s = f ⟨⟩ s' := rfl

/-- Two rules in a row succeed when each of them does. -/
theorem bind_eq_ok {x : Scanner α} {f : α → Scanner β} {b : β} (h : (x >>= f) s = .ok b s') :
    ∃ a s₁, x s = .ok a s₁ ∧ f a s₁ = .ok b s' := by
  change EStateM.bind x f s = .ok b s' at h
  unfold EStateM.bind at h
  split at h
  next a s₁ heq => exact ⟨a, s₁, heq, h⟩
  next => exact nomatch h

/-! Rules that choose a mark by what they look back to. -/

/-- A bracket is told by whether a blank stands before it. -/
theorem takeBracket_eq (s : State) : takeBracket s = takeMark
    (if (Text.slice s.text 0 s.pos).getLast?.all Unicode.isWhiteSpace then .listStart
      else .openBracket) s := rfl

/-- A parenthesis is told by whether only blanks stand before it on its line. -/
theorem takeParen_eq (s : State) : takeParen s = takeMark
    (if (Text.slice s.text (min s.lineStart s.pos) s.pos).all isBlank then .lineParen
      else .openParen) s := rfl

/-- A brace is told by the token before it, and opens one level. -/
theorem takeBrace_eq (s : State) : takeBrace s = takeMark
    (if s.after = some (.mark .question) then .selectorBrace else .openBrace)
    { s with braceDepth := s.braceDepth + 1 } := rfl

/-- A closing brace closes one level. -/
theorem takeCloseBrace_eq (s : State) : takeCloseBrace s
    = takeMark .closeBrace { s with braceDepth := s.braceDepth - 1 } := rfl

/-- A token that does not end before it begins has the offsets that it was given. -/
theorem State.token_range {kind : Token.Kind} {value : Token.Value} {start stop : Nat} (s : State)
    (h : start ≤ stop) : (s.token kind value start stop).range = ⟨start, stop⟩ := by
  show (⟨start, max stop start⟩ : Text.Range) = _
  rw [Nat.max_eq_left h]

/-! ## What is left of the text -/

/-- The text that follows the cursor. -/
def State.At (s : State) (cs : List Char) : Prop :=
  ∃ front, s.text = front ++ cs ∧ s.pos = byteLength front

/-- What the cursor stands before is the rest. -/
theorem State.At.rest (h : s.At cs) : s.rest = cs := by
  obtain ⟨front, htext, hpos⟩ := h
  rw [State.rest, htext, hpos, dropBytes_byteLength]

theorem State.At.size (h : s.At cs) : s.size = s.pos + byteLength cs := by
  obtain ⟨front, htext, hpos⟩ := h
  rw [State.size, htext, byteLength_append, hpos]

/-- The cursor is at the end when nothing is left. -/
theorem State.At.atEnd_iff (h : s.At cs) : s.atEnd ↔ cs = [] := by
  rw [State.atEnd, h.size, decide_eq_true_iff, ← Text.byteLength_eq_zero]
  omega

/-- A boundary of the text is a place for the cursor. -/
theorem State.at_of_boundary (h : Text.Boundary s.text s.pos) : ∃ cs, s.At cs := by
  obtain ⟨front, rest, htext, hpos⟩ := h
  exact ⟨rest, front, htext, hpos⟩

/-- The cursor stands between characters. -/
theorem State.At.boundary (h : s.At cs) : Text.Boundary s.text s.pos := by
  obtain ⟨front, htext, hpos⟩ := h
  exact ⟨front, cs, htext, hpos⟩

/-! ## Moving -/

/-- The cursor moves over a part of the text; what is scanned and how stays the same. -/
structure State.Moves (s : State) (ds : List Char) (s' : State) : Prop where
  text : s'.text = s.text
  source : s'.source = s.source
  options : s'.options = s.options
  resume : s'.resume = s.resume
  pos : s'.pos = s.pos + byteLength ds

/-- Behind the part that the cursor moves over stands the rest. -/
theorem State.Moves.at (h : s.Moves ds s') (hat : s.At (ds ++ cs)) : s'.At cs := by
  obtain ⟨front, htext, hpos⟩ := hat
  refine ⟨front ++ ds, ?_, ?_⟩
  · rw [h.text, htext, List.append_assoc]
  · rw [h.pos, hpos, byteLength_append]

/-- Moving the cursor over a text. -/
theorem State.moves_pos (s : State) (ds : List Char) :
    s.Moves ds { s with pos := s.pos + byteLength ds } :=
  ⟨rfl, rfl, rfl, rfl, rfl⟩

theorem State.moves_nil (s : State) : s.Moves [] s := ⟨rfl, rfl, rfl, rfl, rfl⟩

/-- Moves follow one another. -/
theorem State.Moves.trans {s'' : State} {es : List Char} (h : s.Moves ds s')
    (h' : s'.Moves es s'') : s.Moves (ds ++ es) s'' :=
  ⟨h'.text.trans h.text, h'.source.trans h.source, h'.options.trans h.options,
    h'.resume.trans h.resume, by rw [h'.pos, h.pos, byteLength_append, Nat.add_assoc]⟩

end Manifest.Scan
