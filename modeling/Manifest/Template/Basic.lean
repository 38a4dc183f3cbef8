import Manifest.Diagnostic.Code
import Manifest.Text.Bytes

/-!
# Template text

Between its code tags a template is literal text. `<%%` and `%%>` stand for the tags themselves,
`<%# … %>` is a comment, a minus sign inside a tag removes the blanks before it or the line break
after it.

* `stretch` reads the literal text up to the next code tag, and tells which tag that is.
-/

namespace Manifest.Template

open Text (byteLength dropEndWhile isSpaceOrTab replace)

/-- Where a template is at the cursor: in its text, in code, or in code whose value is rendered. -/
inductive Mode
  | text
  | code
  | render
  deriving DecidableEq, Repr, Inhabited

/-- What ends a stretch of text. -/
inductive Ending
  /-- the end of the template -/
  | endOfText
  /-- `<%` or `<%-`, by its offset -/
  | code (tag : Nat)
  /-- `<%=`, by its offset -/
  | render (tag : Nat)
  deriving DecidableEq, Repr, Inhabited

/-- Literal text up to a code tag or the end, and the offset after that. -/
structure Stretch where
  text : List Char
  ending : Ending
  next : Nat
  deriving DecidableEq, Repr, Inhabited

/-- The text before the first `<%`, and the text after it. -/
def breakTag : List Char → Option (List Char × List Char)
  | [] => none
  | '<' :: '%' :: cs => some ([], cs)
  | c :: cs => (breakTag cs).map fun (before, rest) => (c :: before, rest)

/-- Behind a tag less text is left. -/
theorem breakTag_length {cs before rest : List Char} (h : breakTag cs = some (before, rest)) :
    rest.length < cs.length := by
  fun_induction breakTag cs generalizing before rest with
  | case1 => simp at h
  | case2 cs =>
      simp only [Option.some.injEq, Prod.mk.injEq] at h
      simp only [List.length_cons, ← h.2]
      omega
  | case3 c cs _ ih =>
      obtain ⟨⟨b, r⟩, hr, he⟩ := Option.map_eq_some_iff.1 h
      simp only [Prod.mk.injEq] at he
      have := ih hr
      simp only [List.length_cons, ← he.2]
      omega

/-- The text of a comment before the first `%>` that does not follow a percent sign, and the text
after it; `last` is the character before. -/
def breakComment (last : Char) : List Char → Option (List Char × List Char)
  | [] => none
  | '%' :: '>' :: cs =>
      if last = '%' then
        (breakComment '%' ('>' :: cs)).map fun (before, rest) => ('%' :: before, rest)
      else some ([], cs)
  | c :: cs => (breakComment c cs).map fun (before, rest) => (c :: before, rest)

/-- Behind a comment less text is left. -/
theorem breakComment_length {last : Char} {cs before rest : List Char}
    (h : breakComment last cs = some (before, rest)) : rest.length < cs.length := by
  fun_induction breakComment last cs generalizing before rest with
  | case1 => simp at h
  | case2 cs ih =>
      obtain ⟨⟨b, r⟩, hr, he⟩ := Option.map_eq_some_iff.1 h
      simp only [Prod.mk.injEq] at he
      have := ih hr
      simp only [List.length_cons, ← he.2] at this ⊢
      omega
  | case3 last cs _ =>
      simp only [Option.some.injEq, Prod.mk.injEq] at h
      simp only [List.length_cons, ← h.2]
      omega
  | case4 last c cs _ ih =>
      obtain ⟨⟨b, r⟩, hr, he⟩ := Option.map_eq_some_iff.1 h
      simp only [Prod.mk.injEq] at he
      have := ih hr
      simp only [List.length_cons, ← he.2]
      omega

/-- Blanks and at most one line break at the front are removed. -/
def trimLeadingBreak (cs : List Char) : List Char :=
  match cs.dropWhile isSpaceOrTab with
  | '\r' :: '\n' :: rest => rest
  | '\r' :: rest => rest
  | '\n' :: rest => rest
  | rest => rest

/-- The literal text that a piece of the template spells. -/
def literal (skipLeading : Bool) (piece : List Char) : List Char :=
  replace ['%', '%', '>'] ['%', '>'] (if skipLeading then trimLeadingBreak piece else piece)

/-- The stretch that begins at an offset, after the text `acc` that was read before. -/
def stretchFrom (acc : List Char) (skipLeading : Bool) (offset : Nat) (cs : List Char) :
    Except (Code × Nat) Stretch :=
  match h : breakTag cs with
  | none => .ok ⟨acc ++ literal skipLeading cs, .endOfText, offset + byteLength cs⟩
  | some (piece, []) => .error (.danglingTag, offset + byteLength piece)
  | some (piece, '%' :: rest) =>
      let tag := offset + byteLength piece
      stretchFrom (acc ++ literal skipLeading piece ++ ['<', '%']) false (tag + 3) rest
  | some (piece, '-' :: _) =>
      let tag := offset + byteLength piece
      let text := acc ++ literal skipLeading piece
      .ok ⟨dropEndWhile isSpaceOrTab text, .code tag, tag + 3⟩
  | some (piece, '=' :: _) =>
      let tag := offset + byteLength piece
      .ok ⟨acc ++ literal skipLeading piece, .render tag, tag + 3⟩
  | some (piece, '#' :: rest) =>
      let tag := offset + byteLength piece
      let text := acc ++ literal skipLeading piece
      let text := if rest.head? = some '-' then dropEndWhile isSpaceOrTab text else text
      match hc : breakComment '#' rest with
      | none => .error (.openComment, tag)
      | some (comment, after) =>
          stretchFrom text (comment.getLast? = some '-') (tag + 5 + byteLength comment) after
  | some (piece, _ :: _) =>
      let tag := offset + byteLength piece
      .ok ⟨acc ++ literal skipLeading piece, .code tag, tag + 2⟩
termination_by cs.length
decreasing_by
  · have tagged := breakTag_length h
    rw [List.length_cons] at tagged
    omega
  · have tagged := breakTag_length h
    have commented := breakComment_length hc
    rw [List.length_cons] at tagged
    omega

/-- The stretch that begins at an offset. -/
def stretch (skipLeading : Bool) (offset : Nat) (cs : List Char) : Except (Code × Nat) Stretch :=
  stretchFrom [] skipLeading offset cs

end Manifest.Template
