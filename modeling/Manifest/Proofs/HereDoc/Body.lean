import Manifest.HereDoc.Body
import Manifest.Proofs.Text.Bytes

/-!
# Where the body of a here-doc lies

The lines of a text make up the text, the lines of a body and its end line are the first ones, and
what remains of the body once its margin is gone is no longer than it was.

* `linesOf_flatten`, `takeBody_spec` — the lines of a body and its end line.
* `shapeBody_length_le` — the text of a body does not grow.
-/

namespace Manifest.HereDoc

open Text (byteLength byteLength_append)
open scoped List

variable {cs line tag : List Char} {lines body : List (List Char)} {e : EndLine} {n : Nat}

/-! ## Lines -/

/-- The lines of a text, with their line feeds, are the text. -/
theorem linesOf_flatten (cs : List Char) : (linesOf cs).flatten = cs := by
  induction cs with
  | nil => rfl
  | cons c cs ih =>
      rw [linesOf]
      split
      · rw [List.flatten_cons, ih]
        rfl
      · split
        next heq =>
          rw [heq] at ih
          rw [← ih]
          rfl
        next line lines heq =>
          rw [heq, List.flatten_cons] at ih
          rw [List.flatten_cons, List.cons_append, ih]

/-- The lines of a body stand before its end line, which is the first one of the tag. -/
theorem takeBody_spec (h : takeBody tag lines = some (body, e, n)) :
    ∃ line rest, lines = body ++ line :: rest ∧ n = byteLength line ∧
      EndLine.ofLine? (dropFeed line) tag = some e ∧
      ∀ other ∈ body, EndLine.ofLine? (dropFeed other) tag = none := by
  induction lines generalizing body e n with
  | nil => exact nomatch h
  | cons line lines ih =>
      rw [takeBody] at h
      split at h
      next hend =>
        obtain ⟨rfl, rfl, rfl⟩ := h
        exact ⟨line, lines, rfl, rfl, hend, nofun⟩
      next hline =>
        obtain ⟨⟨body', e', n'⟩, htake, heq⟩ := Option.map_eq_some_iff.1 h
        obtain ⟨rfl, rfl, rfl⟩ := heq
        obtain ⟨last, rest, rfl, rfl, hend, hbody⟩ := ih htake
        exact ⟨last, rest, rfl, rfl, hend, List.forall_mem_cons.2 ⟨hline, hbody⟩⟩

/-! ## Shaping -/

/-- A text is not shorter than what is left when parts of it are taken out. -/
theorem byteLength_le_of_sublist {ds : List Char} (h : ds <+ cs) :
    byteLength ds ≤ byteLength cs := by
  induction h with
  | slnil => exact Nat.le_refl 0
  | cons c _ ih => exact Nat.le_trans ih (Nat.le_add_left _ _)
  | cons_cons c _ ih => exact Nat.add_le_add_left ih _

/-- Stripping a margin leaves the rest of the line. -/
theorem stripMargin_sublist (margin : Nat) (line : List Char) :
    stripMargin margin line <+ line := by
  fun_induction stripMargin margin line with
  | case1 margin c cs _ ih => exact ih.cons c
  | case2 => exact List.Sublist.refl _
  | case3 => exact List.Sublist.refl _

/-- Dropping a carriage return leaves the rest of the line. -/
theorem dropReturn_sublist (line : List Char) : dropReturn line <+ line := by
  rw [dropReturn]
  split
  · exact List.dropLast_sublist line
  · exact List.Sublist.refl line

/-- Removing the last line break removes characters only. -/
theorem trimLast_sublist (lines : List (List Char)) :
    (trimLast lines).flatten <+ lines.flatten := by
  fun_induction trimLast lines with
  | case1 => exact List.Sublist.refl _
  | case2 line =>
      rw [List.flatten_singleton, List.flatten_singleton]
      split
      · exact (dropReturn_sublist _).trans (List.dropLast_sublist line)
      · exact List.Sublist.refl line
  | case3 line lines _ ih =>
      rw [List.flatten_cons, List.flatten_cons]
      exact ih.append_left line

theorem map_stripMargin_sublist (margin : Nat) (lines : List (List Char)) :
    (lines.map (stripMargin margin)).flatten <+ lines.flatten := by
  induction lines with
  | nil => exact List.Sublist.refl _
  | cons line lines ih =>
      rw [List.map_cons, List.flatten_cons, List.flatten_cons]
      exact (stripMargin_sublist margin line).append ih

/-- What is left of a body after its margin and its last line break were removed. -/
theorem shapeBody_sublist (e : EndLine) (lines : List (List Char)) :
    (shapeBody e lines).flatten <+ lines.flatten := by
  rw [shapeBody]
  split
  · exact (trimLast_sublist _).trans (map_stripMargin_sublist _ _)
  · exact map_stripMargin_sublist _ _

/-- The shaped lines of a body are not longer than the body. -/
theorem shapeBody_length_le (e : EndLine) (lines : List (List Char)) :
    byteLength (shapeBody e lines).flatten ≤ byteLength lines.flatten :=
  byteLength_le_of_sublist (shapeBody_sublist e lines)

end Manifest.HereDoc
