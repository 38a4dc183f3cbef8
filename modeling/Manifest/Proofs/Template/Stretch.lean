import Manifest.Proofs.Text.Bytes
import Manifest.Template.Basic

/-!
# How much of a template a stretch takes

A stretch of literal text, with the comments in it and the tag that ends it, is a front of the
template.

* `stretch_spec` — the part of the template that a stretch takes.
* `stretch_ends` — where that part ends.
-/

namespace Manifest.Template

open Text (byteLength byteLength_append)

variable {cs before rest : List Char}

/-- A break behind one more character. -/
theorem exists_of_map_cons {c : Char} {parts : Option (List Char × List Char)}
    (h : (parts.map fun p => (c :: p.1, p.2)) = some (before, rest)) :
    ∃ front, parts = some (front, rest) ∧ before = c :: front := by
  obtain ⟨⟨front, _⟩, hparts, heq⟩ := Option.map_eq_some_iff.1 h
  obtain ⟨rfl, rfl⟩ := Prod.mk.inj heq
  exact ⟨front, hparts, rfl⟩

/-- A text is broken at the first tag. -/
theorem breakTag_spec (h : breakTag cs = some (before, rest)) :
    cs = before ++ '<' :: '%' :: rest := by
  fun_induction breakTag cs generalizing before rest with
  | case1 => cases h
  | case2 cs =>
      obtain ⟨rfl, rfl⟩ := Prod.mk.inj (Option.some.inj h)
      rfl
  | case3 c cs _ ih =>
      obtain ⟨front, hbreak, rfl⟩ := exists_of_map_cons h
      rw [ih hbreak, List.cons_append]

/-- A comment ends before its end tag. -/
theorem breakComment_spec {last : Char} (h : breakComment last cs = some (before, rest)) :
    cs = before ++ '%' :: '>' :: rest := by
  fun_induction breakComment last cs generalizing before rest with
  | case1 => cases h
  | case2 cs ih =>
      obtain ⟨front, hbreak, rfl⟩ := exists_of_map_cons h
      rw [ih hbreak, List.cons_append]
  | case3 last cs _ =>
      obtain ⟨rfl, rfl⟩ := Prod.mk.inj (Option.some.inj h)
      rfl
  | case4 last c cs _ ih =>
      obtain ⟨front, hbreak, rfl⟩ := exists_of_map_cons h
      rw [ih hbreak, List.cons_append]

/-- The tag that a comment is written in. -/
theorem eq_commentTag {last : Char} (h : breakComment last cs = some (before, rest)) :
    '<' :: '%' :: '#' :: cs = ('<' :: '%' :: '#' :: before ++ ['%', '>']) ++ rest := by
  rw [breakComment_spec h]
  simp

/-- A comment takes five bytes around its text. -/
theorem byteLength_commentTag (comment : List Char) :
    byteLength ('<' :: '%' :: '#' :: comment ++ ['%', '>']) = 5 + byteLength comment := by
  rw [byteLength_append]
  show 1 + (1 + (1 + byteLength comment)) + 2 = _
  omega

/-- The stretch takes a front of the text, up to the offset behind it; a tag whose value is
rendered takes three characters of its own. -/
def Stretch.Takes (offset : Nat) (cs : List Char) (s : Stretch) : Prop :=
  ∃ front rest, cs = front ++ rest ∧ s.next = offset + byteLength front ∧
    ∀ tag, s.ending = .render tag → 3 ≤ byteLength front

/-- A stretch of later text is one of the text that begins earlier. -/
theorem Stretch.Takes.prepend {s : Stretch} {offset size : Nat} (ds : List Char)
    (hsize : byteLength ds = size) (h : s.Takes (offset + size) cs) :
    s.Takes offset (ds ++ cs) := by
  obtain ⟨front, rest, rfl, hnext, hrender⟩ := h
  refine ⟨ds ++ front, rest, (List.append_assoc _ _ _).symm, ?_, ?_⟩
  · rw [hnext, byteLength_append, hsize, Nat.add_assoc]
  · intro tag htag
    rw [byteLength_append]
    exact Nat.le_add_left_of_le (hrender tag htag)

/-- A stretch that ends at a tag takes the tag. -/
theorem takes_tag {s : Stretch} {offset size : Nat} {piece : List Char} (tag rest : List Char)
    (hsize : byteLength tag = size) (hnext : s.next = offset + byteLength piece + size)
    (hrender : ∀ t, s.ending = .render t → 3 ≤ size) : s.Takes offset (piece ++ (tag ++ rest)) := by
  refine ⟨piece ++ tag, rest, (List.append_assoc _ _ _).symm, ?_, ?_⟩
  · rw [hnext, byteLength_append, hsize, Nat.add_assoc]
  · intro t ht
    rw [byteLength_append, hsize]
    exact Nat.le_add_left_of_le (hrender t ht)

/-- A stretch takes what it says that it takes. -/
theorem stretchFrom_spec {acc : List Char} {skipLeading : Bool} {offset : Nat} {s : Stretch}
    (h : stretchFrom acc skipLeading offset cs = .ok s) : s.Takes offset cs := by
  fun_induction stretchFrom acc skipLeading offset cs with
  | case1 acc skipLeading offset cs _ =>
      obtain rfl := Except.ok.inj h
      exact ⟨cs, [], (List.append_nil cs).symm, rfl, fun _ htag => nomatch htag⟩
  | case2 => exact nomatch h
  | case3 acc skipLeading offset cs piece rest hbreak _ ih =>
      rw [breakTag_spec hbreak]
      refine Stretch.Takes.prepend piece rfl (Stretch.Takes.prepend ['<', '%', '%'] rfl ?_)
      exact ih h
  | case4 acc skipLeading offset cs piece rest hbreak =>
      obtain rfl := Except.ok.inj h
      rw [breakTag_spec hbreak]
      exact takes_tag ['<', '%', '-'] rest rfl rfl fun _ htag => nomatch htag
  | case5 acc skipLeading offset cs piece rest hbreak =>
      obtain rfl := Except.ok.inj h
      rw [breakTag_spec hbreak]
      exact takes_tag ['<', '%', '='] rest rfl rfl fun _ _ => Nat.le_refl 3
  | case6 => exact nomatch h
  | case7 acc skipLeading offset cs piece rest hbreak _ _ _ comment after hcomment ih =>
      rw [breakTag_spec hbreak, eq_commentTag hcomment]
      refine Stretch.Takes.prepend piece rfl
        (Stretch.Takes.prepend _ (byteLength_commentTag comment) ?_)
      rw [← Nat.add_assoc]
      exact ih h
  | case8 acc skipLeading offset cs piece c rest _ _ _ _ hbreak =>
      obtain rfl := Except.ok.inj h
      rw [breakTag_spec hbreak]
      exact takes_tag ['<', '%'] (c :: rest) rfl rfl fun _ htag => nomatch htag

/-- A stretch takes a front of the template. -/
theorem stretch_spec {skipLeading : Bool} {offset : Nat} {s : Stretch}
    (h : stretch skipLeading offset cs = .ok s) : s.Takes offset cs :=
  stretchFrom_spec h

/-! ## The end of a stretch -/

/-- The stretch goes up to the last character of what opens a tag, or to the end of the text. -/
def Stretch.Ends (offset : Nat) (cs : List Char) (s : Stretch) : Prop :=
  ∃ front rest, cs = front ++ rest ∧ s.next = offset + byteLength front ∧
    (rest = [] ∨ ∃ body c, front = body ++ [c] ∧ (c = '%' ∨ c = '-' ∨ c = '='))

/-- Text in front moves the end of a stretch. -/
theorem Stretch.Ends.prepend {s : Stretch} {offset size : Nat} (ds : List Char)
    (hsize : byteLength ds = size) (h : s.Ends (offset + size) cs) : s.Ends offset (ds ++ cs) := by
  obtain ⟨front, rest, rfl, hnext, hend⟩ := h
  refine ⟨ds ++ front, rest, (List.append_assoc _ _ _).symm, ?_, ?_⟩
  · rw [hnext, byteLength_append, hsize, Nat.add_assoc]
  · rcases hend with hrest | ⟨body, c, rfl, hc⟩
    · exact .inl hrest
    · exact .inr ⟨ds ++ body, c, (List.append_assoc _ _ _).symm, hc⟩

/-- A stretch that ends at a tag goes up to what opens it. -/
theorem ends_tag {s : Stretch} {offset size : Nat} {piece : List Char} {c : Char}
    (before rest : List Char) (hc : c = '%' ∨ c = '-' ∨ c = '=')
    (hsize : byteLength (before ++ [c]) = size)
      (hnext : s.next = offset + byteLength piece + size) :
    s.Ends offset (piece ++ (before ++ [c] ++ rest)) := by
  refine ⟨piece ++ (before ++ [c]), rest, (List.append_assoc _ _ _).symm, ?_, .inr ?_⟩
  · rw [hnext, byteLength_append, hsize, Nat.add_assoc]
  · exact ⟨piece ++ before, c, (List.append_assoc _ _ _).symm, hc⟩

/-- A stretch ends at a tag or with the text. -/
theorem stretchFrom_ends {acc : List Char} {skipLeading : Bool} {offset : Nat} {s : Stretch}
    (h : stretchFrom acc skipLeading offset cs = .ok s) : s.Ends offset cs := by
  fun_induction stretchFrom acc skipLeading offset cs with
  | case1 acc skipLeading offset cs _ =>
      obtain rfl := Except.ok.inj h
      exact ⟨cs, [], (List.append_nil cs).symm, rfl, .inl rfl⟩
  | case2 => exact nomatch h
  | case3 acc skipLeading offset cs piece rest hbreak _ ih =>
      rw [breakTag_spec hbreak]
      exact Stretch.Ends.prepend piece rfl (Stretch.Ends.prepend ['<', '%', '%'] rfl (ih h))
  | case4 acc skipLeading offset cs piece rest hbreak =>
      obtain rfl := Except.ok.inj h
      rw [breakTag_spec hbreak]
      exact ends_tag ['<', '%'] rest (.inr (.inl rfl)) rfl rfl
  | case5 acc skipLeading offset cs piece rest hbreak =>
      obtain rfl := Except.ok.inj h
      rw [breakTag_spec hbreak]
      exact ends_tag ['<', '%'] rest (.inr (.inr rfl)) rfl rfl
  | case6 => exact nomatch h
  | case7 acc skipLeading offset cs piece rest hbreak _ _ _ comment after hcomment ih =>
      rw [breakTag_spec hbreak, eq_commentTag hcomment]
      refine Stretch.Ends.prepend piece rfl
        (Stretch.Ends.prepend _ (byteLength_commentTag comment) ?_)
      rw [← Nat.add_assoc]
      exact ih h
  | case8 acc skipLeading offset cs piece c rest _ _ _ _ hbreak =>
      obtain rfl := Except.ok.inj h
      rw [breakTag_spec hbreak]
      exact ends_tag ['<'] (c :: rest) (.inl rfl) rfl rfl

/-- A stretch ends behind what opens a tag, or with the text. -/
theorem stretch_ends {skipLeading : Bool} {offset : Nat} {s : Stretch}
    (h : stretch skipLeading offset cs = .ok s) : s.Ends offset cs :=
  stretchFrom_ends h

end Manifest.Template
