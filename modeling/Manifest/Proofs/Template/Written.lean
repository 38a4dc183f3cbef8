import Manifest.Proofs.Template.Stretch

/-!
# Written template text

Literal text is written with its tags doubled, and comments stand between such texts. A reader that
cuts the template at its tags, and undoes the rest piece by piece, finds the text again: no piece
begins or ends where the writer has joined two characters to a tag.

* `written` — how literal text is written.
* `Comment` — a comment that ends where it is meant to, and removes no blanks.
* `stretch_spelling` — text and comments, read back.
-/

namespace Manifest.Template

open Text (byteLength byteLength_append isSpaceOrTab replace)

variable {acc text cs ds es piece rest tail : List Char} {offset tag : Nat} {last c : Char}
  {skipLeading : Bool}

/-! ## Stretches without their recursion -/

/-- What follows a tag, when `text` was read before it. -/
def behindTag (text : List Char) (tag : Nat) : List Char → Except (Code × Nat) Stretch
  | [] => .error (.danglingTag, tag)
  | '%' :: rest => stretchFrom (text ++ ['<', '%']) false (tag + 3) rest
  | '-' :: _ => .ok ⟨Text.dropEndWhile isSpaceOrTab text, .code tag, tag + 3⟩
  | '=' :: _ => .ok ⟨text, .render tag, tag + 3⟩
  | '#' :: rest =>
      let text := if rest.head? = some '-' then Text.dropEndWhile isSpaceOrTab text else text
      match breakComment '#' rest with
      | none => .error (.openComment, tag)
      | some (comment, after) =>
          stretchFrom text (comment.getLast? = some '-') (tag + 5 + byteLength comment) after
  | _ :: _ => .ok ⟨text, .code tag, tag + 2⟩

/-- A stretch reads a piece of literal text, and goes on behind the tag at its end. -/
theorem stretchFrom_eq (acc : List Char) (skipLeading : Bool) (offset : Nat) (cs : List Char) :
    stretchFrom acc skipLeading offset cs = match breakTag cs with
      | none => .ok ⟨acc ++ literal skipLeading cs, .endOfText, offset + byteLength cs⟩
      | some (piece, rest) =>
          behindTag (acc ++ literal skipLeading piece) (offset + byteLength piece) rest := by
  rw [stretchFrom]
  split
  next hbreak => rw [hbreak]
  next hbreak =>
    rw [hbreak]
    rfl
  next hbreak =>
    rw [hbreak]
    rfl
  next hbreak =>
    rw [hbreak]
    rfl
  next hbreak =>
    rw [hbreak]
    rfl
  next piece rest hbreak =>
    rw [hbreak]
    show _ = behindTag _ _ ('#' :: rest)
    rw [behindTag]
    dsimp only
    split
    next hcomment => rw [hcomment]
    next hcomment => rw [hcomment]
  next piece c rest hpercent hminus hequals hhash hbreak =>
    rw [hbreak]
    show _ = behindTag _ _ (c :: rest)
    rw [behindTag]
    · exact hpercent
    · exact hminus
    · exact hequals
    · exact hhash

/-- A tag at the front ends an empty piece. -/
theorem stretchFrom_tag (acc : List Char) (offset : Nat) (rest : List Char) :
    stretchFrom acc false offset ('<' :: '%' :: rest) = behindTag acc offset rest := by
  rw [stretchFrom_eq]
  show behindTag (acc ++ []) (offset + 0) rest = _
  rw [List.append_nil, Nat.add_zero]

/-- Characters at the front that belong to no tag say what they say on their own. -/
theorem stretchFrom_front (ds : List Char)
    (hbreak : breakTag (ds ++ cs) = (breakTag cs).map fun (before, rest) => (ds ++ before, rest))
    (hliteral : ∀ piece, piece <+: cs → literal false (ds ++ piece) = es ++ literal false piece) :
    stretchFrom acc false offset (ds ++ cs)
      = stretchFrom (acc ++ es) false (offset + byteLength ds) cs := by
  rw [stretchFrom_eq, stretchFrom_eq, hbreak]
  cases hcs : breakTag cs with
  | none =>
      show Except.ok (Stretch.mk _ _ _) = _
      rw [hliteral cs (List.prefix_refl cs), byteLength_append, List.append_assoc, Nat.add_assoc]
  | some found =>
      obtain ⟨piece, rest⟩ := found
      have hpiece : piece <+: cs := ⟨_, (breakTag_spec hcs).symm⟩
      show behindTag _ _ rest = behindTag _ _ rest
      rw [hliteral piece hpiece, byteLength_append, List.append_assoc, Nat.add_assoc]

/-! ## Written text -/

/-- Literal text with its tags doubled, from left to right. -/
def written : List Char → List Char
  | [] => []
  | '<' :: '%' :: cs => '<' :: '%' :: '%' :: written cs
  | '%' :: '>' :: cs => '%' :: '%' :: '>' :: written cs
  | c :: cs => c :: written cs

/-- What may follow literal text: nothing, or a tag. -/
def Tagged (tail : List Char) : Prop := tail = [] ∨ ∃ rest, tail = '<' :: rest

/-- The first character is written as it is. -/
theorem head?_written (cs : List Char) : (written cs).head? = cs.head? := by
  unfold written
  split
  · rfl
  · rfl
  · rfl
  · rfl

/-- A character in front of what follows written text is one of the text, unless it begins a tag. -/
theorem head?_of_written (htail : Tagged tail) (h : (written cs ++ tail).head? = some c)
    (hc : c ≠ '<') : cs.head? = some c := by
  rw [List.head?_append, head?_written] at h
  cases hcs : cs.head? with
  | some d => rwa [hcs] at h
  | none =>
      rw [hcs] at h
      rcases htail with rfl | ⟨rest, rfl⟩
      · exact nomatch h
      · exact absurd (Option.some.inj h).symm hc

/-- Behind written text, no character of it is joined to the end of a tag. -/
theorem not_prefix_written (htail : Tagged tail) : ¬ ['%', '>'] <+: written cs ++ tail := by
  rintro ⟨rest, heq⟩
  fun_cases written cs with
  | case1 =>
    rcases htail with rfl | ⟨tail, rfl⟩
    · exact nomatch heq
    · exact nomatch heq
  | case2 => exact nomatch heq
  | case3 => exact nomatch heq
  | case4 c cs hopen hclose =>
    have hfront : '%' :: '>' :: rest = c :: (written cs ++ tail) := by
      rw [written] at heq
      · exact heq
      · exact hopen
      · exact hclose
    obtain ⟨hc, hrest⟩ := List.cons.inj hfront
    have hhead : cs.head? = some '>' := head?_of_written htail (by rw [← hrest]; rfl) (by decide)
    obtain ⟨cs, rfl⟩ := List.head?_eq_some_iff.1 hhead
    exact hclose cs hc.symm rfl

/-- A character that begins no doubled mark stands for itself. -/
theorem literal_char (h : ¬ ['%', '%', '>'] <+: c :: piece) :
    literal false (c :: piece) = c :: literal false piece := by
  show replace.go ['%', '%', '>'] ['%', '>'] 0 (c :: piece) = c :: replace.go _ _ 0 piece
  rw [replace.go, if_neg (mt List.isPrefixOf_iff_prefix.1 h)]

/-- A character that begins no tag stays in front of the next one. -/
theorem breakTag_char (h : c = '<' → cs.head? ≠ some '%') :
    breakTag (c :: cs) = (breakTag cs).map fun (before, rest) => (c :: before, rest) := by
  rw [breakTag]
  rintro rest hc rfl
  exact h hc rfl

/-- A tag that is doubled says one. -/
theorem stretchFrom_opening (acc : List Char) (offset : Nat) (cs : List Char) :
    stretchFrom acc false offset ('<' :: '%' :: '%' :: cs)
      = stretchFrom (acc ++ ['<', '%']) false (offset + byteLength ['<', '%', '%']) cs :=
  stretchFrom_tag acc offset _

/-- The end of a tag that is doubled says one. -/
theorem stretchFrom_closing (acc : List Char) (offset : Nat) (cs : List Char) :
    stretchFrom acc false offset ('%' :: '%' :: '>' :: cs)
      = stretchFrom (acc ++ ['%', '>']) false (offset + byteLength ['%', '%', '>']) cs := by
  refine stretchFrom_front ['%', '%', '>'] ?_ fun piece _ => rfl
  show (((breakTag cs).map _).map _).map _ = _
  cases breakTag cs <;> rfl

/-- A character that is in no tag says itself. -/
theorem stretchFrom_char (hopen : c = '<' → cs.head? ≠ some '%') (hclose : ¬ ['%', '>'] <+: cs)
    (acc : List Char) (offset : Nat) : stretchFrom acc false offset (c :: cs)
      = stretchFrom (acc ++ [c]) false (offset + c.utf8Size) cs := by
  refine stretchFrom_front [c] (breakTag_char hopen) ?_
  intro piece hpiece
  refine literal_char fun hends => hclose ?_
  obtain ⟨rest, heq⟩ := hends
  exact List.IsPrefix.trans ⟨rest, (List.cons.inj heq).2⟩ hpiece

/-- Written text says what was written. -/
theorem stretchFrom_written (htail : Tagged tail) :
    stretchFrom acc false offset (written cs ++ tail)
      = stretchFrom (acc ++ cs) false (offset + byteLength (written cs)) tail := by
  fun_induction written cs generalizing acc offset with
  | case1 =>
    rw [List.append_nil]
    rfl
  | case2 cs ih =>
    refine (stretchFrom_opening acc offset (written cs ++ tail)).trans ?_
    rw [ih, List.append_assoc, Nat.add_assoc, ← byteLength_append]
    rfl
  | case3 cs ih =>
    refine (stretchFrom_closing acc offset (written cs ++ tail)).trans ?_
    rw [ih, List.append_assoc, Nat.add_assoc, ← byteLength_append]
    rfl
  | case4 c cs hopen hclose ih =>
    have hfront : c = '<' → (written cs ++ tail).head? ≠ some '%' := by
      intro hc hhead
      obtain ⟨cs, rfl⟩ := List.head?_eq_some_iff.1 (head?_of_written htail hhead (by decide))
      exact hopen cs hc rfl
    refine (stretchFrom_char hfront (not_prefix_written htail) acc offset).trans ?_
    rw [ih, List.append_assoc, Nat.add_assoc]
    rfl

/-! ## Comments -/

/-- A comment that ends at the first `%>` which is meant to end it: others stand behind a percent
sign. It has no minus sign at its ends, where that would remove blanks. -/
structure Comment where
  body : List Char
  ends_behind_percent : ∀ before after, body = before ++ '%' :: '>' :: after →
    before.getLast? = some '%'
  last_ne_percent : body.getLast? ≠ some '%'
  first_ne_minus : body.head? ≠ some '-'
  last_ne_minus : body.getLast? ≠ some '-'

/-- A comment with its tags. -/
def Comment.spelling (c : Comment) : List Char := '<' :: '%' :: '#' :: c.body ++ ['%', '>']

/-- A character that ends no comment stays in it. -/
theorem breakComment_char (h : c = '%' → cs.head? = some '>' → last = '%') :
    breakComment last (c :: cs) = (breakComment c cs).map fun (before, rest) =>
      (c :: before, rest) := by
  rw [breakComment.eq_def]
  split
  next heq => exact nomatch heq
  next after heq =>
    obtain ⟨rfl, rfl⟩ := List.cons.inj heq
    exact if_pos (h rfl rfl)
  next heq =>
    obtain ⟨rfl, rfl⟩ := List.cons.inj heq
    rfl

/-- The text of a comment ends where it is meant to. -/
theorem breakComment_append (hinner : ∀ before after, cs = before ++ '%' :: '>' :: after →
      (last :: before).getLast? = some '%')
    (hlast : (last :: cs).getLast? ≠ some '%') (rest : List Char) :
    breakComment last (cs ++ '%' :: '>' :: rest) = some (cs, rest) := by
  induction cs generalizing last with
  | nil =>
      have hne : last ≠ '%' := fun heq => hlast (congrArg some heq)
      show breakComment last ('%' :: '>' :: rest) = _
      rw [breakComment, if_neg hne]
  | cons c cs ih =>
      have hchar : c = '%' → (cs ++ '%' :: '>' :: rest).head? = some '>' → last = '%' := by
        rintro rfl hhead
        cases cs with
        | nil => exact nomatch hhead
        | cons d cs =>
            obtain rfl : d = '>' := Option.some.inj hhead
            exact Option.some.inj (hinner [] cs rfl)
      have hinner' : ∀ before after, cs = before ++ '%' :: '>' :: after →
          (c :: before).getLast? = some '%' := by
        rintro before after rfl
        exact hinner (c :: before) after rfl
      show breakComment last (c :: (cs ++ '%' :: '>' :: rest)) = _
      rw [breakComment_char hchar, ih hinner' hlast]
      rfl

/-- A comment says nothing. -/
theorem stretchFrom_comment (c : Comment) (acc : List Char) (offset : Nat) (rest : List Char) :
    stretchFrom acc false offset (c.spelling ++ rest)
      = stretchFrom acc false (offset + byteLength c.spelling) rest := by
  -- neither the body nor its two ends can be taken for the end of the tag
  have hinner : ∀ before after, c.body = before ++ '%' :: '>' :: after →
      ('#' :: before).getLast? = some '%' := by
    intro before after hbody
    rw [List.getLast?_cons, c.ends_behind_percent before after hbody]
    rfl
  have hlast : ('#' :: c.body).getLast? ≠ some '%' := by
    rw [List.getLast?_cons]
    cases hbody : c.body.getLast? with
    | none => decide
    | some d => exact fun heq => c.last_ne_percent (hbody.trans heq)
  have hfirst : (c.body ++ '%' :: '>' :: rest).head? ≠ some '-' := by
    rw [List.head?_append]
    cases hbody : c.body.head? with
    | none =>
        show some '%' ≠ some '-'
        decide
    | some d => exact fun heq => c.first_ne_minus (hbody.trans heq)
  have hspelling : c.spelling ++ rest = '<' :: '%' :: '#' :: (c.body ++ '%' :: '>' :: rest) := by
    simp only [Comment.spelling, List.cons_append, List.append_assoc, List.nil_append]
  rw [hspelling, stretchFrom_tag]
  show behindTag acc offset ('#' :: _) = _
  rw [behindTag, breakComment_append hinner hlast]
  dsimp only
  rw [if_neg hfirst, decide_eq_false c.last_ne_minus]
  have hlength : byteLength c.spelling = 5 + byteLength c.body := by
    show 1 + (1 + (1 + byteLength (c.body ++ ['%', '>']))) = _
    rw [byteLength_append]
    show 1 + (1 + (1 + (byteLength c.body + 2))) = _
    omega
  rw [hlength, Nat.add_assoc]

/-! ## Templates -/

/-- A text and then comments, with a text behind each; the texts may be empty. -/
def spelling (cs : List Char) (parts : List (Comment × List Char)) : List Char :=
  written cs ++ parts.flatMap fun (c, ds) => c.spelling ++ written ds

/-- What the texts say. -/
def said (cs : List Char) (parts : List (Comment × List Char)) : List Char :=
  cs ++ parts.flatMap Prod.snd

/-- Written texts and comments are one stretch. -/
theorem stretchFrom_spelling (cs : List Char) (parts : List (Comment × List Char)) :
    stretchFrom acc false offset (spelling cs parts)
      = .ok ⟨acc ++ said cs parts, .endOfText, offset + byteLength (spelling cs parts)⟩ := by
  induction parts generalizing acc offset cs with
  | nil =>
      rw [spelling, said, List.flatMap_nil, List.flatMap_nil, stretchFrom_written (.inl rfl),
        stretchFrom_eq]
      show Except.ok (Stretch.mk (acc ++ cs ++ []) _ _) = _
      rw [List.append_nil, List.append_nil, List.append_nil]
      rfl
  | cons part parts ih =>
      obtain ⟨c, ds⟩ := part
      have hspelling : spelling cs ((c, ds) :: parts)
          = written cs ++ (c.spelling ++ spelling ds parts) := by
        rw [spelling, List.flatMap_cons, spelling, List.append_assoc]
      have hsaid : said cs ((c, ds) :: parts) = cs ++ said ds parts := by
        rw [said, List.flatMap_cons, said]
      have htail : Tagged (c.spelling ++ spelling ds parts) := .inr ⟨_, rfl⟩
      rw [hspelling, hsaid, stretchFrom_written htail, stretchFrom_comment, ih,
        byteLength_append, byteLength_append]
      simp only [List.append_assoc, Nat.add_assoc]

/-- A template of texts and comments is one stretch, which says what the texts say. -/
theorem stretch_spelling (cs : List Char) (parts : List (Comment × List Char)) :
    stretch false 0 (spelling cs parts)
      = .ok ⟨said cs parts, .endOfText, byteLength (spelling cs parts)⟩ := by
  rw [stretch, stretchFrom_spelling, Nat.zero_add, List.nil_append]

end Manifest.Template
