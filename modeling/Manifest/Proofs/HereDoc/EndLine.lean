import Manifest.HereDoc.Header
import Manifest.Proofs.HereDoc.Lines

/-!
# Which lines are end lines

An end line is read from the front: blanks, bar and minus sign are taken as far as they go, and what
is left has to begin with the tag. That finds every line spelled like an end line as long as the
tag does not begin with what may stand before it and does not end like the line break. A tag that
does is not even found on the line that it is spelled as.

* `Distinct` — tags that are told from what stands around them.
* `ofLine?_iff` — the end lines of such a tag are those that are spelled like one.
* `distinct_iff` — the tag alone on a line is an end line just for such a tag.
* `parse_endLines` — the end lines of a header.
-/

namespace Manifest.HereDoc

open Text (isSpaceOrTab)

variable {cs line tag rest spelling : List Char} {c : Char} {e : EndLine} {present : Bool}
  {header : Header}

/-- A tag that neither begins like the blanks and marks before it nor ends like the line break
behind it. -/
structure Distinct (tag : List Char) : Prop where
  head : ∀ c ∈ tag.head?, isSpaceOrTab c = false ∧ c ≠ '|' ∧ c ≠ '-'
  last : tag.getLast? ≠ some '\r'

instance (tag : List Char) : Decidable (Distinct tag) :=
  -- only the head is looked at, not all characters
  have : Decidable (∀ c ∈ tag.head?, isSpaceOrTab c = false ∧ c ≠ '|' ∧ c ≠ '-') :=
    Option.decidableForallMem tag.head?
  decidable_of_iff ((∀ c ∈ tag.head?, isSpaceOrTab c = false ∧ c ≠ '|' ∧ c ≠ '-') ∧
    tag.getLast? ≠ some '\r') ⟨fun h => ⟨h.1, h.2⟩, fun h => ⟨h.head, h.last⟩⟩

/-! ## Reading what is spelled -/

/-- Blanks are passed over as far as the first character that is none. -/
theorem dropWhile_blanks {blanks : List Char} (hblanks : blanks.all isSpaceOrTab)
    (hrest : ∀ d ∈ rest.head?, isSpaceOrTab d = false) :
    (blanks ++ rest).dropWhile isSpaceOrTab = rest := by
  rw [List.dropWhile_append_of_pos (List.all_eq_true.1 hblanks)]
  cases rest with
  | nil => rfl
  | cons d ds => rw [List.dropWhile_cons_of_neg (by rw [hrest d rfl]; exact Bool.false_ne_true)]

/-- A mark is found where it is spelled, and only there. -/
theorem skipMark_append (h : Mark c present spelling)
    (hrest : ∀ d ∈ rest.head?, isSpaceOrTab d = false ∧ d ≠ c) :
    skipMark c (spelling ++ rest) = (rest, present) := by
  cases present with
  | false =>
      obtain rfl : spelling = [] := h
      cases rest with
      | nil => rfl
      | cons d ds => exact if_neg (hrest d rfl).2
  | true =>
      obtain ⟨blanks, rfl, hblanks⟩ := h
      rw [List.cons_append, skipMark, if_pos rfl,
        dropWhile_blanks hblanks fun d hd => (hrest d hd).1]

/-- What a mark and the text behind it begin with. -/
theorem Mark.head {p : Char → Prop} (h : Mark c present spelling) (hmark : p c)
    (hrest : ∀ d ∈ rest.head?, p d) : ∀ d ∈ (spelling ++ rest).head?, p d := by
  cases present with
  | false =>
      obtain rfl : spelling = [] := h
      exact hrest
  | true =>
      obtain ⟨blanks, rfl, -⟩ := h
      rintro d hd
      obtain rfl := Option.some.inj hd
      exact hmark

/-- A carriage return at the end of a line is dropped, and only that one. -/
theorem dropReturn_append {return' : List Char} (hline : line.getLast? ≠ some '\r')
    (hreturn : return' = [] ∨ return' = ['\r']) : dropReturn (line ++ return') = line := by
  rcases hreturn with rfl | rfl
  · rw [List.append_nil, dropReturn, if_neg hline]
  · rw [dropReturn, List.getLast?_concat, if_pos rfl, List.dropLast_concat]

/-- What is read off a line once its marks are known. -/
theorem ofLine?_eq {afterBar : List Char} {barred trims : Bool}
    (hbar : skipMark '|' ((dropReturn line).dropWhile isSpaceOrTab) = (afterBar, barred))
    (hminus : skipMark '-' afterBar = (rest, trims)) :
    EndLine.ofLine? line tag =
      if tag.isPrefixOf rest && (rest.drop tag.length).all isSpaceOrTab then
        some ⟨if barred then (dropReturn line).length
          - ((dropReturn line).dropWhile isSpaceOrTab).length else 0, trims⟩
      else none := by
  unfold EndLine.ofLine?
  dsimp only
  rw [hbar]
  dsimp only
  rw [hminus]

/-- Every line spelled like an end line of a distinct tag is found to be one. -/
theorem EndLine.Spells.ofLine? (h : e.Spells tag line) (htag : Distinct tag) (hne : tag ≠ []) :
    EndLine.ofLine? line tag = some e := by
  obtain ⟨indent, bar, minus, trail, return', barred, rfl, hindent, hbar, hminus, htrail, hreturn,
    hmargin⟩ := h
  have hhead : ∀ d ∈ (tag ++ trail).head?, isSpaceOrTab d = false ∧ d ≠ '|' ∧ d ≠ '-' := by
    rw [List.head?_append_of_ne_nil _ hne]
    exact htag.head
  have hlast : (tag ++ trail).getLast? ≠ some '\r' := by
    rcases List.eq_nil_or_concat' trail with rfl | ⟨blanks, d, rfl⟩
    · rw [List.append_nil]
      exact htag.last
    · rw [← List.append_assoc, List.getLast?_concat]
      rintro ⟨⟩
      exact absurd (List.all_eq_true.1 htrail '\r' (List.mem_append_right _ List.mem_cons_self))
        (by decide)
  -- what each of the steps leaves
  have hbody : dropReturn (indent ++ bar ++ minus ++ tag ++ trail ++ return')
      = indent ++ (bar ++ (minus ++ (tag ++ trail))) := by
    rw [dropReturn_append ?_ hreturn]
    · simp only [List.append_assoc]
    · have hrest : tag ++ trail ≠ [] := List.append_ne_nil_of_left_ne_nil hne _
      rwa [List.append_assoc, List.getLast?_append_of_ne_nil _ hrest]
  have hminusRest : skipMark '-' (minus ++ (tag ++ trail)) = (tag ++ trail, e.trims) :=
    skipMark_append hminus fun d hd => ⟨(hhead d hd).1, (hhead d hd).2.2⟩
  have hbarRest : skipMark '|' (bar ++ (minus ++ (tag ++ trail)))
      = (minus ++ (tag ++ trail), barred) :=
    skipMark_append hbar (hminus.head ⟨rfl, by decide⟩
      fun d hd => ⟨(hhead d hd).1, (hhead d hd).2.1⟩)
  have hindented : (indent ++ (bar ++ (minus ++ (tag ++ trail)))).dropWhile isSpaceOrTab
      = bar ++ (minus ++ (tag ++ trail)) :=
    dropWhile_blanks hindent (hbar.head rfl (hminus.head rfl fun d hd => (hhead d hd).1))
  rw [← hindented, ← hbody] at hbarRest
  rw [ofLine?_eq hbarRest hminusRest, hbody, hindented, List.drop_left, htrail,
    List.isPrefixOf_iff_prefix.2 (List.prefix_append tag trail), if_pos (by rfl),
    @List.length_append _ indent, Nat.add_sub_cancel, ← hmargin]

/-- The end lines of a distinct tag are the lines spelled like one. -/
theorem ofLine?_iff (htag : Distinct tag) (hne : tag ≠ []) :
    EndLine.ofLine? line tag = some e ↔ e.Spells tag line :=
  ⟨ofLine?_spells, fun h => h.ofLine? htag hne⟩

/-! ## Tags that are not found -/

/-- The tag alone is spelled like an end line that asks for nothing. -/
theorem spells_self (tag : List Char) : EndLine.Spells ⟨0, false⟩ tag tag :=
  ⟨[], [], [], [], [], false, (List.append_nil _).symm ▸ (List.append_nil tag).symm, rfl, rfl, rfl,
    rfl, .inl rfl, rfl⟩

theorem skipMark_length_le (c : Char) (cs : List Char) : (skipMark c cs).1.length ≤ cs.length := by
  obtain ⟨spelling, hcs, -⟩ := skipMark_spec (Prod.eta (skipMark c cs)).symm
  have hlength := congrArg List.length hcs
  rw [List.length_append] at hlength
  omega

/-- A mark is taken where it stands. -/
theorem skipMark_length_lt (h : cs.head? = some c) : (skipMark c cs).1.length < cs.length := by
  obtain ⟨ds, rfl⟩ := List.head?_eq_some_iff.1 h
  rw [skipMark, if_pos rfl]
  exact Nat.lt_succ_of_le (List.length_dropWhile_le _ _)

/-- A tag that is found alone on a line is distinct: nothing of it is taken for what may stand
around it, or less than the tag would be left. -/
theorem distinct_of_ofLine? (h : EndLine.ofLine? tag tag = some e) : Distinct tag := by
  -- what is left behind the marks is as long as the tag, so that nothing of it was taken for a mark
  have htag : tag.length ≤ (skipMark '-'
      (skipMark '|' ((dropReturn tag).dropWhile isSpaceOrTab)).1).1.length := by
    rw [ofLine?_eq (Prod.eta _).symm (Prod.eta _).symm] at h
    split at h
    next hprefix => exact (List.isPrefixOf_iff_prefix.1
      (Bool.and_eq_true_iff.1 hprefix).1).length_le
    next => exact nomatch h
  have hminus := skipMark_length_le '-' (skipMark '|' ((dropReturn tag).dropWhile isSpaceOrTab)).1
  have hbar := skipMark_length_le '|' ((dropReturn tag).dropWhile isSpaceOrTab)
  have hblanks := List.length_dropWhile_le isSpaceOrTab (dropReturn tag)
  have hlast : tag.getLast? ≠ some '\r' := by
    intro hlast
    obtain ⟨front, rfl⟩ := List.getLast?_eq_some_iff.1 hlast
    rw [dropReturn, if_pos hlast, List.dropLast_concat] at htag hminus hbar hblanks
    rw [List.length_append, List.length_singleton] at htag
    omega
  refine ⟨?_, hlast⟩
  intro c hc
  obtain ⟨cs, rfl⟩ := List.head?_eq_some_iff.1 hc
  rw [dropReturn, if_neg hlast] at htag hminus hbar
  have hblank : isSpaceOrTab c = false := by
    refine Bool.eq_false_iff.2 fun hblank => ?_
    rw [List.dropWhile_cons_of_pos hblank] at htag hminus hbar
    have hless := List.length_dropWhile_le isSpaceOrTab cs
    rw [List.length_cons] at htag
    omega
  rw [List.dropWhile_cons_of_neg (Bool.eq_false_iff.1 hblank)] at htag hminus hbar
  refine ⟨hblank, ?_, ?_⟩
  · rintro rfl
    have hless : (skipMark '|' ('|' :: cs)).1.length < _ := skipMark_length_lt rfl
    omega
  · rintro rfl
    have hless : (skipMark '-' (skipMark '|' ('-' :: cs)).1).1.length < _ := skipMark_length_lt rfl
    omega

/-- The tag alone on a line is an end line just if it is distinct. -/
theorem distinct_iff (hne : tag ≠ []) :
    Distinct tag ↔ ∃ e, EndLine.ofLine? tag tag = some e := by
  constructor
  · intro h
    exact ⟨⟨0, false⟩, (spells_self tag).ofLine? h hne⟩
  · rintro ⟨e, h⟩
    exact distinct_of_ofLine? h

/-! ## Headers -/

/-- A header has a tag. -/
theorem Header.parse_tag (h : Header.parse cs = .ok header) : header.tag ≠ [] := by
  simp only [Header.parse, bind, Except.bind] at h
  split at h
  next => exact nomatch h
  next read _ =>
    split at h
    next => exact nomatch h
    next htag =>
      rw [List.isEmpty_iff] at htag
      split at h
      next => exact nomatch h
      next format _ =>
        split at h
        next => exact nomatch h
        next flags _ =>
          split at h
          next =>
            obtain rfl := Except.ok.inj h
            exact htag
          next => exact nomatch h

/-- A line that is taken for an end line of a header is spelled like one, with the margin and the
trimming that its bar and its minus sign ask for. When the tag is distinct, every line spelled like
that is taken for one. When it is not, the tag alone on a line, although it is spelled like an end
line, does not end the here-doc. -/
theorem parse_endLines (h : Header.parse cs = .ok header) :
    (∀ line e, EndLine.ofLine? line header.tag = some e → e.Spells header.tag line) ∧
    (Distinct header.tag →
      ∀ line e, EndLine.ofLine? line header.tag = some e ↔ e.Spells header.tag line) ∧
    (Distinct header.tag ↔ ∃ e, EndLine.ofLine? header.tag header.tag = some e) := by
  have hne := Header.parse_tag h
  exact ⟨fun line e => ofLine?_spells, fun htag line e => ofLine?_iff htag hne, distinct_iff hne⟩

/-- A tag in quotes with a blank in it. -/
theorem parse_endLines_quoted :
    Header.parse ['"', 'A', ' ', '-', '"'] = .ok ⟨['A', ' ', '-'], [], .none, true⟩ ∧
      Distinct ['A', ' ', '-'] ∧
      EndLine.ofLine? [' ', '|', '-', 'A', ' ', '-', '\t', '\r'] ['A', ' ', '-'] = some ⟨1, true⟩ ∧
      (EndLine.mk 1 true).Spells ['A', ' ', '-'] [' ', '|', '-', 'A', ' ', '-', '\t', '\r'] := by
  have hparse : Header.parse ['"', 'A', ' ', '-', '"'] =
      .ok ⟨['A', ' ', '-'], [], .none, true⟩ := by
    decide +kernel
  have hline : EndLine.ofLine? [' ', '|', '-', 'A', ' ', '-', '\t', '\r'] ['A', ' ', '-']
      = some ⟨1, true⟩ := by decide
  have hdistinct : Distinct ['A', ' ', '-'] := by decide
  exact ⟨hparse, hdistinct, hline, ((parse_endLines hparse).2.1 hdistinct _ _).1 hline⟩

/-- A tag that begins with a minus sign: the line that is the tag is spelled like an end line, but
it is taken for a minus sign and another tag. -/
theorem parse_endLines_minus :
    Header.parse ['-', 'A', ':', 't', 'x', 't'] = .ok ⟨['-', 'A'], ['t', 'x', 't'], .none, false⟩ ∧
      (EndLine.mk 0 false).Spells ['-', 'A'] ['-', 'A'] ∧
      EndLine.ofLine? ['-', 'A'] ['-', 'A'] = none :=
  ⟨by decide +kernel, spells_self _, by decide⟩

end Manifest.HereDoc
