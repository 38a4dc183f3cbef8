import Manifest.Proofs.HereDoc.Body
import Manifest.Proofs.Text.Lines
import Mathlib.Data.List.TakeWhile

/-!
# Lines of a body

Every line of a text but the last one ends with a line feed, and none holds another. Of each line
of a body only the blanks of the margin go, and of the last one its line break, if the end line
asks for that; all the rest is kept.

* `linesOf_ended`, `linesOf_flatten_append` — lines of a text.
* `EndLine.Spells` — how an end line is spelled; `ofLine?_spells`.
* `margin`, `lineBreak` — what may go of a line.
* `Shaped` — what is kept of the lines of a body; `shapeBody_shaped`.
* `lacking` — the blanks that lines lack to a margin; `Shaped.length_take`.
-/

namespace Manifest.HereDoc

open Text (Ended OneLine StartsLine isSpaceOrTab)

variable {cs line next kept : List Char} {before after lines raw : List (List Char)} {e : EndLine}
  {m i : Nat}

/-! ## Lines of a text -/

/-- A line that another one follows ends with a line feed. -/
theorem linesOf_ended (h : linesOf cs = before ++ line :: next :: after) : Ended line := by
  induction cs generalizing before line with
  | nil => exact absurd h.symm (List.append_ne_nil_of_right_ne_nil _ (List.cons_ne_nil _ _))
  | cons c cs ih =>
      rw [linesOf] at h
      split at h
      next hc =>
        cases before with
        | nil =>
            obtain ⟨rfl, -⟩ := List.cons.inj h
            exact ⟨[], by rw [hc]; rfl, List.not_mem_nil⟩
        | cons b before => exact ih (List.cons.inj h).2
      next hc =>
        split at h
        · -- a single line, and nothing follows it
          have hlength := congrArg List.length h
          rw [List.length_append] at hlength
          simp only [List.length_cons, List.length_nil] at hlength
          omega
        next first more heq =>
          cases before with
          | nil =>
              obtain ⟨rfl, rfl⟩ := List.cons.inj h
              obtain ⟨body, rfl, hbody⟩ :=
                ih (show linesOf cs = [] ++ first :: next :: after from heq)
              refine ⟨c :: body, rfl, ?_⟩
              rw [List.mem_cons]
              rintro (hmem | hmem)
              · exact hc hmem.symm
              · exact hbody hmem
          | cons b before =>
              obtain ⟨-, rfl⟩ := List.cons.inj h
              exact ih (show linesOf cs = (first :: before) ++ line :: next :: after from heq)

/-- Lines that another one follows end with line feeds. -/
theorem linesOf_ended_of_mem (h : linesOf cs = before ++ next :: after) (hline : line ∈ before) :
    Ended line := by
  obtain ⟨front, back, rfl⟩ := List.append_of_mem hline
  cases back with
  | nil => exact linesOf_ended (by rw [h, List.append_assoc]; rfl)
  | cons second back => exact linesOf_ended (by rw [h, List.append_assoc]; rfl)

/-- A line that ends is the first line of what it begins. -/
theorem linesOf_append (h : Ended line) (rest : List Char) :
    linesOf (line ++ rest) = line :: linesOf rest := by
  obtain ⟨body, rfl, hbody⟩ := h
  induction body with
  | nil => rfl
  | cons c body ih =>
      rw [List.mem_cons, not_or] at hbody
      rw [List.cons_append, List.cons_append, linesOf, if_neg (Ne.symm hbody.1), ih hbody.2]

/-- Lines that end are the first lines of what they begin. -/
theorem linesOf_flatten_append (h : ∀ line ∈ lines, Ended line) (rest : List Char) :
    linesOf (lines.flatten ++ rest) = lines ++ linesOf rest := by
  induction lines with
  | nil => rfl
  | cons line lines ih =>
      obtain ⟨hline, hlines⟩ := List.forall_mem_cons.1 h
      rw [List.flatten_cons, List.append_assoc, linesOf_append hline, ih hlines, List.cons_append]

/-- Lines that are ended fall apart as they were put together. -/
theorem linesOf_flatten_of_ended (h : ∀ line ∈ lines, Ended line) :
    linesOf lines.flatten = lines := by
  have hlines := linesOf_flatten_append h []
  rwa [List.append_nil, linesOf, List.append_nil] at hlines

/-- All lines of a text that ends with a line feed end with one. -/
theorem linesOf_ended_of_startsLine (h : StartsLine cs) : ∀ line ∈ linesOf cs, Ended line := by
  induction cs with
  | nil => exact fun _ hline => nomatch hline
  | cons c cs ih =>
      -- behind the first character, the text is at its end or ends likewise
      have hmore : cs ≠ [] → StartsLine cs := by
        intro hne d hd
        refine h d ?_
        rwa [List.getLast?_cons_of_ne_nil hne]
      have hrest : ∀ line ∈ linesOf cs, Ended line := by
        rcases Decidable.eq_or_ne cs [] with rfl | hne
        · exact fun _ hline => nomatch hline
        · exact ih (hmore hne)
      rw [linesOf]
      split
      next hc =>
        rw [List.forall_mem_cons]
        exact ⟨⟨[], by rw [hc]; rfl, List.not_mem_nil⟩, hrest⟩
      next hc =>
        split
        next hnil =>
          obtain rfl : cs = [] := by rw [← linesOf_flatten cs, hnil]; rfl
          exact absurd (h c rfl) hc
        next first more heq =>
          rw [heq, List.forall_mem_cons] at hrest
          obtain ⟨⟨body, rfl, hbody⟩, hmore⟩ := hrest
          rw [List.forall_mem_cons]
          exact ⟨⟨c :: body, rfl, List.not_mem_cons_of_ne_of_not_mem (Ne.symm hc) hbody⟩, hmore⟩

/-- The first line of a text begins with the blanks with which the text begins. -/
theorem takeWhile_headD_linesOf (cs : List Char) :
    ((linesOf cs).headD []).takeWhile isSpaceOrTab = cs.takeWhile isSpaceOrTab := by
  induction cs with
  | nil => rfl
  | cons c cs ih =>
      rw [linesOf]
      split
      next hc => rw [hc]; rfl
      next =>
        split
        next hnil =>
          obtain rfl : cs = [] := by rw [← linesOf_flatten cs, hnil]; rfl
          rfl
        next first more heq =>
          rw [heq, List.headD_cons] at ih
          rw [List.headD_cons, List.takeWhile_cons, List.takeWhile_cons, ih]

/-! ## End lines -/

/-- A mark of an end line with the blanks behind it; `present` tells whether it is there. -/
def Mark (c : Char) (present : Bool) (spelling : List Char) : Prop :=
  if present then ∃ blanks, spelling = c :: blanks ∧ blanks.all isSpaceOrTab else spelling = []

/-- How an end line is spelled: `[ \t]*(|[ \t]*)?(-[ \t]*)?TAG[ \t]*\r?`. The bar asks for a margin
as wide as the blanks before it, the minus sign for the last line break to be removed. -/
def EndLine.Spells (e : EndLine) (tag line : List Char) : Prop :=
  ∃ indent bar minus trail return' barred,
    line = indent ++ bar ++ minus ++ tag ++ trail ++ return' ∧ indent.all isSpaceOrTab ∧
      Mark '|' barred bar ∧ Mark '-' e.trims minus ∧ trail.all isSpaceOrTab ∧
      (return' = [] ∨ return' = ['\r']) ∧ e.margin = if barred then indent.length else 0

/-- A line is what is left of it and a carriage return, if it had one. -/
theorem exists_dropReturn (line : List Char) :
    ∃ return', line = dropReturn line ++ return' ∧ (return' = [] ∨ return' = ['\r']) := by
  unfold dropReturn
  split
  next h =>
    obtain ⟨body, rfl⟩ := List.getLast?_eq_some_iff.1 h
    exact ⟨['\r'], by rw [List.dropLast_concat], .inr rfl⟩
  next => exact ⟨[], (List.append_nil line).symm, .inl rfl⟩

/-- The text behind a mark, and whether the mark was there. -/
theorem skipMark_spec {c : Char} {rest : List Char} {present : Bool}
    (h : skipMark c cs = (rest, present)) : ∃ spelling, cs = spelling ++ rest ∧
      Mark c present spelling := by
  unfold skipMark at h
  split at h
  next d ds =>
    split at h
    next hd =>
      obtain ⟨rfl, rfl⟩ := Prod.mk.inj h
      refine ⟨d :: ds.takeWhile isSpaceOrTab, ?_, ds.takeWhile isSpaceOrTab, by rw [hd], ?_⟩
      · rw [List.cons_append, List.takeWhile_append_dropWhile]
      · exact List.all_takeWhile
    next =>
      obtain ⟨rfl, rfl⟩ := Prod.mk.inj h
      exact ⟨[], rfl, rfl⟩
  next =>
    obtain ⟨rfl, rfl⟩ := Prod.mk.inj h
    exact ⟨[], rfl, rfl⟩

/-- A line that is taken for an end line of a tag is spelled like one. -/
theorem ofLine?_spells {tag : List Char} (h : EndLine.ofLine? line tag = some e) :
    e.Spells tag line := by
  obtain ⟨return', hline, hreturn⟩ := exists_dropReturn line
  unfold EndLine.ofLine? at h
  generalize dropReturn line = body at h hline
  dsimp only at h
  cases hbar : skipMark '|' (body.dropWhile isSpaceOrTab) with
  | mk afterBar barred =>
      cases hminus : skipMark '-' afterBar with
      | mk rest trims =>
          rw [hbar] at h
          dsimp only at h
          rw [hminus] at h
          dsimp only at h
          split at h
          next htag =>
            obtain rfl := Option.some.inj h
            rw [Bool.and_eq_true] at htag
            obtain ⟨bar, hindented, hbarred⟩ := skipMark_spec hbar
            obtain ⟨minus, hafter, htrims⟩ := skipMark_spec hminus
            obtain ⟨trail, rfl⟩ := List.isPrefixOf_iff_prefix.1 htag.1
            have hbody := List.takeWhile_append_dropWhile (p := isSpaceOrTab) (l := body)
            have hlength := congrArg List.length hbody
            rw [List.length_append] at hlength
            rw [hindented, hafter] at hbody
            refine ⟨body.takeWhile isSpaceOrTab, bar, minus, trail, return', barred, ?_,
              List.all_takeWhile, hbarred, htrims, ?_, hreturn, ?_⟩
            · refine hline.trans (congrArg (· ++ return') (hbody.symm.trans ?_))
              simp only [List.append_assoc]
            · rw [List.drop_left] at htag
              exact htag.2
            · rw [← hlength, Nat.add_sub_cancel]
          next => exact nomatch h

/-! ## What may go of a line -/

/-- The blanks at the front of a line that a margin takes away. -/
def margin (m : Nat) (line : List Char) : List Char := (line.takeWhile isSpaceOrTab).take m

/-- The line break at the end of a line: a line feed, with a carriage return before it, or
nothing. -/
def lineBreak (line : List Char) : List Char :=
  if line.getLast? = some '\n' then
    if line.dropLast.getLast? = some '\r' then ['\r', '\n'] else ['\n']
  else []

/-- A line is its margin with the rest behind it. -/
theorem margin_append_stripMargin (m : Nat) (line : List Char) :
    margin m line ++ stripMargin m line = line := by
  fun_induction stripMargin m line with
  | case1 m c cs hc ih =>
      rw [margin, List.takeWhile_cons_of_pos hc, List.take_succ_cons, List.cons_append,
        ← margin, ih]
  | case2 m c cs hc =>
      rw [margin, List.takeWhile_cons_of_neg hc, List.take_nil, List.nil_append]
  | case3 m cs hm =>
      cases m with
      | zero => rfl
      | succ m =>
          cases cs with
          | nil => rfl
          | cons c cs => exact absurd rfl (hm m c cs rfl)

/-- A margin is blank. -/
theorem isSpaceOrTab_of_mem_margin {c : Char} (h : c ∈ margin m line) : isSpaceOrTab c :=
  List.mem_takeWhile_imp (List.mem_of_mem_take h)

theorem not_mem_margin {c : Char} (h : isSpaceOrTab c = false) (m : Nat) (line : List Char) :
    c ∉ margin m line := fun hc => Bool.noConfusion (h.symm.trans (isSpaceOrTab_of_mem_margin hc))

/-- A character that is no blank is the last one of a line if it is so without the margin. -/
theorem getLast?_margin_append {c : Char} (h : isSpaceOrTab c = false) (m : Nat)
    (line rest : List Char) :
    (margin m line ++ rest).getLast? = some c ↔ rest.getLast? = some c := by
  rcases List.eq_nil_or_concat' rest with rfl | ⟨body, d, rfl⟩
  · constructor
    · rw [List.append_nil]
      exact fun hlast => absurd (List.mem_of_getLast? hlast) (not_mem_margin h m line)
    · exact fun hlast => nomatch hlast
  · rw [← List.append_assoc, List.getLast?_concat, List.getLast?_concat]

/-- The margin does not make a line break. -/
theorem lineBreak_margin_append (m : Nat) (line rest : List Char) :
    lineBreak (margin m line ++ rest) = lineBreak rest := by
  rcases List.eq_nil_or_concat' rest with rfl | ⟨body, d, rfl⟩
  · rw [lineBreak, if_neg (mt (getLast?_margin_append rfl m line []).1 nofun)]
    rfl
  · rw [lineBreak, lineBreak, ← List.append_assoc, List.getLast?_concat, List.getLast?_concat,
      List.dropLast_concat, List.dropLast_concat]
    simp only [getLast?_margin_append (c := '\r') rfl]

/-- The line break that is removed is the one at the end of the line. -/
theorem dropBreak_append (line : List Char) :
    (if line.getLast? = some '\n' then dropReturn line.dropLast else line) ++ lineBreak line
      = line := by
  rw [lineBreak]
  split
  next hfeed =>
    obtain ⟨body, rfl⟩ := List.getLast?_eq_some_iff.1 hfeed
    rw [List.dropLast_concat, dropReturn]
    split
    next hreturn =>
      obtain ⟨body, rfl⟩ := List.getLast?_eq_some_iff.1 hreturn
      rw [List.dropLast_concat, List.append_assoc]
      rfl
    next => rfl
  next => exact List.append_nil line

theorem takeWhile_lineBreak (line : List Char) : (lineBreak line).takeWhile isSpaceOrTab = [] := by
  rw [lineBreak]
  split
  · split <;> rfl
  · rfl

/-! ## What is kept -/

/-- What is kept of the lines of a body: each loses the blanks of its margin, and the last one its
line break, if the end line asks for that. -/
structure Shaped (e : EndLine) (raw lines : List (List Char)) : Prop where
  length : lines.length = raw.length
  line : ∀ i (h : i < raw.length) (h' : i < lines.length), raw[i] =
    margin e.margin raw[i] ++ lines[i]
    ++ (if e.trims ∧ i + 1 = raw.length then lineBreak raw[i] else [])

/-- Trimming the last line keeps the number of lines. -/
theorem length_trimLast (lines : List (List Char)) : (trimLast lines).length = lines.length := by
  fun_induction trimLast lines with
  | case1 => rfl
  | case2 => rfl
  | case3 line lines _ ih => rw [List.length_cons, List.length_cons, ih]

/-- Only the last line loses its line break. -/
theorem trimLast_append (h : i < lines.length) (h' : i < (trimLast lines).length) :
    (trimLast lines)[i] ++ (if i + 1 = lines.length then lineBreak lines[i] else []) =
      lines[i] := by
  fun_induction trimLast lines generalizing i with
  | case1 => exact absurd h (Nat.not_lt_zero i)
  | case2 line =>
      obtain rfl : i = 0 := Nat.lt_one_iff.1 h
      rw [if_pos (show 0 + 1 = [line].length from rfl)]
      exact dropBreak_append line
  | case3 line lines hmore ih =>
      cases i with
      | zero =>
          have hlines : lines ≠ [] := fun hnil => hmore hnil
          have hlength := List.length_pos_iff.2 hlines
          rw [if_neg (by rw [List.length_cons]; omega), List.append_nil]
          rfl
      | succ i =>
          have hi := Nat.lt_of_succ_lt_succ h
          have ih := ih hi (by rw [length_trimLast]; exact hi)
          simpa only [List.length_cons, List.getElem_cons_succ, Nat.add_right_cancel_iff] using ih

/-- The body of a here-doc keeps of its lines what its end line leaves of them. -/
theorem shapeBody_shaped (e : EndLine) (raw : List (List Char)) :
    Shaped e raw (shapeBody e raw) := by
  rw [shapeBody]
  split
  next htrims =>
    refine ⟨by rw [length_trimLast, List.length_map], ?_⟩
    intro i hi hi'
    have hmap : i < (raw.map (stripMargin e.margin)).length := by rwa [List.length_map]
    have hlast := trimLast_append hmap hi'
    rw [List.length_map, List.getElem_map, ← lineBreak_margin_append e.margin raw[i],
      margin_append_stripMargin] at hlast
    rw [List.append_assoc]
    simp only [htrims, true_and]
    rw [hlast, margin_append_stripMargin]
  next htrims =>
    refine ⟨List.length_map _, ?_⟩
    intro i hi hi'
    rw [if_neg (fun h => htrims h.1), List.append_nil, List.getElem_map, margin_append_stripMargin]

/-- Of the blanks of a line, those behind its margin are kept. -/
theorem Shaped.takeWhile_eq (h : Shaped e raw lines) (hi : i < raw.length)
    (hi' : i < lines.length) :
    raw[i].takeWhile isSpaceOrTab
      = margin e.margin raw[i] ++ lines[i].takeWhile isSpaceOrTab := by
  have hline := h.line i hi hi'
  generalize hback : (if e.trims ∧ i + 1 = raw.length then lineBreak raw[i] else []) = back at hline
  have hblank : back.takeWhile isSpaceOrTab = [] := by
    rw [← hback]
    split
    · exact takeWhile_lineBreak _
    · rfl
  calc raw[i].takeWhile isSpaceOrTab
      = (margin e.margin raw[i] ++ (lines[i] ++ back)).takeWhile isSpaceOrTab := by
        rw [← List.append_assoc, ← hline]
    _ = margin e.margin raw[i] ++ (lines[i] ++ back).takeWhile isSpaceOrTab :=
        List.takeWhile_append_of_pos fun _ hc => isSpaceOrTab_of_mem_margin hc
    _ = margin e.margin raw[i] ++ lines[i].takeWhile isSpaceOrTab := by
        rw [List.takeWhile_append, hblank, List.append_nil]
        split
        next hall => rw [(List.takeWhile_prefix _).eq_of_length hall]
        next => rfl

/-! Lines of a body end as lines of the text do. -/

/-- A part of a line holds no line feed before its last character. -/
theorem oneLine_of_append {front line back : List Char} (h : OneLine (front ++ line ++ back)) :
    OneLine line := by
  intro hmem
  refine h ?_
  rcases List.eq_nil_or_concat' line with rfl | ⟨body, c, rfl⟩
  · exact nomatch hmem
  · rw [List.dropLast_concat] at hmem
    rw [← List.append_assoc, List.append_assoc, List.singleton_append,
      List.dropLast_append_of_ne_nil (List.cons_ne_nil c back)]
    exact List.mem_append_left _ (List.mem_append_right _ hmem)

/-- A shaped line is one line. -/
theorem Shaped.oneLine (h : Shaped e raw lines) (hraw : ∀ line ∈ raw, Ended line)
    (hi : i < lines.length) : OneLine lines[i] := by
  have hi' : i < raw.length := h.length ▸ hi
  have hline := (hraw raw[i] (List.getElem_mem hi')).oneLine
  rw [h.line i hi' hi] at hline
  exact oneLine_of_append hline

/-- All lines of a body but the last one end with a line feed. -/
theorem Shaped.ended (h : Shaped e raw lines) (hraw : ∀ line ∈ raw, Ended line)
    (hi : i + 1 < lines.length) : Ended lines[i] := by
  have hi' : i < raw.length := by rw [← h.length]; omega
  have hlast : ¬ (e.trims ∧ i + 1 = raw.length) := by rw [← h.length]; omega
  have hline := h.line i hi' (Nat.lt_of_succ_lt hi)
  rw [if_neg hlast, List.append_nil] at hline
  obtain ⟨body, hbody, -⟩ := hraw raw[i] (List.getElem_mem hi')
  -- the line feed at the end of the line is not in the margin
  have hfeed : (margin e.margin raw[i] ++ lines[i]).getLast? = some '\n' := by
    rw [← hline, hbody, List.getLast?_concat]
  obtain ⟨kept, hkept⟩ := List.getLast?_eq_some_iff.1 ((getLast?_margin_append rfl _ _ _).1 hfeed)
  have hone := h.oneLine hraw (Nat.lt_of_succ_lt hi)
  rw [OneLine, hkept, List.dropLast_concat] at hone
  exact ⟨kept, hkept, hone⟩

/-- Lines of a body that another one follows end. -/
theorem Shaped.ended_of_mem (h : Shaped e raw lines) (hraw : ∀ line ∈ raw, Ended line)
    (hlines : lines = before ++ next :: after) (hline : line ∈ before) : Ended line := by
  obtain ⟨i, hi, rfl⟩ := List.getElem_of_mem hline
  have hmore : i + 1 < lines.length := by
    rw [hlines, List.length_append, List.length_cons]
    omega
  have hended := h.ended hraw hmore
  simp only [hlines, List.getElem_append_left hi] at hended
  exact hended

/-! ## What lines lack to a margin -/

/-- How many blanks some lines lack to a margin, all of them together. -/
def lacking (m : Nat) : List (List Char) → Nat
  | [] => 0
  | line :: lines => (m - (line.takeWhile isSpaceOrTab).length) + lacking m lines

/-- What lines lack of the margin is added up. -/
theorem lacking_append (m : Nat) (before after : List (List Char)) :
    lacking m (before ++ after) = lacking m before + lacking m after := by
  induction before with
  | nil => exact (Nat.zero_add _).symm
  | cons line before ih => rw [List.cons_append, lacking, lacking, ih, Nat.add_assoc]

/-- Nothing is lacking when every line has all of the margin. -/
theorem lacking_eq_zero_iff :
    lacking m lines = 0 ↔ ∀ line ∈ lines, m ≤ (line.takeWhile isSpaceOrTab).length := by
  induction lines with
  | nil => exact ⟨fun _ _ hline => absurd hline List.not_mem_nil, fun _ => rfl⟩
  | cons line lines ih =>
      rw [lacking, Nat.add_eq_zero_iff, ih, Nat.sub_eq_zero_iff_le, List.forall_mem_cons]

/-- A margin and what it lacks make up the width that was asked for. -/
theorem length_margin_add (m : Nat) (line : List Char) :
    (margin m line).length + (m - (line.takeWhile isSpaceOrTab).length) = m := by
  rw [margin, List.length_take]
  omega

/-- The first lines of a body and what they lack make up what is kept of them and a margin for
each. -/
theorem Shaped.length_take (h : Shaped e raw lines) {k : Nat} (hk : k < raw.length) :
    (raw.take k).flatten.length + lacking e.margin (raw.take k)
      = (lines.take k).flatten.length + k * e.margin := by
  induction k with
  | zero =>
      rw [List.take_zero, List.take_zero, Nat.zero_mul]
      rfl
  | succ k ih =>
      have hk' : k < raw.length := Nat.lt_of_succ_lt hk
      have hlines : k < lines.length := h.length.symm ▸ hk'
      have ih := ih hk'
      -- a line that another one follows loses its margin only
      have hline := h.line k hk' hlines
      rw [if_neg (fun hlast => Nat.ne_of_lt hk hlast.2), List.append_nil] at hline
      have hlength := congrArg List.length hline
      have hmargin := length_margin_add e.margin raw[k]
      rw [List.length_append] at hlength
      rw [List.take_succ_eq_append_getElem hk', List.take_succ_eq_append_getElem hlines,
        lacking_append, List.flatten_append, List.flatten_append, List.length_append,
          List.length_append, List.flatten_singleton, List.flatten_singleton, Nat.succ_mul]
      have hlacking : lacking e.margin [raw[k]]
          = e.margin - (raw[k].takeWhile isSpaceOrTab).length := Nat.add_zero _
      omega

end Manifest.HereDoc
