import Manifest.Proofs.Text.Places

/-!
# Places on a line

A text is often taken as some text, lines that end, and a line that follows them. The line of an
offset on the last of these is as many lines further as there are lines before it, and its column
depends on what precedes it on its own line.

* `Ended`, `OneLine` — a line with its line feed, and a line that may have none.
* `LineStart` — offsets at which a line starts.
* `lineAt_lines` — lines are counted on from the front.
* `columnAt_line` — columns are counted from the start of the line.
-/

namespace Manifest.Text

variable {cs ds front line rest : List Char} {lines : List (List Char)} {o p j : Nat}

/-- A line with its line feed. -/
def Ended (line : List Char) : Prop := ∃ body, line = body ++ ['\n'] ∧ '\n' ∉ body

/-- No line feed stands before the last character. -/
def OneLine (line : List Char) : Prop := '\n' ∉ line.dropLast

/-- A line begins where the text does, and behind a line feed. -/
def StartsLine (front : List Char) : Prop := ∀ c ∈ front.getLast?, c = '\n'

/-- An ended line is one line. -/
theorem Ended.oneLine (h : Ended line) : OneLine line := by
  obtain ⟨body, rfl, hbody⟩ := h
  rwa [OneLine, List.dropLast_concat]

/-- Every byte of lines stands on one of them. -/
theorem exists_line_of_lt (h : o < byteLength lines.flatten) :
    ∃ before line after j, lines = before ++ line :: after ∧ j < byteLength line ∧
      o = byteLength before.flatten + j := by
  induction lines generalizing o with
  | nil => exact absurd h (Nat.not_lt_zero o)
  | cons line lines ih =>
      by_cases ho : o < byteLength line
      · exact ⟨[], line, lines, o, rfl, ho, (Nat.zero_add o).symm⟩
      · rw [List.flatten_cons, byteLength_append] at h
        obtain ⟨before, line', after, j, rfl, hj, hsub⟩ := ih (o := o - byteLength line) (by omega)
        refine ⟨line :: before, line', after, j, rfl, hj, ?_⟩
        rw [List.flatten_cons, byteLength_append]
        omega

/-- A line starts at the offset, unless it is the end of the text. -/
def LineStart (text : List Char) (n : Nat) : Prop :=
  ∀ front rest, text = front ++ rest → byteLength front = n → rest ≠ [] → StartsLine front

/-- A line starts behind a text that ends a line. -/
theorem lineStart_of_append (h : rest ≠ [] → StartsLine front) :
    LineStart (front ++ rest) (byteLength front) := by
  intro front' rest' htext hlength hrest
  obtain rfl := eq_of_byteLength_eq htext.symm hlength
  exact h (fun hnil => hrest (by rw [← List.append_cancel_left htext, hnil]))

theorem startsLine_nil : StartsLine [] := fun _ h => nomatch h

/-- A line starts behind a line feed. -/
theorem startsLine_concat (front : List Char) : StartsLine (front ++ ['\n']) := by
  intro c hc
  rw [List.getLast?_concat] at hc
  exact (Option.some.inj hc).symm

/-- A line starts behind an ended line. -/
theorem Ended.startsLine (h : Ended line) (front : List Char) : StartsLine (front ++ line) := by
  obtain ⟨body, rfl, -⟩ := h
  rw [← List.append_assoc]
  exact startsLine_concat _

/-- A line starts behind ended lines. -/
theorem StartsLine.append_flatten (h : StartsLine front) (hlines : ∀ line ∈ lines, Ended line) :
    StartsLine (front ++ lines.flatten) := by
  rcases List.eq_nil_or_concat' lines with rfl | ⟨before, line, rfl⟩
  · rwa [List.flatten_nil, List.append_nil]
  · rw [List.flatten_append, List.flatten_singleton, ← List.append_assoc]
    exact (hlines line (List.mem_append_right _ List.mem_cons_self)).startsLine _

/-! ## Line feeds along parts -/

/-- Line feeds in the first part are those of the first part. -/
theorem feedsBefore_append_left (ds : List Char) (h : o ≤ byteLength cs) :
    feedsBefore (cs ++ ds) o = feedsBefore cs o := by
  have hrest : (places (0 + byteLength cs) ds).countP
      (fun place => place.1 < o && place.2 = '\n') = 0 := by
    refine countP_places_eq_zero ?_
    intro place hplace
    rw [Bool.and_eq_true, decide_eq_true_iff] at hplace
    omega
  rw [feedsBefore, places_append, List.countP_append, hrest, Nat.add_zero, feedsBefore]

/-- Behind the first part, its line feeds come on top of those of the second. -/
theorem feedsBefore_append_right (cs ds : List Char) (o : Nat) :
    feedsBefore (cs ++ ds) (byteLength cs + o)
      = feedsBefore cs (byteLength cs) + feedsBefore ds o := by
  have hfront : (places 0 cs).countP (fun place => place.1 < byteLength cs + o && place.2 = '\n')
      = feedsBefore cs (byteLength cs) := by
    refine List.countP_congr ?_
    intro place hplace
    have hlt := lt_of_mem_places hplace
    have hiff : place.1 < byteLength cs + o ↔ place.1 < byteLength cs := by omega
    simp only [Bool.and_eq_true, decide_eq_true_eq, hiff]
  have hback : (places (0 + byteLength cs) ds).countP
      (fun place => place.1 < byteLength cs + o && place.2 = '\n') = feedsBefore ds o := by
    rw [countP_places_add]
    refine List.countP_congr ?_
    intro place _
    have hiff : 0 + byteLength cs + place.1 < byteLength cs + o ↔ place.1 < o := by omega
    simp only [Bool.and_eq_true, decide_eq_true_eq, hiff]
  rw [feedsBefore, places_append, List.countP_append, hfront, hback]

/-- A text without line feeds has none before any offset. -/
theorem feedsBefore_of_not_mem (h : '\n' ∉ cs) (o : Nat) : feedsBefore cs o = 0 := by
  have hplaces : ∀ base, ∀ place ∈ places base cs, place.2 ∈ cs := by
    induction cs with
    | nil => exact fun _ _ hplace => nomatch hplace
    | cons c cs ih =>
        intro base place hplace
        rcases List.mem_cons.1 hplace with rfl | hplace
        · exact List.mem_cons_self
        · exact List.mem_cons_of_mem _ (ih (fun hmem => h (List.mem_cons_of_mem _ hmem)) _ _ hplace)
  refine List.countP_eq_zero.2 ?_
  intro place hplace hfeed
  rw [Bool.and_eq_true, decide_eq_true_iff, decide_eq_true_iff] at hfeed
  exact h (hfeed.2 ▸ hplaces 0 place hplace)

/-- Before an offset on a line stands no line feed. -/
theorem OneLine.feedsBefore (h : OneLine line) (hj : j < byteLength line) :
    feedsBefore line j = 0 := by
  rcases List.eq_nil_or_concat' line with rfl | ⟨body, c, rfl⟩
  · exact absurd hj (Nat.not_lt_zero j)
  · rw [OneLine, List.dropLast_concat] at h
    by_cases hc : c = '\n'
    · -- the line feed itself takes one byte, so the offset lies before it
      have hle : j ≤ byteLength body := by
        rw [hc, byteLength_append] at hj
        exact Nat.le_of_lt_succ hj
      rw [feedsBefore_append_left _ hle, feedsBefore_of_not_mem h]
    · refine feedsBefore_of_not_mem ?_ j
      rw [List.mem_append, List.mem_singleton]
      rintro (hmem | hmem)
      · exact h hmem
      · exact hc hmem.symm

/-- An ended line has one. -/
theorem Ended.feedsBefore (h : Ended line) : feedsBefore line (byteLength line) = 1 := by
  obtain ⟨body, rfl, hbody⟩ := h
  rw [byteLength_append, feedsBefore_append_right, feedsBefore_of_not_mem hbody]
  rfl

/-- Each line that ends brings one line feed. -/
theorem feedsBefore_flatten (h : ∀ line ∈ lines, Ended line) :
    feedsBefore lines.flatten (byteLength lines.flatten) = lines.length := by
  induction lines with
  | nil => rfl
  | cons line lines ih =>
      obtain ⟨hline, hlines⟩ := List.forall_mem_cons.1 h
      rw [List.flatten_cons, byteLength_append, feedsBefore_append_right, hline.feedsBefore,
        ih hlines, List.length_cons, Nat.add_comm]

/-! ## Characters along parts -/

/-- Behind the first part, all its characters come before those of the second. -/
theorem charsBefore_append (cs ds : List Char) (o : Nat) :
    charsBefore (cs ++ ds) (byteLength cs + o) = cs.length + charsBefore ds o := by
  induction cs with
  | nil =>
      show charsBefore ds (0 + o) = 0 + _
      rw [Nat.zero_add, Nat.zero_add]
  | cons c cs ih =>
      obtain ⟨k, hk⟩ := Nat.exists_eq_add_of_lt c.utf8Size_pos
      have hoffset : byteLength (c :: cs) + o = k + (byteLength cs + o) + 1 := by
        show c.utf8Size + byteLength cs + o = _
        omega
      rw [hoffset, List.cons_append, charsBefore, List.length_cons]
      rw [show k + (byteLength cs + o) + 1 - c.utf8Size = byteLength cs + o by omega, ih]
      omega

/-- What follows does not matter for the characters before an offset. -/
theorem charsBefore_append_left (ds : List Char) (h : o ≤ byteLength cs) :
    charsBefore (cs ++ ds) o = charsBefore cs o := by
  have hrest : (places (0 + byteLength cs) ds).countP (fun place => place.1 < o) = 0 := by
    refine countP_places_eq_zero ?_
    intro place hplace
    have hplace : place.1 < o := of_decide_eq_true hplace
    omega
  rw [charsBefore_eq, places_append, List.countP_append, hrest, Nat.add_zero, charsBefore_eq]

/-! ## Lines and columns -/

/-- All offsets on a line are on the line that follows the front. -/
theorem lineAt_line (front : List Char) (hline : OneLine line) (hj : j < byteLength line)
    (rest : List Char) :
    lineAt (front ++ line ++ rest) (byteLength front + j) = lineAt front (byteLength front) := by
  rw [lineAt, lineAt, List.append_assoc, feedsBefore_append_right,
    feedsBefore_append_left rest (Nat.le_of_lt hj), hline.feedsBefore hj, Nat.add_zero]

/-- Lines are counted on from the front. -/
theorem lineAt_lines (front : List Char) (hlines : ∀ line ∈ lines, Ended line)
    (hline : OneLine line)
    (hj : j < byteLength line) (rest : List Char) :
    lineAt (front ++ lines.flatten ++ line ++ rest)
      (byteLength front + byteLength lines.flatten + j)
      = lineAt front (byteLength front) + lines.length := by
  rw [← byteLength_append, lineAt_line _ hline hj, lineAt, lineAt, byteLength_append,
    feedsBefore_append_right, feedsBefore_flatten hlines, Nat.add_assoc]

/-- What follows does not matter for the line of an offset. -/
theorem lineAt_append (ds : List Char) (h : o ≤ byteLength cs) :
    lineAt (cs ++ ds) o = lineAt cs o := by
  rw [lineAt, feedsBefore_append_left ds h, lineAt]

/-- What begins before a line is on an earlier line. -/
theorem lineAt_lt_of_startsLine (hstart : StartsLine front) (hp : p < byteLength front) (j : Nat) :
    lineAt (front ++ cs) p < lineAt (front ++ cs) (byteLength front + j) := by
  rcases List.eq_nil_or_concat' front with rfl | ⟨body, c, rfl⟩
  · exact absurd hp (Nat.not_lt_zero p)
  · obtain rfl : c = '\n' := hstart c (by rw [List.getLast?_concat]; rfl)
    have hle : p ≤ byteLength body := by
      rw [byteLength_append] at hp
      exact Nat.le_of_lt_succ hp
    have hfeed : feedsBefore (body ++ ['\n'] ++ cs) (byteLength (body ++ ['\n']) + j)
        = feedsBefore body (byteLength body) + 1 + feedsBefore cs j := by
      rw [feedsBefore_append_right, byteLength_append, feedsBefore_append_right]
      rfl
    rw [lineAt, lineAt, hfeed, List.append_assoc, feedsBefore_append_left _ hle]
    have hmono : feedsBefore body p ≤ feedsBefore body (byteLength body) := feedsBefore_mono hle
    omega

/-- Columns are counted from the start of the line. -/
theorem columnAt_line (hstart : StartsLine front) (hline : OneLine line) (hj : j < byteLength line)
    (rest : List Char) :
    columnAt (front ++ line ++ rest) (byteLength front + j) = 1 + charsBefore line j := by
  have hsame : ∀ q, q ≤ j →
      lineAt (front ++ line ++ rest) (byteLength front + q) = lineAt front (byteLength front) :=
    fun q hq => lineAt_line front hline (Nat.lt_of_le_of_lt hq hj) rest
  rw [columnAt, hsame j (Nat.le_refl j), places_append, places_append, List.countP_append,
    List.countP_append, byteLength_append, Nat.zero_add, Nat.zero_add]
  -- nothing before the line is on it, and what follows the line is not before the offset
  have hfront : (places 0 front).countP (fun place => place.1 < byteLength front + j &&
      lineAt (front ++ line ++ rest) place.1 = lineAt front (byteLength front)) = 0 := by
    refine List.countP_eq_zero.2 ?_
    intro place hplace hcounted
    have hlt := lt_of_mem_places hplace
    rw [Nat.zero_add] at hlt
    have hbefore : lineAt (front ++ (line ++ rest)) place.1
        < lineAt (front ++ (line ++ rest)) (byteLength front + 0) :=
      lineAt_lt_of_startsLine hstart hlt 0
    rw [← List.append_assoc, hsame 0 (Nat.zero_le j)] at hbefore
    rw [Bool.and_eq_true, decide_eq_true_iff, decide_eq_true_iff] at hcounted
    exact absurd hcounted.2 (Nat.ne_of_lt hbefore)
  have hrest : (places (byteLength front + byteLength line) rest).countP
      (fun place => place.1 < byteLength front + j &&
        lineAt (front ++ line ++ rest) place.1 = lineAt front (byteLength front)) = 0 := by
    refine countP_places_eq_zero ?_
    intro place hplace
    rw [Bool.and_eq_true, decide_eq_true_iff] at hplace
    omega
  rw [hfront, hrest, countP_places_add, charsBefore_eq, Nat.zero_add, Nat.add_zero]
  refine congrArg (1 + ·) (List.countP_congr ?_)
  intro place _
  simp only [Bool.and_eq_true, decide_eq_true_eq, Nat.add_lt_add_iff_left]
  constructor
  · exact fun h => h.1
  · exact fun h => ⟨h, hsame place.1 (Nat.le_of_lt h)⟩

end Manifest.Text
