import Manifest.Proofs.Text.Places
import Manifest.Text.LineTable

/-!
# Finding lines

The line of an offset is the last one that starts at or before it. There is one such line only, so
that it makes no difference whether it is found by bisection or was remembered from another
question.

* `LineTable.IsSlot` — the last line that starts at or before an offset.
* `slotFrom_isSlot` — with any finger, the line that is found is this one.
* `slotFrom_ofText` — in the table of a text, it is the number of line feeds before the offset.
* `columnAt_eq` — the naive column, counted from the start of the line that is found.
-/

namespace Manifest.Text.LineTable

variable {t : LineTable} {o finger base size i j : Nat} {cs : List Char}

/-- The last line that starts at or before the offset. -/
structure IsSlot (t : LineTable) (o slot : Nat) : Prop where
  lt : slot < t.starts.size
  start_le : t.start slot ≤ o
  lt_start : ∀ i, slot < i → i < t.starts.size → o < t.start i

/-- Lines start one behind the other, the first one at zero. -/
structure Sorted (t : LineTable) : Prop where
  pos : 0 < t.starts.size
  start_zero : t.start 0 = 0
  mono : ∀ i j, i < j → j < t.starts.size → t.start i < t.start j

/-- There is one last line at most. -/
theorem IsSlot.unique (h : t.IsSlot o i) (h' : t.IsSlot o j) : i = j := by
  rcases Nat.lt_trichotomy i j with hlt | heq | hlt
  · exact absurd (h.lt_start j hlt h'.lt) (Nat.not_lt.2 h'.start_le)
  · exact heq
  · exact absurd (h'.lt_start i hlt h.lt) (Nat.not_lt.2 h.start_le)

/-! ## Bisection -/

/-- Bisection keeps the last line in its stretch. -/
theorem bisect_isSlot (hsize : 0 < size) (hle : base + size ≤ t.starts.size)
    (hbase : t.start base ≤ o)
    (habove : ∀ i, base + size ≤ i → i < t.starts.size → o < t.start i)
    (hsorted : t.Sorted) : t.IsSlot o (t.bisect o base size) := by
  fun_induction bisect t o base size with
  | case1 base size hone half middle ih =>
      have hhalf : 0 < half ∧ half < size := by
        show 0 < size / 2 ∧ size / 2 < size
        omega
      by_cases hmiddle : t.start middle ≤ o
      · rw [dif_pos hmiddle] at ih
        rw [if_pos hmiddle]
        have hend : middle + (size - half) = base + size := by
          show base + half + (size - half) = base + size
          omega
        refine ih (by omega) (by rw [hend]; exact hle) hmiddle ?_
        rw [hend]
        exact habove
      · rw [dif_neg hmiddle] at ih
        rw [if_neg hmiddle]
        refine ih (by omega) (by omega) hbase ?_
        intro i hi hlt
        have hmiddle_le : middle ≤ i := by
          show base + half ≤ i
          omega
        refine Nat.lt_of_lt_of_le (Nat.lt_of_not_le hmiddle) ?_
        rcases Nat.lt_or_eq_of_le hmiddle_le with hmiddle_lt | rfl
        · exact Nat.le_of_lt (hsorted.mono _ _ hmiddle_lt hlt)
        · exact Nat.le_refl _
  | case2 base size hone =>
      obtain rfl : size = 1 := by omega
      exact ⟨hle, hbase, fun i hi => habove i hi⟩

/-- The search finds the slot of an offset. -/
theorem search_isSlot (hsorted : t.Sorted) (o : Nat) : t.IsSlot o (t.search o) := by
  refine bisect_isSlot hsorted.pos (Nat.le_of_eq (Nat.zero_add _)) ?_ ?_ hsorted
  · rw [hsorted.start_zero]
    exact Nat.zero_le o
  · intro i hi hlt
    rw [Nat.zero_add] at hi
    exact absurd hlt (Nat.not_lt.2 hi)

/-! ## Fingers -/

theorem start_eq (h : i < t.starts.size) : t.start i = t.starts[i] := by
  rw [start, Array.getD, dif_pos h]
  rfl

/-- A finger that holds the offset is on its line. -/
theorem isSlot_of_holds (hsorted : t.Sorted) (h : t.holds finger o) : t.IsSlot o finger := by
  unfold holds at h
  split at h
  next => exact nomatch h
  next first hfirst =>
    obtain ⟨hlt, hfirst⟩ := Array.getElem?_eq_some_iff.1 hfirst
    obtain ⟨hstart, hnext⟩ := Bool.and_eq_true_iff.1 h
    refine ⟨hlt, ?_, ?_⟩
    · rw [start_eq hlt, hfirst]
      exact of_decide_eq_true hstart
    · intro i hi hi'
      have hnext_lt : finger + 1 < t.starts.size := Nat.lt_of_le_of_lt hi hi'
      have ho : o < t.start (finger + 1) := by
        rw [Array.getElem?_eq_getElem hnext_lt] at hnext
        rw [start_eq hnext_lt]
        exact of_decide_eq_true hnext
      rcases Nat.lt_or_eq_of_le hi with hlt' | rfl
      · exact Nat.lt_trans ho (hsorted.mono _ _ hlt' hi')
      · exact ho

/-- The line that is found is the last one that starts at or before the offset. -/
theorem slotFrom_isSlot (hsorted : t.Sorted) (finger o : Nat) :
    t.IsSlot o (t.slotFrom finger o) := by
  unfold slotFrom
  split
  next h => exact isSlot_of_holds hsorted h
  next => exact search_isSlot hsorted o

/-- The finger makes no difference. -/
theorem slotFrom_eq_slot (hsorted : t.Sorted) (finger o : Nat) : t.slotFrom finger o = t.slot o :=
  (slotFrom_isSlot hsorted finger o).unique (slotFrom_isSlot hsorted 0 o)

/-! ## The table of a text -/

/-- A line starts behind a line feed. -/
theorem lt_of_mem_startsAfterFeeds (h : i ∈ startsAfterFeeds base cs) : base < i := by
  induction cs generalizing base with
  | nil => exact nomatch h
  | cons c cs ih =>
      have hc := c.utf8Size_pos
      rw [startsAfterFeeds] at h
      split at h
      next =>
        rcases List.mem_cons.1 h with rfl | h
        · omega
        · have := ih h
          omega
      next =>
        have := ih h
        omega

/-- The starts of lines ascend. -/
theorem startsAfterFeeds_pairwise (base : Nat) (cs : List Char) :
    (startsAfterFeeds base cs).Pairwise (· < ·) := by
  induction cs generalizing base with
  | nil => exact .nil
  | cons c cs ih =>
      rw [startsAfterFeeds]
      split
      · exact .cons (fun _ h => lt_of_mem_startsAfterFeeds h) (ih _)
      · exact ih _

/-- No line feed from an offset on is before the offset. -/
theorem countP_feeds_eq_zero (h : o ≤ base) :
    (places base cs).countP (fun place => place.1 < o && place.2 = '\n') = 0 := by
  refine countP_places_eq_zero ?_
  intro place hplace
  have hlt := of_decide_eq_true (Bool.and_eq_true_iff.1 hplace).1
  exact Nat.lt_of_lt_of_le hlt h

/-- A line feed in front counts if it lies before the offset. -/
theorem countP_feeds_cons_feed (base o : Nat) (cs : List Char) :
    (places base ('\n' :: cs)).countP (fun place => place.1 < o && place.2 = '\n')
      = (places (base + 1) cs).countP (fun place => place.1 < o && place.2 = '\n')
        + if base < o then 1 else 0 := by
  rw [places, List.countP_cons]
  simp only [decide_true, Bool.and_true, decide_eq_true_eq]
  rfl

/-- No other character counts. -/
theorem countP_feeds_cons_of_ne {c : Char} (hc : c ≠ '\n') (base o : Nat) (cs : List Char) :
    (places base (c :: cs)).countP (fun place => place.1 < o && place.2 = '\n')
      = (places (base + c.utf8Size) cs).countP (fun place => place.1 < o && place.2 = '\n') := by
  rw [places, List.countP_cons_of_neg]
  simp [hc]

/-- A line starts at or before an offset when the line feed that ends the line above it is before
the offset. -/
theorem startsAfterFeeds_le_iff (h : i < (startsAfterFeeds base cs).length) :
    (startsAfterFeeds base cs)[i] ≤ o ↔
      i < (places base cs).countP fun place => place.1 < o && place.2 = '\n' := by
  induction cs generalizing base i with
  | nil => exact absurd h (Nat.not_lt_zero i)
  | cons c cs ih =>
      by_cases hc : c = '\n'
      · subst hc
        rw [countP_feeds_cons_feed]
        by_cases ho : base < o
        · rw [if_pos ho]
          cases i with
          | zero =>
              show base + 1 ≤ o ↔ _
              omega
          | succ i =>
              have hi : i < (startsAfterFeeds (base + 1) cs).length := Nat.lt_of_succ_lt_succ h
              show (startsAfterFeeds (base + 1) cs)[i] ≤ o ↔ _
              rw [ih hi]
              omega
        · -- the first line feed is not before the offset, so no line starts there
          rw [if_neg ho, countP_feeds_eq_zero (by omega)]
          have hlt := lt_of_mem_startsAfterFeeds (List.getElem_mem h)
          omega
      · have hstarts : startsAfterFeeds base (c :: cs) =
            startsAfterFeeds (base + c.utf8Size) cs := by
          rw [startsAfterFeeds]
          exact if_neg hc
        rw [countP_feeds_cons_of_ne hc]
        simp only [hstarts]
        exact ih _

/-- As many lines start behind the first one as there are line feeds. -/
theorem length_startsAfterFeeds (base : Nat) (cs : List Char) :
    (startsAfterFeeds base cs).length = (places base cs).countP fun place => place.2 = '\n' := by
  induction cs generalizing base with
  | nil => rfl
  | cons c cs ih =>
      rw [startsAfterFeeds, places, List.countP_cons]
      split
      next hc => rw [List.length_cons, ih, if_pos (decide_eq_true hc)]
      next hc => rw [ih, if_neg (by rw [decide_eq_true_eq]; exact hc), Nat.add_zero]

/-- The lines of a text are in order. -/
theorem ofText_sorted (cs : List Char) : (ofText cs).Sorted := by
  refine ⟨Nat.succ_pos _, rfl, ?_⟩
  intro i j hij hj
  have hpairwise : (0 :: startsAfterFeeds 0 cs).Pairwise (· < ·) :=
    .cons (fun _ h => lt_of_mem_startsAfterFeeds h) (startsAfterFeeds_pairwise 0 cs)
  rw [start_eq hj, start_eq (Nat.lt_trans hij hj)]
  exact List.pairwise_iff_getElem.1 hpairwise i j _ _ hij

/-- In the table of a text, the line of an offset is the number of line feeds before it. -/
theorem isSlot_ofText (cs : List Char) (o : Nat) : (ofText cs).IsSlot o (feedsBefore cs o) := by
  have hsize : (ofText cs).starts.size = (startsAfterFeeds 0 cs).length + 1 := rfl
  have hstart : ∀ i (h : i < (startsAfterFeeds 0 cs).length),
      (ofText cs).start (i + 1) = (startsAfterFeeds 0 cs)[i] := by
    intro i h
    rw [start_eq (by rw [hsize]; omega)]
    rfl
  have hle : feedsBefore cs o ≤ (startsAfterFeeds 0 cs).length := by
    rw [length_startsAfterFeeds]
    exact List.countP_mono_left fun _ _ h => (Bool.and_eq_true_iff.1 h).2
  refine ⟨Nat.lt_succ_of_le hle, ?_, ?_⟩
  · cases hfeeds : feedsBefore cs o with
    | zero => exact Nat.zero_le o
    | succ k =>
        have hk : k < (startsAfterFeeds 0 cs).length := by omega
        rw [hstart k hk]
        refine (startsAfterFeeds_le_iff hk).2 ?_
        show k < feedsBefore cs o
        rw [hfeeds]
        exact Nat.lt_succ_self k
  · intro i hi hlt
    cases i with
    | zero => exact absurd hi (Nat.not_lt_zero _)
    | succ i =>
        have hi' : i < (startsAfterFeeds 0 cs).length := Nat.lt_of_succ_lt_succ hlt
        rw [hstart i hi']
        refine Nat.lt_of_not_le ?_
        intro hle'
        exact absurd ((startsAfterFeeds_le_iff hi').1 hle') (Nat.not_lt.2 (Nat.le_of_lt_succ hi))

/-- In the table of a text, the line that is found is the number of line feeds before the offset. -/
theorem slotFrom_ofText (cs : List Char) (finger o : Nat) :
    (ofText cs).slotFrom finger o = feedsBefore cs o :=
  (slotFrom_isSlot (ofText_sorted cs) finger o).unique (isSlot_ofText cs o)

/-- No line starts behind the end of the text. -/
theorem start_le (cs : List Char) (i : Nat) : (ofText cs).start i ≤ byteLength cs := by
  have hmem : ∀ base ds, ∀ n ∈ startsAfterFeeds base ds, n ≤ base + byteLength ds := by
    intro base ds
    induction ds generalizing base with
    | nil => exact fun _ h => nomatch h
    | cons c ds ih =>
        intro n hn
        rw [startsAfterFeeds] at hn
        rw [byteLength, ← Nat.add_assoc]
        split at hn
        next =>
          rcases List.mem_cons.1 hn with rfl | hn
          · exact Nat.le_add_right _ _
          · exact ih _ n hn
        next => exact ih _ n hn
  by_cases h : i < (ofText cs).starts.size
  · rw [start_eq h]
    have hstart : (ofText cs).starts[i] ∈ 0 :: startsAfterFeeds 0 cs := List.getElem_mem _
    rcases List.mem_cons.1 hstart with hzero | hstart
    · rw [hzero]
      exact Nat.zero_le _
    · have hle := hmem 0 cs _ hstart
      rwa [Nat.zero_add] at hle
  · rw [start, Array.getD, dif_neg h]
    exact Nat.zero_le _

/-- The offsets on the line of an offset are the ones from the start of that line on. -/
theorem start_le_iff (cs : List Char) (h : i ≤ o) :
    (ofText cs).start (feedsBefore cs o) ≤ i ↔ lineAt cs i = lineAt cs o := by
  have hi := isSlot_ofText cs i
  have ho := isSlot_ofText cs o
  have hmono : feedsBefore cs i ≤ feedsBefore cs o := feedsBefore_mono h
  rw [lineAt, lineAt, Nat.add_left_cancel_iff]
  constructor
  · intro hstart
    rcases Nat.lt_or_eq_of_le hmono with hlt | heq
    · exact absurd (hi.lt_start _ hlt ho.lt) (Nat.not_lt.2 hstart)
    · exact heq
  · intro heq
    rw [← heq]
    exact hi.start_le

/-- The column of an offset counts the characters from the start of its line on. -/
theorem columnAt_eq (cs : List Char) (o : Nat) :
    columnAt cs o = 1 + charsBetween cs ((ofText cs).start (feedsBefore cs o)) o := by
  rw [columnAt, charsBetween]
  congr 1
  refine List.countP_congr ?_
  intro place _
  rw [Bool.and_eq_true, Bool.and_eq_true, decide_eq_true_iff, decide_eq_true_iff,
    decide_eq_true_iff]
  constructor
  · rintro ⟨hlt, hline⟩
    exact ⟨(start_le_iff cs (Nat.le_of_lt hlt)).2 hline, hlt⟩
  · rintro ⟨hstart, hlt⟩
    exact ⟨hlt, (start_le_iff cs (Nat.le_of_lt hlt)).1 hstart⟩

end Manifest.Text.LineTable
