import Manifest.Proofs.Text.Bytes
import Mathlib.Data.List.Basic

/-!
# Places in a text

The naive scan of a text: every character with the offset at which it begins. Lines, columns and
character counts are read off this list, with no table and no memory of what was asked before.

* `places` — the characters of a text and where they begin.
* `lineAt`, `columnAt`, `charsBetween` — what the naive scan says of an offset; any offset will do.
* `charsBefore_eq` — characters before an offset.
* `places_append`, `countP_places_add` — the places of a text that is made up of parts.
-/

namespace Manifest.Text

variable {cs ds : List Char} {base o p n : Nat} {c : Char}

/-- The characters of a text, each with the offset at which it begins. -/
def places (base : Nat) : List Char → List (Nat × Char)
  | [] => []
  | c :: cs => (base, c) :: places (base + c.utf8Size) cs

/-- How many line feeds begin before the offset. -/
def feedsBefore (cs : List Char) (o : Nat) : Nat :=
  (places 0 cs).countP fun place => place.1 < o && place.2 = '\n'

/-- The line of an offset: one, and one more for each line feed before it. -/
def lineAt (cs : List Char) (o : Nat) : Nat := 1 + feedsBefore cs o

/-- How many characters begin between two offsets. -/
def charsBetween (cs : List Char) (o e : Nat) : Nat :=
  (places 0 cs).countP fun place => o ≤ place.1 && place.1 < e

/-- The column of an offset: one, and one more for each character of its line before it. -/
def columnAt (cs : List Char) (o : Nat) : Nat :=
  1 + (places 0 cs).countP fun place => place.1 < o && lineAt cs place.1 = lineAt cs o

/-! ## Where characters begin -/

/-- No character lies before the base. -/
theorem le_of_mem_places {place : Nat × Char} (h : place ∈ places base cs) : base ≤ place.1 := by
  induction cs generalizing base with
  | nil => exact nomatch h
  | cons c cs ih =>
      rcases List.mem_cons.1 h with rfl | h
      · exact Nat.le_refl _
      · exact Nat.le_of_add_right_le (ih h)

/-- No character lies behind the end. -/
theorem lt_of_mem_places {place : Nat × Char} (h : place ∈ places base cs) :
    place.1 < base + byteLength cs := by
  induction cs generalizing base with
  | nil => exact nomatch h
  | cons c cs ih =>
      show _ < base + (c.utf8Size + byteLength cs)
      have hc := c.utf8Size_pos
      rcases List.mem_cons.1 h with rfl | h
      · show base < _
        omega
      · have := ih h
        omega

/-- Nothing begins before the base. -/
theorem countP_places_eq_zero {f : Nat × Char → Bool} (h : ∀ place, f place → place.1 < base) :
    (places base cs).countP f = 0 := by
  refine List.countP_eq_zero.2 ?_
  intro place hplace hf
  exact absurd (h place hf) (Nat.not_lt.2 (le_of_mem_places hplace))

/-- The places of texts in a row. -/
theorem places_append (base : Nat) (cs ds : List Char) :
    places base (cs ++ ds) = places base cs ++ places (base + byteLength cs) ds := by
  induction cs generalizing base with
  | nil => rfl
  | cons c cs ih =>
      rw [List.cons_append, places, ih, places, List.cons_append, byteLength, Nat.add_assoc]

/-- A base only shifts the places. -/
theorem countP_places_add (base : Nat) (f : Nat × Char → Bool) (cs : List Char) :
    (places base cs).countP f = (places 0 cs).countP fun place => f (base + place.1, place.2) := by
  suffices h : ∀ k, (places (base + k) cs).countP f
      = (places k cs).countP fun place => f (base + place.1, place.2) from h 0
  induction cs with
  | nil => exact fun _ => rfl
  | cons c cs ih =>
      intro k
      rw [places, places, List.countP_cons, List.countP_cons, Nat.add_assoc, ih]

/-! ## Characters -/

/-- Characters before an offset are counted by their places. -/
theorem charsBefore_eq_countP (base : Nat) (cs : List Char) (n : Nat) :
    charsBefore cs n = (places base cs).countP fun place => place.1 < base + n := by
  fun_induction charsBefore cs n generalizing base with
  | case1 cs =>
      refine (countP_places_eq_zero ?_).symm
      intro place h
      exact of_decide_eq_true h
  | case2 => rfl
  | case3 c cs n ih =>
      have hbase : base < base + (n + 1) := Nat.lt_add_of_pos_right (Nat.succ_pos n)
      rw [places, List.countP_cons_of_pos (by exact decide_eq_true hbase), ih (base + c.utf8Size)]
      rcases Nat.le_total c.utf8Size (n + 1) with hle | hle
      · rw [Nat.add_assoc base, Nat.add_sub_cancel' hle]
      · -- the offset lies in the character, and nothing else begins before it
        rw [countP_places_eq_zero, countP_places_eq_zero]
        · intro place h
          have h : place.1 < base + (n + 1) := of_decide_eq_true h
          omega
        · intro place h
          have h : place.1 < base + c.utf8Size + (n + 1 - c.utf8Size) := of_decide_eq_true h
          omega

/-- The characters that begin before an offset. -/
theorem charsBefore_eq (cs : List Char) (n : Nat) :
    charsBefore cs n = (places 0 cs).countP fun place => place.1 < n := by
  have h := charsBefore_eq_countP 0 cs n
  rwa [Nat.zero_add] at h

/-- Their number ascends with the offset. -/
theorem charsBefore_mono (h : o ≤ p) : charsBefore cs o ≤ charsBefore cs p := by
  rw [charsBefore_eq, charsBefore_eq]
  refine List.countP_mono_left ?_
  intro place _ hplace
  exact decide_eq_true (Nat.lt_of_lt_of_le (of_decide_eq_true hplace) h)

/-- Behind the end of the text begins no character. -/
theorem charsBefore_min (cs : List Char) (o : Nat) :
    charsBefore cs (min o (byteLength cs)) = charsBefore cs o := by
  rw [charsBefore_eq, charsBefore_eq]
  refine List.countP_congr ?_
  intro place hplace
  have hlt := lt_of_mem_places hplace
  rw [decide_eq_true_iff, decide_eq_true_iff]
  omega

/-- Characters that begin between two offsets. -/
theorem charsBefore_sub (h : o ≤ n) :
    charsBefore cs n - charsBefore cs o = charsBetween cs o n := by
  have hsplit : charsBefore cs n = charsBefore cs o + charsBetween cs o n := by
    rw [charsBefore_eq, charsBefore_eq, charsBetween]
    induction places 0 cs with
    | nil => rfl
    | cons place rest ih =>
        rw [List.countP_cons, List.countP_cons, List.countP_cons, ih]
        simp only [Bool.and_eq_true, decide_eq_true_eq]
        split_ifs <;> omega
  rw [hsplit, Nat.add_sub_cancel_left]

/-- From the start on, all characters before the offset count. -/
theorem charsBetween_zero (cs : List Char) (n : Nat) : charsBetween cs 0 n = charsBefore cs n := by
  rw [← charsBefore_sub (Nat.zero_le n), charsBefore, Nat.sub_zero]

/-! ## One-byte characters -/

theorem utf8Size_of_isAscii (h : isAscii cs) (hc : c ∈ cs) : c.utf8Size = 1 := by
  have hlt : c.val < 128 := of_decide_eq_true (List.all_eq_true.1 h c hc)
  refine Char.utf8Size_eq_one_iff.2 (UInt32.le_iff_toNat_le.2 ?_)
  exact Nat.le_of_lt_succ (UInt32.lt_iff_toNat_lt.1 hlt)

/-- Characters of one byte are as many as the bytes. -/
theorem byteLength_of_isAscii (h : isAscii cs) : byteLength cs = cs.length :=
  byteLength_eq_length fun _ hc => utf8Size_of_isAscii h hc

/-- In a text of one-byte characters, as many of them begin before an offset as there are bytes. -/
theorem charsBefore_of_isAscii (h : isAscii cs) (hn : n ≤ byteLength cs) :
    charsBefore cs n = n := by
  rw [byteLength_of_isAscii h] at hn
  induction cs generalizing n with
  | nil => rw [Nat.le_zero.1 hn, charsBefore]
  | cons c cs ih =>
      cases n with
      | zero => rw [charsBefore]
      | succ n =>
          have hc := utf8Size_of_isAscii h List.mem_cons_self
          have hcs : isAscii cs := (Bool.and_eq_true_iff.1 h).2
          rw [charsBefore, hc, Nat.add_sub_cancel, ih hcs (Nat.le_of_succ_le_succ hn)]

/-! ## Line feeds -/

/-- The number of line feeds ascends with the offset. -/
theorem feedsBefore_mono (h : o ≤ p) : feedsBefore cs o ≤ feedsBefore cs p := by
  refine List.countP_mono_left ?_
  intro place _ hplace
  rw [Bool.and_eq_true, decide_eq_true_iff] at hplace ⊢
  exact ⟨Nat.lt_of_lt_of_le hplace.1 h, hplace.2⟩

end Manifest.Text
