import Manifest.Text.Bytes

/-!
# Offsets and the text around them

A boundary is the length of a part of the text from its front. Cutting at boundaries gives the
parts back, and a search from a boundary finds a boundary.

* `dropBytes_byteLength`, `slice_byteLength` — cuts at boundaries.
* `findOffset_spec` — the place that is found, and that none before it would do.
-/

namespace Manifest.Text

variable {cs ds es fs : List Char} {n : Nat}

/-! ## Lengths -/

/-- The lengths of texts in a row add up. -/
theorem byteLength_append (cs ds : List Char) :
    byteLength (cs ++ ds) = byteLength cs + byteLength ds := by
  induction cs with
  | nil => exact (Nat.zero_add _).symm
  | cons c cs ih =>
      show c.utf8Size + byteLength (cs ++ ds) = c.utf8Size + byteLength cs + byteLength ds
      rw [ih, Nat.add_assoc]

/-- The empty text alone takes no bytes. -/
theorem byteLength_eq_zero : byteLength cs = 0 ↔ cs = [] := by
  constructor
  · intro h
    cases cs with
    | nil => rfl
    | cons c cs => exact absurd (Nat.eq_zero_of_add_eq_zero_right h) (Nat.ne_of_gt c.utf8Size_pos)
  · rintro rfl
    rfl

theorem byteLength_pos (h : cs ≠ []) : 0 < byteLength cs :=
  Nat.pos_of_ne_zero fun h0 => h (byteLength_eq_zero.1 h0)

/-- A part that is as long as the text is the text. -/
theorem eq_nil_of_byteLength_append (cs : List Char) (h : byteLength (cs ++ ds) = byteLength cs) :
    ds = [] := by
  rw [byteLength_append] at h
  exact byteLength_eq_zero.1 (Nat.left_eq_add.1 h.symm)

/-- Characters of one byte each. -/
theorem byteLength_eq_length (h : ∀ c ∈ cs, c.utf8Size = 1) : byteLength cs = cs.length := by
  induction cs with
  | nil => rfl
  | cons c cs ih =>
      obtain ⟨hc, hcs⟩ := List.forall_mem_cons.1 h
      rw [byteLength, hc, ih hcs, List.length_cons, Nat.add_comm]

/-! ## Boundaries -/

/-- The offset lies between two characters, or at an end of the text. -/
def Boundary (cs : List Char) (n : Nat) : Prop :=
  ∃ front rest, cs = front ++ rest ∧ n = byteLength front

/-- No boundary lies behind the end. -/
theorem Boundary.le (h : Boundary cs n) : n ≤ byteLength cs := by
  obtain ⟨front, rest, rfl, rfl⟩ := h
  rw [byteLength_append]
  exact Nat.le_add_right _ _

theorem boundary_zero (cs : List Char) : Boundary cs 0 := ⟨[], cs, rfl, rfl⟩

/-- A cut behind the first of two texts gives the second. -/
theorem dropBytes?_byteLength (cs ds : List Char) :
    dropBytes? (cs ++ ds) (byteLength cs) = some ds := by
  induction cs with
  | nil => rw [byteLength, List.nil_append, dropBytes?]
  | cons c cs ih =>
      obtain ⟨k, hk⟩ := Nat.exists_eq_add_of_lt (Nat.lt_add_right (byteLength cs) c.utf8Size_pos)
      rw [Nat.zero_add] at hk
      rw [byteLength, hk, List.cons_append, dropBytes?, if_pos (by omega), ← hk,
        Nat.add_sub_cancel_left, ih]

/-- Behind a part of the text comes the rest. -/
theorem dropBytes_byteLength (cs ds : List Char) : dropBytes (cs ++ ds) (byteLength cs) = ds := by
  rw [dropBytes, dropBytes?_byteLength]
  rfl

/-- A cut before the second gives the first. -/
theorem takeBytes?_byteLength (cs ds : List Char) :
    takeBytes? (cs ++ ds) (byteLength cs) = some cs := by
  induction cs with
  | nil => rw [byteLength, takeBytes?]
  | cons c cs ih =>
      obtain ⟨k, hk⟩ := Nat.exists_eq_add_of_lt (Nat.lt_add_right (byteLength cs) c.utf8Size_pos)
      rw [Nat.zero_add] at hk
      rw [byteLength, hk, List.cons_append, takeBytes?, if_pos (by omega), ← hk,
        Nat.add_sub_cancel_left, ih]
      rfl

/-- Between two parts of the text stands what they enclose. -/
theorem slice_byteLength (cs ds es : List Char) :
    slice (cs ++ ds ++ es) (byteLength cs) (byteLength cs + byteLength ds) = ds := by
  rw [slice, slice?, if_pos (Nat.le_add_right _ _), List.append_assoc, dropBytes?_byteLength,
    Option.bind_some, Nat.add_sub_cancel_left, takeBytes?_byteLength]
  rfl

/-- Parts of a text that are equally long are the same. -/
theorem eq_of_byteLength_eq (h : cs ++ ds = es ++ fs) (hlength : byteLength cs = byteLength es) :
    cs = es := by
  have htake := takeBytes?_byteLength es fs
  rw [← h, ← hlength, takeBytes?_byteLength] at htake
  exact Option.some.inj htake

/-- Of two fronts of a text, the longer one begins with the other. -/
theorem prefix_of_byteLength_le (h : cs <+: fs) (h' : ds <+: fs)
    (hle : byteLength cs ≤ byteLength ds) : cs <+: ds := by
  rcases List.prefix_or_prefix_of_prefix h h' with hfront | ⟨es, rfl⟩
  · exact hfront
  · rw [byteLength_append] at hle
    obtain rfl : es = [] := byteLength_eq_zero.1 (by omega)
    exact ⟨[], by rw [List.append_nil, List.append_nil]⟩

/-! ## Searching -/

/-- The place that is found is wanted, and no place before it is. -/
theorem findOffset_spec {wanted : List Char → Bool} {base offset : Nat}
    (h : findOffset wanted base cs = some offset) :
    ∃ front rest, cs = front ++ rest ∧ offset = base + byteLength front ∧ wanted rest ∧
      ∀ ds es, front = ds ++ es → es ≠ [] → wanted (es ++ rest) = false := by
  induction cs generalizing base with
  | nil =>
      rw [findOffset] at h
      split at h
      next hw =>
        refine ⟨[], [], rfl, (Option.some.inj h).symm, hw, ?_⟩
        intro ds es heq hes
        exact absurd (List.append_eq_nil_iff.1 heq.symm).2 hes
      next => exact nomatch h
  | cons c cs ih =>
      rw [findOffset] at h
      split at h
      next hw =>
        refine ⟨[], c :: cs, rfl, (Option.some.inj h).symm, hw, ?_⟩
        intro ds es heq hes
        exact absurd (List.append_eq_nil_iff.1 heq.symm).2 hes
      next hw =>
        obtain ⟨front, rest, rfl, rfl, hrest, hmin⟩ := ih h
        refine ⟨c :: front, rest, rfl, Nat.add_assoc _ _ _, hrest, ?_⟩
        intro ds es heq hes
        cases ds with
        | nil =>
            rw [← show c :: front = es from heq]
            exact Bool.eq_false_iff.2 hw
        | cons d ds => exact hmin ds es (List.cons.inj heq).2 hes

end Manifest.Text
