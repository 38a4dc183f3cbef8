import Manifest.Text.Utf8

/-!
# The bytes of characters

The UTF-8 form of a text is that of its characters, one after the other. Behind the first byte of a
character there are continuation bytes only.

* `encodeUtf8_eq` — the bytes of a text, character by character.
* `isContinuation_of_mem_tail` — the bytes behind the first one.
* `eq_byteOrderMark` — the one character whose bytes begin with the byte order mark of UTF-8.
-/

namespace Manifest.Text

variable {b : UInt8} {c : Char}

/-! ## Bytes of a text -/

theorem toList_loop_eq (bytes : ByteArray) (i : Nat) (read : List UInt8) :
    ByteArray.toList.loop bytes i read = read.reverse ++ bytes.data.toList.drop i := by
  induction i, read using ByteArray.toList.loop.induct bytes with
  | case1 i read hlt ih =>
      have hi : i < bytes.data.toList.length := hlt
      have hget : bytes.get! i = bytes.data.toList[i] := getElem!_pos bytes.data i hlt
      rw [ByteArray.toList.loop, if_pos hlt, ih, List.drop_eq_getElem_cons hi, hget,
        List.reverse_cons, List.append_assoc]
      rfl
  | case2 i read hge =>
      have hi : bytes.data.toList.length ≤ i := Nat.not_lt.1 hge
      rw [ByteArray.toList.loop, if_neg hge, List.drop_eq_nil_of_le hi, List.append_nil]

/-- Bytes are kept in their order. -/
theorem toList_toByteArray (bytes : List UInt8) : bytes.toByteArray.toList = bytes := by
  rw [ByteArray.toList, toList_loop_eq, List.data_toByteArray, List.drop_zero]
  rfl

/-- The bytes of a text are those of its characters. -/
theorem encodeUtf8_eq (cs : List Char) : encodeUtf8 cs = cs.flatMap String.utf8EncodeChar := by
  show (String.ofList cs).toByteArray.toList = _
  rw [String.toByteArray_ofList, List.utf8Encode, toList_toByteArray]

/-! ## Bytes of a character -/

theorem toNat_ofNat {n : Nat} (hn : n < 256) : (UInt8.ofNat n).toNat = n :=
  UInt8.toNat_ofNat_of_lt' hn

/-- Six bits behind the first byte make a byte that continues. -/
theorem isContinuation_ofNat (n : Nat) : isContinuation (UInt8.ofNat (n % 64 + 128)) := by
  have hn : n % 64 < 64 := Nat.mod_lt n (by decide)
  have hvalue : (UInt8.ofNat (n % 64 + 128)).toNat = n % 64 + 128 := toNat_ofNat (by omega)
  refine Bool.and_eq_true_iff.2 ⟨decide_eq_true ?_, decide_eq_true ?_⟩
  · rw [UInt8.le_iff_toNat_le, hvalue]
    exact Nat.le_add_left 128 _
  · rw [UInt8.le_iff_toNat_le, hvalue]
    show n % 64 + 128 ≤ 191
    omega

/-- Behind the first byte of a character there are continuation bytes. -/
theorem isContinuation_of_mem_tail (h : b ∈ (String.utf8EncodeChar c).tail) : isContinuation b := by
  unfold String.utf8EncodeChar at h
  dsimp only at h
  split at h
  · exact nomatch h
  · split at h
    · rw [List.mem_singleton.1 h]
      exact isContinuation_ofNat _
    · split at h
      · rw [List.tail_cons, List.mem_cons, List.mem_singleton] at h
        rcases h with rfl | rfl <;> exact isContinuation_ofNat _
      · rw [List.tail_cons, List.mem_cons, List.mem_cons, List.mem_singleton] at h
        rcases h with rfl | rfl | rfl <;> exact isContinuation_ofNat _

/-- The byte order mark of UTF-8 is the bytes of one character. -/
theorem eq_byteOrderMark (h : [0xEF, 0xBB, 0xBF] <+: String.utf8EncodeChar c) : c = '\uFEFF' := by
  obtain ⟨rest, heq⟩ := h
  unfold String.utf8EncodeChar at heq
  dsimp only at heq
  split at heq
  · exact nomatch (List.cons.inj heq).2
  · split at heq
    · exact nomatch (List.cons.inj (List.cons.inj heq).2).2
    · split at heq
      next hthree =>
        obtain ⟨hfirst, heq⟩ := List.cons.inj heq
        obtain ⟨hsecond, heq⟩ := List.cons.inj heq
        obtain ⟨hthird, -⟩ := List.cons.inj heq
        have hfirst' := congrArg UInt8.toNat hfirst
        have hsecond' := congrArg UInt8.toNat hsecond
        have hthird' := congrArg UInt8.toNat hthird
        rw [toNat_ofNat (by omega)] at hfirst' hsecond' hthird'
        change 239 = _ at hfirst'
        change 187 = _ at hsecond'
        change 191 = _ at hthird'
        have hvalue : c.val.toNat = 65279 := by omega
        exact Char.ext (UInt32.toNat_inj.1 hvalue)
      next =>
        have hfirst := congrArg UInt8.toNat (List.cons.inj heq).1
        rw [toNat_ofNat (by omega)] at hfirst
        change 239 = _ at hfirst
        omega

end Manifest.Text
