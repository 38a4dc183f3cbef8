import Manifest.Proofs.Quote.Escape
import Manifest.Proofs.Text.Bytes
import Manifest.Quote.Run
import Mathlib.Data.List.TakeWhile

/-!
# Where a run of text ends

A run is a front of the text it was collected from, and its end tells what stopped it.

* `collect_spec` — the part of the text that a run takes.
* `collect_whole` — text in which nothing has a meaning of its own is its own run.
-/

namespace Manifest.Quote

open Text (byteLength byteLength_append byteLength_eq_length)

variable {mode : Mode} {escapes : EscapeSet} {offset : Nat} {cs front rest : List Char} {run : Run}
  {stop : Stop}

/-- The front of a text ends with what stops a run; the rest follows. -/
inductive StopsAt (mode : Mode) : Stop → List Char → List Char → Prop
  | quote (body rest : List Char) {c : Char} (h : mode.quote? = some c) :
      StopsAt mode .quote (body ++ [c]) rest
  | dollar (body : List Char) {rest : List Char} (h : mode.stopsAtDollar)
      (hrest : rest.head? ≠ some '{') : StopsAt mode .dollar (body ++ ['$']) rest
  | dollarBrace (body rest : List Char) (h : mode.stopsAtDollar) :
      StopsAt mode .dollarBrace (body ++ ['$', '{']) rest
  | endOfText (body : List Char) (h : mode.quote? = none) : StopsAt mode .endOfText body []

/-- More text before it does not change how a front ends. -/
theorem StopsAt.prepend (h : StopsAt mode stop front rest) (ds : List Char) :
    StopsAt mode stop (ds ++ front) rest := by
  cases h with
  | quote body rest h =>
      rw [← List.append_assoc]
      exact .quote _ _ h
  | dollar body h hrest =>
      rw [← List.append_assoc]
      exact .dollar _ h hrest
  | dollarBrace body rest h =>
      rw [← List.append_assoc]
      exact .dollarBrace _ _ h
  | endOfText body h => exact .endOfText _ h

/-- Only at the end of the text a run may take nothing. -/
theorem StopsAt.ne_nil (h : StopsAt mode stop front rest) (hstop : stop ≠ .endOfText) :
    front ≠ [] := by
  cases h with
  | quote body rest h => exact List.concat_ne_nil _ _
  | dollar body h hrest => exact List.concat_ne_nil _ _
  | dollarBrace body rest h => exact List.append_ne_nil_of_right_ne_nil _ (List.cons_ne_nil _ _)
  | endOfText body h => exact absurd rfl hstop

/-! ## Escapes -/

/-- Characters up to one of ASCII take one byte. -/
theorem utf8Size_of_le {c d : Char} (hd : d.toNat < 128) (h : c ≤ d) : c.utf8Size = 1 := by
  have hle : c.toNat ≤ d.toNat := h
  refine Char.utf8Size_eq_one_iff.2 (UInt32.le_iff_toNat_le.2 ?_)
  exact Nat.le_of_lt_succ (Nat.lt_of_le_of_lt hle hd)

theorem utf8Size_of_isHexDigit {c : Char} (h : Number.isHexDigit c) : c.utf8Size = 1 := by
  simp only [Number.isHexDigit, Bool.or_eq_true, Bool.and_eq_true, decide_eq_true_eq] at h
  rcases h with (h | h) | h
  · exact utf8Size_of_le (d := '9') (by decide) (Char.isDigit_iff_toNat.1 h).2
  · exact utf8Size_of_le (by decide) h.2
  · exact utf8Size_of_le (by decide) h.2

/-- An escape with a meaning takes two bytes. -/
theorem byteLength_escape {c : Char} (h : escapes.allows c) : byteLength ['\\', c] = 2 := by
  show 1 + (c.utf8Size + 0) = 2
  rw [utf8Size_of_allows h]

/-- What spells a character stands behind two bytes. -/
theorem byteLength_unicodeEscape {spelling : List Char} {n : Nat} (h : byteLength spelling = n) :
    byteLength ('\\' :: 'u' :: spelling) = 2 + n := by
  show 1 + (1 + byteLength spelling) = 2 + n
  rw [h, ← Nat.add_assoc]

/-- Digits in braces take two bytes more. -/
theorem byteLength_braces {digits : List Char} (h : byteLength digits = digits.length) :
    byteLength ('{' :: digits ++ ['}']) = digits.length + 2 := by
  rw [byteLength_append, byteLength, h, Nat.add_comm _ digits.length]
  rfl

/-- A character that begins no escape is no backslash. -/
theorem ne_backslash_of_not_escape {c : Char} (hlone : c = '\\' → cs = [] → False)
    (hescape : ∀ d ds, c = '\\' → cs = d :: ds → False) : c ≠ '\\' := by
  intro hc
  cases cs with
  | nil => exact hlone hc rfl
  | cons d ds => exact hescape d ds hc rfl

/-- A closing quote takes one byte. -/
theorem utf8Size_of_quote? {c : Char} (h : mode.quote? = some c) : c.utf8Size = 1 := by
  cases mode with
  | single => rw [← Option.some.inj h]; rfl
  | double => rw [← Option.some.inj h]; rfl
  | _ => exact nomatch h

/-- What stands behind the characters of a kind. -/
theorem exists_of_head?_drop {p : Char → Bool} {c : Char}
    (h : (cs.drop (cs.takeWhile p).length).head? = some c) :
    ∃ rest, cs = cs.takeWhile p ++ c :: rest := by
  obtain ⟨rest, hrest⟩ := List.head?_eq_some_iff.1 h
  refine ⟨rest, ?_⟩
  rw [← hrest]
  exact (List.prefix_iff_eq_append.1 (List.takeWhile_prefix p)).symm

theorem ne_backslash_of_isHexDigit {c : Char} (h : Number.isHexDigit c) : c ≠ '\\' := by
  rintro rfl
  exact absurd h (by decide)

/-- What spells a character takes one byte for each of its own characters, and holds no
backslash. -/
theorem unicodeEscape?_spec {c : Char} {n : Nat} (h : unicodeEscape? cs = some (c, n)) :
    ∃ spelling rest, cs = spelling ++ rest ∧ spelling.length = n ∧ byteLength spelling = n ∧
      ∀ d ∈ spelling, d ≠ '\\' := by
  unfold unicodeEscape? at h
  split at h
  next cs =>
    -- digits in braces
    dsimp only at h
    split at h
    next hshape =>
      obtain ⟨d, -, hd⟩ := Option.map_eq_some_iff.1 h
      simp only [Bool.and_eq_true, decide_eq_true_eq, beq_iff_eq] at hshape
      obtain rfl := (Prod.mk.inj hd).2
      have hdigits : ∀ e ∈ cs.takeWhile Number.isHexDigit, e.utf8Size = 1 :=
        fun e he => utf8Size_of_isHexDigit (List.mem_takeWhile_imp he)
      have hplain : ∀ e ∈ cs.takeWhile Number.isHexDigit, e ≠ '\\' :=
        fun e he => ne_backslash_of_isHexDigit (List.mem_takeWhile_imp he)
      obtain ⟨rest, hsplit⟩ := exists_of_head?_drop hshape.2
      generalize cs.takeWhile Number.isHexDigit = digits at hdigits hplain hsplit
      refine ⟨'{' :: digits ++ ['}'], rest, ?_, ?_, ?_, ?_⟩
      · rw [hsplit, List.append_assoc]
        rfl
      · rw [List.length_append, List.length_cons]
        rfl
      · exact byteLength_braces (byteLength_eq_length hdigits)
      · exact List.forall_mem_append.2 ⟨List.forall_mem_cons.2 ⟨by decide, hplain⟩,
          List.forall_mem_singleton.2 (by decide)⟩
    next => cases h
  next =>
    -- four digits
    dsimp only at h
    split at h
    next hshape =>
      obtain ⟨d, -, hd⟩ := Option.map_eq_some_iff.1 h
      rw [Bool.and_eq_true, decide_eq_true_eq, List.all_eq_true] at hshape
      obtain rfl := (Prod.mk.inj hd).2
      refine ⟨cs.take 4, cs.drop 4, (List.take_append_drop 4 cs).symm, hshape.1, ?_,
        fun d hd => ne_backslash_of_isHexDigit (hshape.2 d hd)⟩
      rw [byteLength_eq_length fun c hc => utf8Size_of_isHexDigit (hshape.2 c hc), hshape.1]
    next => cases h

/-! ## Runs -/

/-- A run that is stopped takes a front of the text, up to the offset `next`. -/
def Takes (mode : Mode) (offset : Nat) (cs : List Char) (stop : Stop) (next : Nat) : Prop :=
  ∃ front rest, cs = front ++ rest ∧ next = offset + byteLength front ∧ StopsAt mode stop front rest

/-- A run of later text is a run of the text that begins earlier. -/
theorem Takes.prepend {next size : Nat} (ds : List Char) (hsize : byteLength ds = size)
    (h : Takes mode (offset + size) cs stop next) : Takes mode offset (ds ++ cs) stop next := by
  obtain ⟨front, rest, rfl, rfl, hstop⟩ := h
  refine ⟨ds ++ front, rest, (List.append_assoc _ _ _).symm, ?_, hstop.prepend ds⟩
  rw [byteLength_append, hsize, Nat.add_assoc]

/-- Text in front moves no end. -/
theorem Collected.push_run {chars : List Char} {r : Collected} (h : (r.push chars).run = .ok run) :
    ∃ run', r.run = .ok run' ∧ run.stop = run'.stop ∧ run.next = run'.next := by
  obtain ⟨unknown, result⟩ := r
  cases result with
  | error fault => exact nomatch h
  | ok run' =>
      obtain rfl := Except.ok.inj h
      exact ⟨run', rfl, rfl, rfl⟩

theorem Collected.note_run (offset : Nat) (c : Char) (r : Collected) :
    (r.note offset c).run = r.run := by
  rw [Collected.note]
  split
  · rfl
  · rfl

/-- Characters in front of a run of later text. -/
theorem Takes.push {size : Nat} {chars : List Char} {r : Collected} (ds : List Char)
    (hsize : byteLength ds = size)
    (ih : ∀ {run}, r.run = .ok run → Takes mode (offset + size) cs run.stop run.next)
    (h : (r.push chars).run = .ok run) : Takes mode offset (ds ++ cs) run.stop run.next := by
  obtain ⟨run', hrun, hstop, hnext⟩ := Collected.push_run h
  rw [hstop, hnext]
  exact (ih hrun).prepend ds hsize

/-- A run takes a front of the text, and that ends with what stopped the run. -/
theorem collect_spec (h : (collect mode escapes offset cs).run = .ok run) :
    Takes mode offset cs run.stop run.next := by
  fun_induction collect mode escapes offset cs generalizing run with
  | case1 => exact nomatch h
  | case2 offset hquote =>
      obtain rfl := Except.ok.inj h
      exact ⟨[], [], rfl, rfl, .endOfText [] (Option.not_isSome_iff_eq_none.1 hquote)⟩
  -- a backslash at the end of the text
  | case3 offset ih => exact Takes.push ['\\'] rfl ih h
  -- a backslash before the end of a line: with an escape for that, without one
  | case4 offset cs _ ih => exact (ih h).prepend ['\\', '\r', '\n'] rfl
  | case5 offset cs _ ih =>
      rw [Collected.note_run] at h
      exact Takes.push ['\\', '\r'] rfl ih h
  -- a backslash before a dollar sign in raw text, and before what it does not escape
  | case6 offset c cs _ _ ih => exact Takes.push ['\\'] rfl ih h
  | case7 offset c cs _ _ _ ih =>
      rw [Collected.note_run] at h
      have hsize : byteLength ['\\', c] = 1 + c.utf8Size := rfl
      rw [Nat.add_assoc] at ih h
      exact Takes.push ['\\', c] hsize ih h
  -- characters by their numbers
  | case8 offset cs _ n hescape _ _ _ ih =>
      obtain ⟨spelling, rest, rfl, rfl, hsize, -⟩ := unicodeEscape?_spec hescape
      rw [List.drop_left] at ih h
      rw [Nat.add_assoc] at ih h
      exact Takes.push ('\\' :: 'u' :: spelling) (byteLength_unicodeEscape hsize) ih h
  | case9 => exact nomatch h
  -- other escapes
  | case10 offset cs _ _ _ _ ih => exact (ih h).prepend ['\\', '\n'] rfl
  | case11 offset c cs _ _ hallows _ _ ih =>
      have hc : escapes.allows c := by rwa [Bool.not_eq_true', Bool.not_eq_false] at hallows
      exact Takes.push ['\\', c] (byteLength_escape hc) ih h
  -- what stops a run: the quote, and a dollar sign with or without a brace
  | case12 offset c cs _ _ _ hquote =>
      obtain rfl := Except.ok.inj h
      refine ⟨[c], cs, rfl, ?_, .quote [] cs hquote⟩
      show offset + 1 = offset + (c.utf8Size + 0)
      rw [utf8Size_of_quote? hquote]
  | case13 offset c cs _ _ _ _ hdollar hhead =>
      obtain rfl := Except.ok.inj h
      obtain ⟨hc, hmode⟩ := Bool.and_eq_true_iff.1 hdollar
      obtain rfl := of_decide_eq_true hc
      cases cs with
      | nil => exact nomatch hhead
      | cons d cs =>
          obtain rfl := Option.some.inj hhead
          exact ⟨['$', '{'], cs, rfl, rfl, .dollarBrace [] cs hmode⟩
  | case14 offset c cs _ _ _ _ hdollar hhead =>
      obtain rfl := Except.ok.inj h
      obtain ⟨hc, hmode⟩ := Bool.and_eq_true_iff.1 hdollar
      obtain rfl := of_decide_eq_true hc
      exact ⟨['$'], cs, rfl, rfl, .dollar [] hmode hhead⟩
  -- any other character
  | case15 offset c cs _ _ _ _ _ ih =>
      exact Takes.push [c] rfl ih h

/-! ## Text that stands for itself -/

/-- Characters in front of text that stands for itself. -/
theorem Collected.push_whole {size : Nat} {r : Collected} (ds : List Char)
    (hsize : byteLength ds = size)
      (h : r.run = .ok ⟨cs, .endOfText, offset + size + byteLength cs⟩) :
    (r.push ds).run = .ok ⟨ds ++ cs, .endOfText, offset + byteLength (ds ++ cs)⟩ := by
  rw [byteLength_append, hsize, ← Nat.add_assoc, Collected.push, h]
  rfl

/-- Without escapes and interpolations a text stands for itself. -/
theorem collect_whole (cs : List Char) (offset : Nat) :
    (collect .whole .none offset cs).run = .ok ⟨cs, .endOfText, offset + byteLength cs⟩ := by
  fun_induction collect .whole .none offset cs with
  | case1 offset h => exact nomatch h
  | case2 => rfl
  | case3 offset ih => exact Collected.push_whole ['\\'] rfl ih
  -- no escape has a meaning
  | case4 offset cs h => exact absurd (not_allows_none '\n') (by rw [h]; exact Bool.false_ne_true)
  | case5 offset cs _ ih =>
      rw [Collected.note_run]
      exact Collected.push_whole ['\\', '\r'] rfl ih
  | case6 offset c cs _ h => exact nomatch (Bool.and_eq_true_iff.1 h).2
  | case7 offset c cs _ _ _ ih =>
      rw [Nat.add_assoc] at ih
      rw [Collected.note_run, Nat.add_assoc]
      have hsize : byteLength ['\\', c] = 1 + c.utf8Size := rfl
      exact Collected.push_whole ['\\', c] hsize ih
  | case8 _ _ _ _ _ _ _ h => exact absurd (not_allows_none _) h
  | case9 _ _ _ _ _ h => exact absurd (not_allows_none _) h
  | case10 _ _ _ _ h => exact absurd (not_allows_none _) h
  | case11 _ _ _ _ _ h => exact absurd (not_allows_none _) h
  -- and nothing stops the run
  | case12 offset c cs _ _ _ h => exact nomatch h
  | case13 offset c cs _ _ _ _ h => exact nomatch (Bool.and_eq_true_iff.1 h).2
  | case14 offset c cs _ _ _ _ h => exact nomatch (Bool.and_eq_true_iff.1 h).2
  | case15 offset c cs _ _ _ _ _ ih => exact Collected.push_whole [c] rfl ih

end Manifest.Quote
