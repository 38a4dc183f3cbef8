import Manifest.Proofs.Quote.Run

/-!
# Escapes without a meaning

A text in double quotes is collected in runs, which stop at dollar signs, and each run notes the
escapes without a meaning that it passes. A backslash takes the next character along whatever stops
a run, so that they are those of the text, read from its start to its end by itself.

* `unknownEscapes` — the escapes without a meaning in a text of double quotes.
* `collect_notes` — those that a run notes are those of the text that it takes.
-/

namespace Manifest.Quote

open Text (byteLength byteLength_append)

variable {offset size next : Nat} {c : Char} {cs ds : List Char} {unknown : List (Nat × Char)}
  {run : Run} {chars : List Char} {r : Collected}

/-- The escapes without a meaning in a text of double quotes, by offset. A backslash takes the next
character along, or the two that end a line. -/
def unknownEscapes (offset : Nat) : List Char → List (Nat × Char)
  | [] => []
  | '\\' :: '\r' :: '\n' :: cs => unknownEscapes (offset + 3) cs
  | '\\' :: c :: cs =>
      (if EscapeSet.doubleQuoted.allows c then [] else [(offset, c)])
        ++ unknownEscapes (offset + 1 + c.utf8Size) cs
  | c :: cs => unknownEscapes (offset + c.utf8Size) cs

/-- What is no backslash begins no escape. -/
theorem unknownEscapes_cons (h : c ≠ '\\') :
    unknownEscapes offset (c :: cs) = unknownEscapes (offset + c.utf8Size) cs := by
  rw [unknownEscapes]
  · rintro cs rfl
    exact absurd rfl h
  · rintro d cs rfl
    exact absurd rfl h

/-- A text without backslashes is passed over. -/
theorem unknownEscapes_append (h : ∀ c ∈ ds, c ≠ '\\') :
    unknownEscapes offset (ds ++ cs) = unknownEscapes (offset + byteLength ds) cs := by
  induction ds generalizing offset with
  | nil => rfl
  | cons d ds ih =>
      obtain ⟨hd, hds⟩ := List.forall_mem_cons.1 h
      rw [List.cons_append, unknownEscapes_cons hd, ih hds, Nat.add_assoc]
      rfl

/-- A backslash and what it takes along, unless they stand at the end of a line. -/
theorem unknownEscapes_escape (h : c = '\r' → cs.head? ≠ some '\n') :
    unknownEscapes offset ('\\' :: c :: cs)
      = (if EscapeSet.doubleQuoted.allows c then [] else [(offset, c)])
        ++ unknownEscapes (offset + 1 + c.utf8Size) cs := by
  rw [unknownEscapes]
  rintro cs rfl rfl
  exact h rfl rfl

/-- An escape with a meaning. -/
theorem unknownEscapes_allowed (h : EscapeSet.doubleQuoted.allows c) :
    unknownEscapes offset ('\\' :: c :: cs) = unknownEscapes (offset + 2) cs := by
  have hline : c = '\r' → cs.head? ≠ some '\n' := by
    rintro rfl
    exact absurd h (by decide)
  rw [unknownEscapes_escape hline, if_pos h, utf8Size_of_allows h]
  rfl

/-- A dollar sign at the end makes no difference: a backslash may stand before it. -/
theorem unknownEscapes_dollar (cs : List Char) (offset : Nat) :
    unknownEscapes offset (cs ++ ['$']) = unknownEscapes offset cs := by
  fun_induction unknownEscapes offset cs with
  | case1 => rfl
  | case2 offset cs ih => exact ih
  | case3 offset c cs hline ih =>
      have hline' : c = '\r' → (cs ++ ['$']).head? ≠ some '\n' := by
        rintro rfl hhead
        cases cs with
        | nil => exact nomatch Option.some.inj hhead
        | cons d cs =>
            obtain rfl := Option.some.inj hhead
            exact hline cs rfl rfl
      rw [List.cons_append, List.cons_append, unknownEscapes_escape hline', ih]
  | case4 offset c cs hline hescape ih =>
      by_cases hc : c = '\\'
      · -- a backslash alone
        subst hc
        cases cs with
        | nil => rfl
        | cons d cs => exact absurd rfl (hescape d cs rfl)
      · rw [List.cons_append, unknownEscapes_cons hc, ih]

/-! ## Runs -/

/-- The escapes that a run notes are those of a front of the text, which ends where the run does. -/
def Notes (offset : Nat) (cs : List Char) (unknown : List (Nat × Char)) (next : Nat) : Prop :=
  ∃ front rest, cs = front ++ rest ∧ front ≠ [] ∧ next = offset + byteLength front ∧
    ∀ more, unknownEscapes offset (front ++ more) = unknown ++ unknownEscapes next more

/-- A run of later text is one of the text that begins earlier, with the escapes before it. -/
theorem Notes.prepend (ds : List Char) (added : List (Nat × Char)) (hsize : byteLength ds = size)
    (hadded : ∀ more : List Char, more.head? = cs.head? →
      unknownEscapes offset (ds ++ more) = added ++ unknownEscapes (offset + size) more)
    (h : Notes (offset + size) cs unknown next) :
    Notes offset (ds ++ cs) (added ++ unknown) next := by
  obtain ⟨front, rest, rfl, hne, rfl, hfront⟩ := h
  refine ⟨ds ++ front, rest, (List.append_assoc _ _ _).symm,
    List.append_ne_nil_of_right_ne_nil _ hne, ?_, ?_⟩
  · rw [byteLength_append, hsize, Nat.add_assoc]
  · intro more
    have hhead : (front ++ more).head? = (front ++ rest).head? := by
      obtain ⟨c, front, rfl⟩ := List.exists_cons_of_ne_nil hne
      rfl
    rw [List.append_assoc, hadded _ hhead, hfront, List.append_assoc]

/-- A character that stops a run, with what belongs to it. -/
theorem notes_stop (ds rest : List Char) (hne : ds ≠ []) (hsize : byteLength ds = size)
    (h : ∀ c ∈ ds, c ≠ '\\') : Notes offset (ds ++ rest) [] (offset + size) := by
  refine ⟨ds, rest, rfl, hne, by rw [hsize], fun more => ?_⟩
  rw [unknownEscapes_append h, hsize]
  rfl

/-- Characters in front of a run of later text. -/
theorem Notes.push (ds : List Char) (added : List (Nat × Char)) (hsize : byteLength ds = size)
    (hadded : ∀ more : List Char, more.head? = cs.head? →
      unknownEscapes offset (ds ++ more) = added ++ unknownEscapes (offset + size) more)
    (ih : ∀ {run}, r.run = .ok run → Notes (offset + size) cs r.unknown run.next)
    (h : (r.push chars).run = .ok run) :
    Notes offset (ds ++ cs) (added ++ (r.push chars).unknown) run.next := by
  obtain ⟨run', hrun, -, hnext⟩ := Collected.push_run h
  rw [hnext]
  exact (ih hrun).prepend ds added hsize hadded

/-- An escape without a meaning is noted. -/
theorem note_unknown (h : EscapeSet.doubleQuoted.allows c = false) :
    (r.note offset c).unknown = (offset, c) :: r.unknown := by
  have hc : ¬ (c = '\\' || c = '\n') := by
    rw [Bool.or_eq_true, decide_eq_true_eq, decide_eq_true_eq]
    rintro (rfl | rfl)
    · exact absurd h (by decide)
    · exact absurd h (by decide)
  rw [Collected.note, if_neg hc]

/-- The escapes that a run in double quotes notes are those of the text that it takes. -/
theorem collect_notes (h : (collect .double .doubleQuoted offset cs).run = .ok run) :
    Notes offset cs (collect .double .doubleQuoted offset cs).unknown run.next := by
  fun_induction collect .double .doubleQuoted offset cs generalizing run with
  | case1 => cases h
  | case2 offset hquote => exact absurd rfl hquote
  -- a backslash at the end of the text: nothing closes the string
  | case3 offset ih =>
      obtain ⟨run', hrun, -⟩ := Collected.push_run h
      obtain ⟨front, rest, hnil, hne, -⟩ := ih hrun
      exact absurd (List.append_eq_nil_iff.1 hnil.symm).1 hne
  | case4 offset cs _ ih =>
      refine (ih h).prepend ['\\', '\r', '\n'] [] rfl fun more _ => ?_
      show unknownEscapes offset ('\\' :: '\r' :: '\n' :: more) = unknownEscapes (offset + 3) more
      rw [unknownEscapes]
  | case5 offset cs hline ih => exact absurd rfl hline
  | case6 offset c cs _ hraw ih => exact absurd (Bool.and_eq_true_iff.1 hraw).2 (by decide)
  | case7 offset c cs hline _ hallows ih =>
      have hc : EscapeSet.doubleQuoted.allows c = false := by simpa using hallows
      have hsize : byteLength ['\\', c] = 1 + c.utf8Size := rfl
      rw [Collected.note_run] at h
      rw [note_unknown hc]
      rw [Nat.add_assoc] at ih h ⊢
      refine Notes.push ['\\', c] [(offset, c)] hsize (fun more hmore => ?_) ih h
      have hhead : c = '\r' → more.head? ≠ some '\n' := by
        rintro rfl hfeed
        obtain ⟨cs, rfl⟩ := List.head?_eq_some_iff.1 (hmore.symm.trans hfeed)
        exact hline cs rfl rfl
      rw [List.cons_append, List.cons_append, List.nil_append, unknownEscapes_escape hhead, hc,
        ← Nat.add_assoc]
      rfl
  | case8 offset cs _ n hescape _ _ _ ih =>
      obtain ⟨spelling, rest, rfl, rfl, hsize, hplain⟩ := unicodeEscape?_spec hescape
      rw [List.drop_left] at ih h ⊢
      rw [Nat.add_assoc] at ih h ⊢
      refine Notes.push ('\\' :: 'u' :: spelling) [] (byteLength_unicodeEscape hsize)
        (fun more _ => ?_) ih h
      have hallows : EscapeSet.doubleQuoted.allows 'u' := by decide
      rw [List.cons_append, List.cons_append, unknownEscapes_allowed hallows,
        unknownEscapes_append hplain, hsize, Nat.add_assoc]
      rfl
  | case9 => cases h
  | case10 offset cs _ _ _ _ ih =>
      have hallows : EscapeSet.doubleQuoted.allows '\n' := by decide
      exact (ih h).prepend ['\\', '\n'] [] rfl fun _ _ => unknownEscapes_allowed hallows
  | case11 offset c cs _ _ hallows _ _ ih =>
      have hc : EscapeSet.doubleQuoted.allows c := by simpa using hallows
      exact Notes.push ['\\', c] [] (byteLength_escape hc)
        (fun _ _ => unknownEscapes_allowed hc) ih h
  -- what stops a run
  | case12 offset c cs _ _ _ hquote =>
      obtain rfl := Except.ok.inj h
      obtain rfl := Option.some.inj hquote
      exact notes_stop ['"'] cs (List.cons_ne_nil _ _) rfl (by simp)
  | case13 offset c cs _ _ _ _ hdollar hhead =>
      obtain rfl := Except.ok.inj h
      obtain rfl := of_decide_eq_true (Bool.and_eq_true_iff.1 hdollar).1
      obtain ⟨cs, rfl⟩ := List.head?_eq_some_iff.1 hhead
      exact notes_stop ['$', '{'] cs (List.cons_ne_nil _ _) rfl (by simp)
  | case14 offset c cs _ _ _ _ hdollar hhead =>
      obtain rfl := Except.ok.inj h
      obtain rfl := of_decide_eq_true (Bool.and_eq_true_iff.1 hdollar).1
      exact notes_stop ['$'] cs (List.cons_ne_nil _ _) rfl (by simp)
  | case15 offset c cs hlone _ hescape _ _ ih =>
      have hc : c ≠ '\\' := ne_backslash_of_not_escape hlone hescape
      exact Notes.push [c] [] (Nat.add_zero _) (fun _ _ => unknownEscapes_cons hc) ih h

end Manifest.Quote
