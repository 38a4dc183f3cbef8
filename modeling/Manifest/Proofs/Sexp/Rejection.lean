import Manifest.Proofs.Sexp.Acceptance
import Manifest.Proofs.Sexp.LongestMatch
import Mathlib.Data.List.Chain

/-!
# Texts that are no value are rejected where they stop being one

A text is parsed as a value exactly when its division into lexemes is that of the value. Otherwise
the problem lies in the text: at the first lexeme that no value allows after those before it, or at
the end, where more lexemes could still make it a value. In front of white space beyond ASCII a
number and the mark of an exponent are read as a number, and rejected as the head of a call.

* `exists_refused` — a problem belongs to one lexeme.
* `parse_keeps` — what is parsed, and what is rejected where.
* `parse_severed_head` — the head that is rejected wrongly.
-/

namespace Manifest.Sexp

open Text (byteLength byteLength_append)

variable {frames : List Frame} {l l' : Lexeme} {ls ms before after : List Lexeme} {v : Sexp}
  {p q : Progress} {e : Error} {cs rest text body : List Char} {c : Char} {offset : Nat}

/-! ## Places in a text -/

/-- What begins a text is not longer. -/
theorem byteLength_le_of_begins {ds : List Char} (h : ds <+: cs) :
    byteLength ds ≤ byteLength cs := by
  obtain ⟨es, rfl⟩ := h
  rw [byteLength_append]
  exact Nat.le_add_right _ _

theorem byteLength_add_drop {ds : List Char} (h : ds <+: cs) :
    byteLength ds + byteLength (cs.drop ds.length) = byteLength cs := by
  obtain ⟨es, rfl⟩ := h
  rw [List.drop_left, byteLength_append]

/-- Every character takes a byte or more. -/
theorem byteLength_drop_le {n : Nat} (h : n ≤ cs.length) :
    n + byteLength (cs.drop n) ≤ byteLength cs := by
  induction n generalizing cs with
  | zero => rw [Nat.zero_add, List.drop_zero]
  | succ n ih =>
      cases cs with
      | nil => exact absurd h (Nat.not_succ_le_zero n)
      | cons c cs =>
          have hrest := ih (Nat.le_of_succ_le_succ h)
          have hpos := c.utf8Size_pos
          rw [List.drop_succ_cons, byteLength]
          omega

/-- A text between quotes begins what follows the first one. -/
theorem quotedBody_begins (cs : List Char) : (quotedBody cs).1 <+: cs ∧
    ((quotedBody cs).2 → (quotedBody cs).1 ++ ['"'] <+: cs) := by
  fun_induction quotedBody cs with
  | case1 => exact ⟨List.nil_prefix, (absurd · Bool.false_ne_true)⟩
  | case2 tail => exact ⟨List.nil_prefix, fun _ => ⟨tail, rfl⟩⟩
  | case3 => exact ⟨List.nil_prefix, (absurd · Bool.false_ne_true)⟩
  | case4 => exact ⟨List.nil_prefix, (absurd · Bool.false_ne_true)⟩
  | case5 c cs hc body closed heq ih =>
    rw [heq] at ih
    exact ⟨List.cons_prefix_cons.2 ⟨rfl, List.cons_prefix_cons.2 ⟨rfl, ih.1⟩⟩,
      fun h => List.cons_prefix_cons.2 ⟨rfl, List.cons_prefix_cons.2 ⟨rfl, ih.2 h⟩⟩⟩
  | case6 c cs _ _ _ body closed heq ih =>
    rw [heq] at ih
    exact ⟨List.cons_prefix_cons.2 ⟨rfl, ih.1⟩, fun h => List.cons_prefix_cons.2 ⟨rfl, ih.2 h⟩⟩

/-- A quoted lexeme begins the text. -/
theorem quoted_begins (kind : Lexeme.Kind) (opening cs : List Char) :
    (quoted kind opening cs).2 <+: opening ++ cs := by
  obtain ⟨hbody, hclosed⟩ := quotedBody_begins cs
  unfold quoted
  split
  next body heq =>
    rw [heq] at hclosed
    rw [List.append_assoc]
    exact (List.prefix_append_right_inj opening).2 (hclosed rfl)
  next body heq =>
    rw [heq] at hbody
    exact (List.prefix_append_right_inj opening).2 hbody

/-- A lexeme is the front of the text where it is read. -/
theorem lexemeAt_begins (c : Char) (cs : List Char) : (lexemeAt c cs).2 <+: c :: cs := by
  have hone : ∀ d, [d] <+: d :: cs := fun d => ⟨cs, rfl⟩
  unfold lexemeAt
  split
  case h_7 => exact quoted_begins .string ['"'] cs
  case h_8 => exact quoted_begins .quotedSymbol ['#', '"'] _
  case h_9 => exact quoted_begins .quotedKeyword [':', '"'] _
  case h_10 =>
    split
    · exact List.cons_prefix_cons.2 ⟨rfl, List.takeWhile_prefix _⟩
    · exact hone c
  all_goals exact hone _

/-- Lexemes lie in the text. -/
theorem lexemesFrom_le (h : l ∈ lexemesFrom offset cs) :
    l.offset + byteLength l.text ≤ offset + byteLength cs := by
  fun_induction lexemesFrom offset cs with
  | case1 => exact nomatch h
  | case2 offset c cs hc ih =>
    have hpos := c.utf8Size_pos
    have hle := ih h
    rw [byteLength]
    omega
  | case3 offset cs comment _ ih =>
    have hle := ih h
    have hsplit : byteLength comment + byteLength (cs.drop comment.length) = byteLength cs :=
      byteLength_add_drop (List.takeWhile_prefix _)
    have hsize : ';'.utf8Size = 1 := by decide
    rw [byteLength]
    omega
  | case4 offset c cs _ _ kind text heq ih =>
    have hinit : text <+: c :: cs := by
      have hinit := lexemeAt_begins c cs
      rwa [heq] at hinit
    rcases List.mem_cons.1 h with rfl | h
    · exact Nat.add_le_add_left (byteLength_le_of_begins hinit) offset
    · split at h
      · exact nomatch h
      · have hle := ih h
        cases text with
        | nil =>
            refine Nat.le_trans hle ?_
            simp only [byteLength, List.length_nil, Nat.zero_sub, List.drop_zero]
            omega
        | cons d ds =>
            have hsplit := byteLength_add_drop hinit
            rw [List.length_cons, List.drop_succ_cons] at hsplit
            rw [List.length_cons, Nat.add_sub_cancel] at hle
            omega

/-! ## The problem of a lexeme -/

/-- Reading fails at the first lexeme that cannot follow those before it. -/
theorem exists_refused (h : ls.foldlM advance p = .error e) :
    ∃ before l after q, ls = before ++ l :: after ∧ before.foldlM advance p = .ok q ∧
      advance q l = .error e := by
  induction ls generalizing p with
  | nil => exact nomatch h
  | cons l ls ih =>
      rw [List.foldlM_cons] at h
      cases hp : advance p l with
      | error e' =>
          rw [hp] at h
          exact ⟨[], l, ls, p, rfl, rfl, by rw [hp, Except.error.inj h]⟩
      | ok q =>
          rw [hp] at h
          obtain ⟨before, l', after, q', rfl, hbefore, hl'⟩ := ih h
          exact ⟨l :: before, l', after, q', rfl, by rw [foldlM_cons_ok hp, hbefore], hl'⟩

/-- No value has the lexeme after those before it. -/
theorem not_derives_of_refused (h : before.foldlM advance (.within []) = .ok q)
    (hl : advance q l = .error e) (after : List Lexeme) (v : Sexp) :
    ¬ Derives (before ++ l :: after) v := by
  intro hv
  have hempty : Accepts [] := trivial
  have hread := hv.foldlM_advance hempty
  rw [foldlM_append_ok h, List.foldlM_cons, hl] at hread
  exact nomatch hread

/-- What is wrong with a lexeme: it is not valid where it stands, it is out of range, or an escape
in it is not legal. -/
inductive Faulty (l : Lexeme) (e : Error) : Prop
  | unexpected : e = Sexp.unexpected l → Faulty l e
  | range {literal : String} : e.problem = .range literal → e.offset = l.offset → Faulty l e
  | escape {spelling : String} : e.problem = .escape spelling →
      e.offset ≤ l.offset + byteLength l.text → Faulty l e

/-- A text that cannot be read has an illegal escape. -/
theorem faulty_of_quotedText {skip : Nat} (h : quotedText l skip = .error e) : Faulty l e := by
  have hunescape := map_eq_error.1 h
  obtain ⟨spelling, hproblem, hoffset⟩ := offset_of_unescape hunescape
  refine .escape hproblem ?_
  by_cases hskip : skip ≤ l.text.length
  · have hdrop := byteLength_drop_le hskip
    have hlast := byteLength_le_of_begins (List.dropLast_prefix (l.text.drop skip))
    omega
  -- nothing is behind the opening
  · rw [List.drop_eq_nil_of_le (Nat.le_of_not_le hskip)] at hunescape
    exact nomatch hunescape

/-- A symbol that cannot be read has an illegal escape. -/
theorem faulty_of_symbolText? {r : Except Error String} (h : symbolText? l = some r)
    (he : r = .error e) : Faulty l e := by
  unfold symbolText? at h
  split at h
  next => exact nomatch (Option.some.inj h).trans he
  next => exact nomatch (Option.some.inj h).trans he
  next => exact faulty_of_quotedText ((Option.some.inj h).trans he)
  next => exact faulty_of_quotedText (map_eq_error.1 ((Option.some.inj h).trans he))
  next => exact nomatch h

/-- A key that cannot be read has an illegal escape. -/
theorem faulty_of_keyText? {r : Except Error String} (h : keyText? l = some r)
    (he : r = .error e) : Faulty l e := by
  unfold keyText? at h
  split at h
  next => exact nomatch (Option.some.inj h).trans he
  next => exact faulty_of_quotedText ((Option.some.inj h).trans he)
  next => exact nomatch h

/-- A scalar that cannot be read is at fault itself. -/
theorem faulty_of_scalar (h : scalar l = .error e) : Faulty l e := by
  unfold scalar at h
  split at h
  next => exact faulty_of_quotedText (map_eq_error.1 h)
  next =>
    unfold intValue at h
    split at h
    next => exact nomatch h
    next =>
      obtain rfl := Except.error.inj h
      exact .range rfl rfl
  next =>
    unfold floatValue at h
    split at h
    next =>
      split at h
      next => exact nomatch h
      next =>
        obtain rfl := Except.error.inj h
        exact .range rfl rfl
    next =>
      obtain rfl := Except.error.inj h
      exact .range rfl rfl
  next => exact nomatch h
  next => exact nomatch h
  next =>
    split at h
    next text htext => exact faulty_of_symbolText? htext (map_eq_error.1 h)
    next => exact .unexpected (Except.error.inj h).symm

/-- A lexeme that cannot begin a value is at fault itself. -/
theorem faulty_of_openValue (h : openValue frames l = .error e) : Faulty l e := by
  unfold openValue at h
  split at h
  next => exact nomatch h
  next => exact nomatch h
  next => exact nomatch h
  next => exact faulty_of_scalar (map_eq_error.1 h)

/-- An error is the fault of the lexeme at which it comes up. -/
theorem faulty_of_advance (h : advance q l = .error e) : Faulty l e := by
  cases q with
  | complete v => exact .unexpected (Except.error.inj h).symm
  | within frames =>
  have htake : take frames l = .error e := h
  unfold take at htake
  split at htake
  next =>
    split at htake
    next => exact nomatch htake
    next => exact faulty_of_openValue htake
  next =>
    split at htake
    next => exact nomatch htake
    next => exact faulty_of_openValue htake
  next =>
    split at htake
    next text htext => exact faulty_of_symbolText? htext (map_eq_error.1 htake)
    next => exact .unexpected (Except.error.inj htake).symm
  next =>
    split at htake
    next => exact nomatch htake
    next =>
      split at htake
      next text htext => exact faulty_of_keyText? htext (map_eq_error.1 htake)
      next => exact .unexpected (Except.error.inj htake).symm
  next => exact faulty_of_openValue htake

/-- A lexeme that is not expected is told by its offset, and unreadable ones by a code of their own.
-/
theorem unexpected_eq (l : Lexeme) : (unexpected l).offset = l.offset ∧
    (unexpected l).code =
      if l.kind = .unreadable then .unexpectedCharacter else .unexpectedToken := by
  unfold unexpected
  split
  next hk => exact ⟨rfl, (if_pos hk).symm⟩
  next hk => exact ⟨rfl, (if_neg hk).symm⟩

/-- The error lies at the lexeme. -/
theorem Faulty.offset_le (h : Faulty l e) : e.offset ≤ l.offset + byteLength l.text := by
  cases h with
  | unexpected he =>
      rw [he, (unexpected_eq l).1]
      exact Nat.le_add_right _ _
  | range _ hoffset =>
      rw [hoffset]
      exact Nat.le_add_right _ _
  | escape _ hoffset => exact hoffset

/-- Faults other than an unexpected lexeme have codes of their own. -/
theorem Faulty.code_eq (h : Faulty l e) :
    e = Sexp.unexpected l ∨ e.code = .numberOutOfRange ∨ e.code = .invalidEscape := by
  cases h with
  | unexpected he => exact .inl he
  | range hproblem => exact .inr (.inl (congrArg Problem.code hproblem))
  | escape hproblem => exact .inr (.inr (congrArg Problem.code hproblem))

/-- A lexeme that is unexpected is readable, and rejected at its beginning. -/
theorem Faulty.of_code (h : Faulty l e) (hcode : e.code = .unexpectedToken) :
    e.offset = l.offset ∧ l.kind ≠ .unreadable := by
  rcases h.code_eq with rfl | hother | hother
  · obtain ⟨hoffset, hunexpected⟩ := unexpected_eq l
    refine ⟨hoffset, ?_⟩
    intro hk
    rw [if_pos hk, hcode] at hunexpected
    exact nomatch hunexpected
  · exact nomatch hcode.symm.trans hother
  · exact nomatch hcode.symm.trans hother

/-- A fault of a lexeme is not that the text ended. -/
theorem Faulty.code_ne (h : Faulty l e) : e.code ≠ .unexpectedEnd := by
  intro hcode
  rcases h.code_eq with rfl | hother | hother
  · obtain ⟨-, hunexpected⟩ := unexpected_eq l
    rw [hcode] at hunexpected
    split at hunexpected
    · exact nomatch hunexpected
    · exact nomatch hunexpected
  · exact nomatch hcode.symm.trans hother
  · exact nomatch hcode.symm.trans hother

/-! ## Runs that are cut off -/

/-- As a value, a lexeme without quotes can only be out of range. -/
theorem range_of_scalar (hrun : (Rule.lexeme l.kind).isRun) (h : scalar l = .error e) :
    ∃ literal, e.problem = .range literal := by
  obtain ⟨kind, text, offset⟩ := l
  cases kind with
  | int =>
      have hint : intValue ⟨.int, text, offset⟩ = .error e := h
      unfold intValue at hint
      split at hint
      · exact nomatch hint
      · exact ⟨_, congrArg Error.problem (Except.error.inj hint).symm⟩
  | float =>
      have hfloat : floatValue ⟨.float, text, offset⟩ = .error e := h
      unfold floatValue at hfloat
      split at hfloat
      · split at hfloat
        · exact nomatch hfloat
        · exact ⟨_, congrArg Error.problem (Except.error.inj hfloat).symm⟩
      · exact ⟨_, congrArg Error.problem (Except.error.inj hfloat).symm⟩
  | bool | nil | symbol | keyword => exact nomatch h
  | _ => exact absurd hrun Bool.false_ne_true

/-- A lexeme without quotes is unexpected only as the head of a call and as a key. -/
theorem frames_of_unexpected (hrun : (Rule.lexeme l.kind).isRun) (h : take frames l = .error e)
    (hcode : e.code = .unexpectedToken) :
    (∃ outer, frames = .head :: outer) ∧ l.kind ≠ .symbol ∨
      ∃ entries outer, frames = .map entries :: outer := by
  have hvalue : openValue frames l ≠ .error e := by
    intro he
    unfold openValue at he
    split at he
    case h_4 =>
      obtain ⟨literal, hproblem⟩ := range_of_scalar hrun (map_eq_error.1 he)
      exact nomatch hcode.symm.trans (congrArg Problem.code hproblem)
    all_goals exact nomatch he
  unfold take at h
  split at h
  next =>
    split at h
    next => exact nomatch h
    next => exact absurd h hvalue
  next =>
    split at h
    next => exact nomatch h
    next => exact absurd h hvalue
  next outer =>
    refine .inl ⟨⟨outer, rfl⟩, ?_⟩
    intro hk
    rw [symbolText?, hk] at h
    cases h
  next entries outer => exact .inr ⟨entries, outer, rfl⟩
  next => exact absurd h hvalue

/-- As a key only keywords are expected. -/
theorem take_map_error {entries : List (String × Sexp)} {outer : List Frame}
    (hrun : (Rule.lexeme l.kind).isRun) (hkey : l.kind ≠ .keyword) :
    ∃ e, take (.map entries :: outer) l = .error e := by
  obtain ⟨kind, text, offset⟩ := l
  cases kind with
  | keyword => exact absurd rfl hkey
  | float | int | bool | nil | symbol => exact ⟨_, rfl⟩
  | _ => exact absurd hrun Bool.false_ne_true

/-- A run is read by a rule for runs. -/
theorem isRun_kindOfRun (text : List Char) : (Rule.lexeme (kindOfRun text)).isRun := by
  unfold kindOfRun
  repeat' split
  all_goals rfl

/-- A run that is cut is read by a rule for runs. -/
theorem isRun_kindOfCutRun (text : List Char) : (Rule.lexeme (kindOfCutRun text)).isRun := by
  rcases kindOfCutRun_cases text with h | ⟨h, -⟩ | ⟨h | h, -⟩
  · rw [h]
    exact isRun_kindOfRun text
  all_goals
    rw [h]
    rfl

/-- A run that is cut off and unexpected would be so by its own kind, unless it is the head of a
call that is read as a number without being one. -/
theorem refused_of_cut (h : advance q ⟨kindOfCutRun text, text, offset⟩ = .error e)
    (hcode : e.code = .unexpectedToken)
    (hhead : ∀ outer, q = .within (.head :: outer) →
      kindOfCutRun text = .int ∨ kindOfCutRun text = .float →
      text ∈ (Rule.lexeme (kindOfCutRun text)).pattern) :
    ∃ e', advance q ⟨kindOfRun text, text, offset⟩ = .error e' := by
  cases q with
  | complete v => exact ⟨_, rfl⟩
  | within frames =>
  have hframes := frames_of_unexpected (isRun_kindOfCutRun text) h hcode
  have hmap : ∀ entries outer, frames = .map entries :: outer → kindOfRun text ≠ .keyword →
      ∃ e', advance (.within frames) ⟨kindOfRun text, text, offset⟩ = .error e' := by
    rintro entries outer rfl hkey
    exact take_map_error (isRun_kindOfRun text) hkey
  rcases kindOfCutRun_cases text with heq | ⟨hsymbol, hkinds⟩ | ⟨hnumber, hsymbol⟩
  · exact ⟨e, heq ▸ h⟩
  · obtain ⟨entries, outer, hframe⟩ := hframes.resolve_left fun hnot => hnot.2 hsymbol
    refine hmap entries outer hframe ?_
    rcases hkinds with hk | hk | ⟨b, hk⟩
    all_goals
      rw [hk]
      exact nofun
  · rcases hframes with ⟨⟨outer, rfl⟩, -⟩ | ⟨entries, outer, hframe⟩
    -- a number is none by the kind of its run
    · have hmem := hhead outer rfl hnumber
      have hne : kindOfCutRun text ≠ .symbol := by
        rcases hnumber with hk | hk
        all_goals
          rw [hk]
          exact nofun
      have hkind := kindOfRun_of_mem (isRun_kindOfCutRun text) hne hmem
      exact absurd (hkind.symm.trans hsymbol) hne
    · refine hmap entries outer hframe ?_
      rw [hsymbol]
      exact nofun

/-! ## The division and what is read -/

/-- Lexemes are spelled as their kinds ask. -/
theorem Lexes.spelled (h : Lexes offset cs ls rest) : ∀ l ∈ ls, l.Spelled := by
  induction h with
  | stop => exact fun _ h => nomatch h
  | skip _ _ _ ih => exact ih
  | lexeme hlongest _ ih => exact List.forall_mem_cons.2 ⟨hlongest.mem, ih⟩

/-- As long as all can be read, the lexemes are those of the text. -/
theorem Follows.eq_of_readable (h : Follows ms ls rest) (hms : ∀ l ∈ ms, l.kind ≠ .unreadable) :
    ms = ls ∧ rest = [] := by
  induction h with
  | nil => exact ⟨rfl, rfl⟩
  | cons l _ ih =>
      obtain ⟨rfl, hrest⟩ := ih (List.forall_mem_cons.1 hms).2
      exact ⟨rfl, hrest⟩
  | unreadable hk => exact absurd hk (hms _ List.mem_cons_self)
  | cut hk => exact absurd hk (hms _ (List.mem_cons_of_mem _ List.mem_cons_self))

/-- The lexemes are those of the text if all of it divides. -/
theorem Follows.eq_of_nil (h : Follows ms ls []) : ms = ls := by
  generalize hrest : [] = rest at h
  induction h with
  | nil => rfl
  | cons l _ ih => rw [ih hrest]
  | unreadable _ hne => exact absurd hrest.symm hne
  | cut _ hne => exact absurd hrest.symm hne

/-- A readable lexeme is one of the division, but for the kind of a run that is cut off. -/
theorem Follows.exists_of_append (h : Follows ms ls rest) (hms : ms = before ++ l :: after)
    (hl : l.kind ≠ .unreadable) : ∃ l' after', ls = before ++ l' :: after' ∧
      (l' = l ∨ ∃ text offset, l = ⟨kindOfCutRun text, text, offset⟩ ∧
        l' = ⟨kindOfRun text, text, offset⟩) := by
  induction h generalizing before with
  | nil => exact absurd hms (by simp)
  | @cons first ms ls rest _ ih =>
      cases before with
      | nil =>
          obtain ⟨rfl, -⟩ := List.cons.inj hms
          exact ⟨first, ls, rfl, .inl rfl⟩
      | cons b before =>
          obtain ⟨rfl, hrest⟩ := List.cons.inj hms
          obtain ⟨l', after', rfl, hl'⟩ := ih hrest
          exact ⟨l', after', rfl, hl'⟩
  | unreadable hk _ =>
      cases before with
      | nil => exact absurd ((List.cons.inj hms).1 ▸ hk) hl
      | cons b before => exact absurd (List.cons.inj hms).2 (by simp)
  | @cut text rest offset u hk _ =>
      match before with
      | [] => exact ⟨_, [], rfl, .inr ⟨text, offset, (List.cons.inj hms).1.symm, rfl⟩⟩
      | [b] => exact absurd ((List.cons.inj (List.cons.inj hms).2).1 ▸ hk) hl
      | b :: b' :: before => exact absurd (List.cons.inj (List.cons.inj hms).2).2 (by simp)

/-- An unreadable lexeme is never expected. -/
theorem advance_unreadable (q : Progress) (hl : l.kind = .unreadable) :
    advance q l = .error (unexpected l) := by
  obtain ⟨kind, text, offset⟩ := l
  subst hl
  cases q with
  | complete v => rfl
  | within frames =>
    cases frames with
    | nil => rfl
    | cons frame outer => cases frame <;> rfl

/-- What is read without an error has none. -/
theorem readable_of_foldlM (h : ls.foldlM advance p = .ok q) : ∀ l ∈ ls, l.kind ≠ .unreadable := by
  intro l hl hk
  obtain ⟨before, after, rfl⟩ := List.append_of_mem hl
  cases hbefore : before.foldlM advance p with
  | error e =>
      rw [List.foldlM_append, hbefore] at h
      exact nomatch h
  | ok p' =>
      rw [foldlM_append_ok hbefore, List.foldlM_cons, advance_unreadable p' hk] at h
      exact nomatch h

/-! ## Texts -/

/-- What is parsed, and what is rejected where, in terms of the lexemes of a text and of what is
left where no rule matches. -/
structure KeepsToGrammar (cs : List Char) (ls : List Lexeme) (rest : List Char) : Prop where
  /-- the text is parsed as the value of its lexemes, when they are those of one value -/
  accepts : ∀ v, parse cs = .ok v ↔ rest = [] ∧ Derives ls v
  offset_le : ∀ e, parse cs = .error e → e.offset ≤ byteLength cs
  /-- no value goes on with the lexeme that is unexpected -/
  unexpected : ∀ e, parse cs = .error e → e.code = .unexpectedToken →
    ∃ before l after, ls = before ++ l :: after ∧ e.offset = l.offset ∧
      ∀ after' v, ¬ Derives (before ++ l :: after') v
  /-- some value goes on behind the end of the text -/
  ended : ∀ e, parse cs = .error e → e.code = .unexpectedEnd →
    e.offset = byteLength cs ∧ rest = [] ∧
      ∃ more v, more ≠ [] ∧ (∀ l ∈ more, l.Spelled) ∧ Derives (ls ++ more) v

/-- Parsing reads the lexemes of the text. -/
theorem parse_eq (cs : List Char) :
    parse cs = (lexemes cs).foldlM advance (.within []) >>= finish (byteLength cs) :=
  proceed_eq_foldlM (byteLength cs) (.within []) (lexemes cs)

/-- Parsing succeeds when the lexemes make up one value. -/
theorem parse_eq_ok : parse cs = .ok v ↔
    (lexemes cs).foldlM advance (.within []) = .ok (.complete v) := by
  rw [parse_eq]
  cases (lexemes cs).foldlM advance (.within []) with
  | error e => exact ⟨fun h => (nomatch h), fun h => (nomatch h)⟩
  | ok p =>
    cases p with
    | within frames => exact ⟨fun h => (nomatch h), fun h => (nomatch h)⟩
    | complete w =>
        exact ⟨fun h => congrArg (fun x => Except.ok (Progress.complete x)) (Except.ok.inj h),
          fun h => congrArg Except.ok (Progress.complete.inj (Except.ok.inj h))⟩

/-- Reading fails at a lexeme, or with forms that are open at the end. -/
theorem parse_eq_error (h : parse cs = .error e) :
    (∃ before l after q, lexemes cs = before ++ l :: after ∧
      before.foldlM advance (.within []) = .ok q ∧ advance q l = .error e) ∨
    ∃ frames, (lexemes cs).foldlM advance (.within []) = .ok (.within frames) ∧
      e = ⟨.ended (context frames), byteLength cs⟩ := by
  rw [parse_eq] at h
  cases hread : (lexemes cs).foldlM advance (.within []) with
  | error e' =>
      rw [hread] at h
      obtain rfl := Except.error.inj h
      exact .inl (exists_refused hread)
  | ok p =>
      rw [hread] at h
      cases p with
      | within frames => exact .inr ⟨frames, rfl, (Except.error.inj h).symm⟩
      | complete w => exact nomatch h

/-- No head of a call is read as a number without being one: such a head ends in the mark of an
exponent, and white space beyond ASCII follows it. -/
def HeadsSpelled (ms : List Lexeme) : Prop :=
  ms.IsChain fun o l => o.kind = .openParen → l.kind = .int ∨ l.kind = .float → l.Spelled

theorem HeadsSpelled.of_head {outer : List Frame} (h : HeadsSpelled (before ++ l :: after))
    (hbefore : Consumed (.head :: outer) before) (hl : l.kind = .int ∨ l.kind = .float) :
    l.Spelled := by
  cases hbefore with
  | head _ _ hopen =>
      rw [HeadsSpelled, List.append_assoc, List.singleton_append,
        List.isChain_append_cons_cons] at h
      exact h.2.1 hopen hl

/-- No value goes on with the lexeme that is unexpected. -/
theorem exists_unexpected (hlexes : Lexes 0 cs ls rest) (hfollows : Follows (lexemes cs) ls rest)
    (hheads : HeadsSpelled (lexemes cs)) (he : parse cs = .error e)
    (hcode : e.code = .unexpectedToken) :
    ∃ before l after, ls = before ++ l :: after ∧ e.offset = l.offset ∧
      ∀ after' v, ¬ Derives (before ++ l :: after') v := by
  rcases parse_eq_error he with ⟨before, l, after, q, hms, hbefore, hl⟩ | ⟨frames, -, rfl⟩
  · obtain ⟨hoffset, hread⟩ := (faulty_of_advance hl).of_code hcode
    obtain ⟨l', after', rfl, hl'⟩ := hfollows.exists_of_append hms hread
    rcases hl' with rfl | ⟨text, offset, rfl, rfl⟩
    · exact ⟨before, l', after', rfl, hoffset, not_derives_of_refused hbefore hl⟩
    · have hstart : Reached (.within []) [] := Consumed.nil
      have hreached : Reached q before :=
        reached_foldlM hstart (fun l hl => hlexes.spelled l (List.mem_append_left _ hl)) hbefore
      obtain ⟨e', he'⟩ := refused_of_cut hl hcode (by
        rintro outer rfl hnumber
        rw [hms] at hheads
        exact hheads.of_head hreached hnumber)
      exact ⟨before, _, after', rfl, hoffset, not_derives_of_refused hbefore he'⟩
  · exact nomatch hcode

/-- At the end of the text the lexemes are those of some value, less a few. -/
theorem exists_more (hlexes : Lexes 0 cs ls rest) (hfollows : Follows (lexemes cs) ls rest)
    (he : parse cs = .error e) (hcode : e.code = .unexpectedEnd) :
    e.offset = byteLength cs ∧ rest = [] ∧
      ∃ more v, more ≠ [] ∧ (∀ l ∈ more, l.Spelled) ∧ Derives (ls ++ more) v := by
  rcases parse_eq_error he with ⟨before, l, after, q, -, -, hl⟩ | ⟨frames, hread, rfl⟩
  · exact absurd hcode (faulty_of_advance hl).code_ne
  · obtain ⟨heq, hrest⟩ := hfollows.eq_of_readable (readable_of_foldlM hread)
    rw [heq] at hread
    have hstart : Reached (.within []) [] := Consumed.nil
    have hreached : Consumed frames ls := reached_foldlM hstart hlexes.spelled hread
    obtain ⟨more, v, hmore, hv⟩ := hreached.closable
    refine ⟨rfl, hrest, more, v, ?_, hmore, ?_⟩
    · rintro rfl
      exact nomatch hv
    · refine (foldlM_advance_iff ?_).1 ?_
      · exact List.forall_mem_append.2 ⟨hlexes.spelled, hmore⟩
      · rw [foldlM_append_ok hread, hv]

/-- A text divides into lexemes in one way, and the reader keeps to the grammar of the lexemes. -/
theorem parse_keeps (cs : List Char) (hheads : HeadsSpelled (lexemes cs)) :
    ∃ ls rest, (∀ ls' rest', Lexes 0 cs ls' rest' ↔ ls' = ls ∧ rest' = rest) ∧
      KeepsToGrammar cs ls rest := by
  obtain ⟨ls, rest, hlexes, hfrom⟩ := exists_lexes 0 cs
  have hfollows : Follows (lexemes cs) ls rest := hfrom
  refine ⟨ls, rest, ?_, ?_⟩
  · intro ls' rest'
    constructor
    · exact fun h => h.unique hlexes
    · rintro ⟨rfl, rfl⟩
      exact hlexes
  refine ⟨?_, ?_, fun e => exists_unexpected hlexes hfollows hheads,
    fun e => exists_more hlexes hfollows⟩
  · intro v
    rw [parse_eq_ok]
    constructor
    · intro h
      obtain ⟨heq, hrest⟩ := hfollows.eq_of_readable (readable_of_foldlM h)
      rw [heq] at h
      exact ⟨hrest, (foldlM_advance_iff hlexes.spelled).1 h⟩
    · rintro ⟨rfl, hv⟩
      have heq : lexemes cs = ls := hfollows.eq_of_nil
      rw [heq]
      exact (foldlM_advance_iff hlexes.spelled).2 hv
  · intro e he
    rcases parse_eq_error he with ⟨before, l, after, q, hms, -, hl⟩ | ⟨frames, -, rfl⟩
    · have hmem : l ∈ lexemesFrom 0 cs := by
        show l ∈ lexemes cs
        rw [hms]
        exact List.mem_append_right _ List.mem_cons_self
      have hle := lexemesFrom_le hmem
      rw [Nat.zero_add] at hle
      exact Nat.le_trans (faulty_of_advance hl).offset_le hle
    · exact Nat.le_refl _

/-- An open call with a head that only begins like a number, and a key that has no value yet. -/
theorem parse_keeps_open_call :
    HeadsSpelled (lexemes "(1e \x7b:a 1 :a".toList) ∧
      ∃ ls rest, (∀ ls' rest', Lexes 0 "(1e \x7b:a 1 :a".toList ls' rest' ↔
        ls' = ls ∧ rest' = rest) ∧
        KeepsToGrammar "(1e \x7b:a 1 :a".toList ls rest := by
  have hlexemes : lexemes "(1e \x7b:a 1 :a".toList =
      [⟨.openParen, ['('], 0⟩, ⟨.symbol, ['1', 'e'], 1⟩, ⟨.openBrace, ['{'], 4⟩,
        ⟨.keyword, [':', 'a'], 5⟩, ⟨.int, ['1'], 8⟩, ⟨.keyword, [':', 'a'], 10⟩] := by
    decide +kernel
  have hheads : HeadsSpelled (lexemes "(1e \x7b:a 1 :a".toList) := by
    rw [hlexemes, HeadsSpelled]
    simp
  exact ⟨hheads, parse_keeps _ hheads⟩

/-- A number and the mark of an exponent in front of a no-break space are a symbol. -/
theorem lexes_severed : Lexes 0 ['(', '1', 'e', '\u00a0']
    [⟨.openParen, ['('], 0⟩, ⟨.symbol, ['1', 'e'], 1⟩] ['\u00a0'] := by
  have hopen : Longest (.lexeme .openParen) ['('] ['1', 'e', '\u00a0'] :=
    longest_bracket (Rule.owns_of_starts (by decide) (by decide)) rfl
  have hrun : Longest (.lexeme (kindOfRun ['1', 'e'])) ['1', 'e'] ['\u00a0'] := by
    refine longest_run (by decide) ['e', '\u00a0'] ?_
    intro r hr text hmem hinit
    refine (starts_of_begins hmem hinit).resolve_right ?_
    intro hstarts
    rcases Rule.of_starts_of_isBare (by decide) hr hstarts with ⟨-, hc⟩ | ⟨-, hc⟩
    · exact absurd hc (by decide)
    · exact absurd hc (by decide)
  have hstuck : Stuck ['\u00a0'] := stuck_of_ofStart? (by decide) (by decide)
  have hkind : kindOfRun ['1', 'e'] = .symbol := by decide
  rw [hkind] at hrun
  exact .lexeme hopen (.lexeme hrun (.stop _ hstuck))

/-- It is rejected as the head of a call, although a call may have that head. -/
theorem parse_severed_head : ¬ ∃ ls rest,
    (∀ ls' rest', Lexes 0 ['(', '1', 'e', '\u00a0'] ls' rest' ↔ ls' = ls ∧ rest' = rest) ∧
      KeepsToGrammar ['(', '1', 'e', '\u00a0'] ls rest := by
  rintro ⟨ls, rest, hunique, hkeeps⟩
  obtain ⟨rfl, rfl⟩ := (hunique _ _).1 lexes_severed
  have hlexemes : lexemes ['(', '1', 'e', '\u00a0'] =
      [⟨.openParen, ['('], 0⟩, ⟨.int, ['1', 'e'], 1⟩, ⟨.unreadable, ['\u00a0'], 3⟩] := by
    decide +kernel
  have hparse : parse ['(', '1', 'e', '\u00a0'] = .error ⟨.unexpected .int, 1⟩ := by
    rw [parse_eq, hlexemes]
    rfl
  obtain ⟨before, l, after, hls, hoffset, hnot⟩ := hkeeps.unexpected _ hparse rfl
  rcases before with _ | ⟨o, _ | ⟨o', before⟩⟩
  · rw [← (List.cons.inj hls).1] at hoffset
    exact absurd hoffset (by decide)
  · obtain ⟨rfl, htail⟩ := List.cons.inj hls
    obtain ⟨rfl, -⟩ := List.cons.inj htail
    exact hnot [⟨.closeParen, [')'], 0⟩] _ (.call rfl (.bare (.inl rfl)) .nil rfl)
  · exact absurd (List.cons.inj (List.cons.inj hls).2).2 (by simp)

end Manifest.Sexp
