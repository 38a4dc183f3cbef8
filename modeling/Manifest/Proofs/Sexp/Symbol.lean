import Manifest.Proofs.Sexp.LongestMatch
import Manifest.Proofs.Sexp.RoundTrip
import Mathlib.Algebra.BigOperators.Group.List.Basic

/-!
# Symbols that are read back

The writer leaves a symbol bare when the first lexeme of its text is a symbol or a keyword and
reaches to the end. Blanks and comments in front of that lexeme are passed over, so the text of the
symbol may hold more than the lexeme that is read.

* `isOne_iff_longest` — where nothing is passed over, a text is one lexeme when a rule of its kind
  matches it as a whole.
* `parse_bare`, `parse_quoted` — how a symbol, and a call without arguments, is read back.
* `parse_symbol_iff` — they are read back as they were, unless something is passed over in front of
  a lone word.
-/

namespace Manifest.Sexp

open Text (byteLength byteLength_append eq_nil_of_byteLength_append)

variable {kind : Lexeme.Kind} {kinds : List Lexeme.Kind} {front cs word rest text : List Char}
  {c : Char} {offset : Nat} {s : String}

/-! ## What is passed over -/

/-- Blanks, and comments with the line break behind them. -/
inductive Passed : List Char → Prop
  | nil : Passed []
  | blank {c : Char} {front : List Char} : isSeparator c → Passed front → Passed (c :: front)
  | comment {body front : List Char} : '\n' ∉ body → Passed front →
      Passed (';' :: (body ++ '\n' :: front))

/-- The text begins with neither a blank nor a comment. -/
def Plain (cs : List Char) : Prop := ∀ c ∈ cs.head?, isSeparator c = false ∧ c ≠ ';'

/-- A line without its line break, and what begins with the line break. -/
theorem takeWhile_line {body : List Char} (h : '\n' ∉ body) (cs : List Char) :
    (body ++ '\n' :: cs).takeWhile (· ≠ '\n') = body ∧
      (body ++ '\n' :: cs).dropWhile (· ≠ '\n') = '\n' :: cs := by
  have hall : ∀ d ∈ body, decide (d ≠ '\n') := by
    intro d hd
    refine decide_eq_true ?_
    rintro rfl
    exact h hd
  rw [List.takeWhile_append_of_pos hall, List.dropWhile_append_of_pos hall]
  exact ⟨List.append_nil body, rfl⟩

/-- Nothing is passed over at the front of a plain text. -/
theorem Passed.eq_nil (h : Passed front) (hplain : Plain (front ++ cs)) : front = [] := by
  cases h with
  | nil => rfl
  | blank hc => exact Bool.noConfusion (hc.symm.trans (hplain _ rfl).1)
  | comment => exact absurd rfl (hplain _ rfl).2

/-- Lexemes begin behind what is passed over. -/
theorem Passed.lexemesFrom (h : Passed front) :
    lexemesFrom offset (front ++ cs) = Sexp.lexemesFrom (offset + byteLength front) cs := by
  induction h generalizing offset with
  | nil => rfl
  | @blank c front hc _ ih =>
      rw [List.cons_append, lexemesFrom_separator hc, ih, byteLength, utf8Size_of_isSeparator hc,
        Nat.add_assoc]
  | @comment body front hbody _ ih =>
      obtain ⟨htake, hdrop⟩ := takeWhile_line hbody (front ++ cs)
      have hlength : byteLength (';' :: (body ++ '\n' :: front))
          = byteLength (';' :: body) + 1 + byteLength front := by
        rw [← List.cons_append, byteLength_append, Nat.add_assoc]
        rfl
      rw [List.cons_append, List.append_assoc, List.cons_append, lexemesFrom_comment, htake, hdrop,
        lexemesFrom_separator (by decide), ih, hlength, ← Nat.add_assoc, ← Nat.add_assoc]

/-- A text begins with what is passed over; behind it something plain begins, or there is no
lexeme. -/
theorem exists_passed (cs : List Char) : ∃ front rest, cs = front ++ rest ∧ Passed front ∧
    (Plain rest ∨ ∀ offset, lexemesFrom offset rest = []) := by
  induction hn : cs.length using Nat.strong_induction_on generalizing cs with
  | _ n ih =>
  subst hn
  cases cs with
  | nil => exact ⟨[], [], rfl, .nil, .inl fun _ h => nomatch h⟩
  | cons c cs =>
      by_cases hseparator : isSeparator c
      · obtain ⟨front, rest, rfl, hfront, hrest⟩ := ih cs.length (Nat.lt_succ_self _) cs rfl
        exact ⟨c :: front, rest, rfl, .blank hseparator hfront, hrest⟩
      rw [Bool.not_eq_true] at hseparator
      by_cases hcomment : c = ';'
      · subst hcomment
        by_cases hline : '\n' ∈ cs
        · obtain ⟨body, cs, rfl, hbody⟩ := List.eq_append_cons_of_mem hline
          have hshorter : cs.length < (';' :: (body ++ '\n' :: cs)).length := by
            simp only [List.length_cons, List.length_append]
            omega
          obtain ⟨front, rest, rfl, hfront, hrest⟩ := ih cs.length hshorter cs rfl
          exact ⟨';' :: (body ++ '\n' :: front), rest, by simp, .comment hbody hfront, hrest⟩
        -- a comment without a line feed behind it goes on to the end of the text
        · refine ⟨[], ';' :: cs, rfl, .nil, .inr ?_⟩
          intro offset
          have hdrop : cs.dropWhile (· ≠ '\n') = [] := by
            rw [List.dropWhile_eq_nil_iff]
            intro d hd
            refine decide_eq_true ?_
            rintro rfl
            exact hline hd
          rw [lexemesFrom_comment, hdrop, Sexp.lexemesFrom]
      · refine ⟨[], c :: cs, rfl, .nil, .inl ?_⟩
        intro d hd
        rw [← Option.some.inj hd]
        exact ⟨hseparator, hcomment⟩

/-! ## Lone words -/

/-- The whole text is a symbol or a keyword. -/
def Word (cs : List Char) : Prop :=
  ∃ kind ∈ [Lexeme.Kind.symbol, .keyword], Longest (.lexeme kind) cs []

/-- Where nothing is passed over, a text is one lexeme when a rule matches it as a whole. -/
theorem isOne_iff_longest (hkinds : .unreadable ∉ kinds) (hplain : Plain cs) :
    isOne kinds cs ↔ ∃ kind ∈ kinds, Longest (.lexeme kind) cs [] := by
  cases cs with
  | nil =>
      rw [isOne, lexemes, Sexp.lexemesFrom]
      refine iff_of_false Bool.false_ne_true ?_
      rintro ⟨_, -, h⟩
      exact h.ne_nil rfl
  | cons c cs =>
      obtain ⟨hseparator, hcomment⟩ := hplain c rfl
      obtain ⟨kind, text, hat⟩ : ∃ kind text, lexemeAt c cs = (kind, text) := ⟨_, _, rfl⟩
      have hone : isOne kinds (c :: cs) ↔ kind ∈ kinds ∧ byteLength (c :: cs) =
          byteLength text := by
        rw [isOne, lexemes, lexemesFrom_of_ne hseparator hcomment hat, Bool.and_eq_true,
          List.contains_iff_mem, beq_iff_eq, Nat.zero_add, eq_comm (a := byteLength text)]
      rw [hone]
      -- the first token is the longest match, and one token is left only if nothing follows it
      cases begins cs hseparator hcomment with
      | lexeme hat' _ hwhole hlongest =>
          obtain ⟨rfl, rfl⟩ := Prod.mk.inj (hat.symm.trans hat')
          constructor
          · rintro ⟨hkind, hlength⟩
            rw [hwhole] at hlength
            obtain rfl := eq_nil_of_byteLength_append text hlength
            rw [List.append_nil] at hwhole
            exact ⟨kind, hkind, hwhole ▸ hlongest⟩
          · rintro ⟨kind', hkind, hlongest'⟩
            rw [← List.append_nil (c :: cs)] at hwhole
            obtain ⟨hrule, htext, -⟩ := hlongest'.unique hlongest hwhole
            exact ⟨Rule.lexeme.inj hrule ▸ hkind, congrArg byteLength htext⟩
      | stuck hat' hstuck =>
          obtain ⟨rfl, rfl⟩ := Prod.mk.inj (hat.symm.trans hat')
          refine iff_of_false (fun h => hkinds h.1) ?_
          rintro ⟨kind, -, hlongest⟩
          rw [← List.append_nil (c :: cs)] at hstuck
          exact hstuck.not_longest hlongest
      | unclosed hat' hlongest _ hne =>
          obtain ⟨rfl, rfl⟩ := Prod.mk.inj (hat.symm.trans hat')
          refine iff_of_false (fun h => hkinds h.1) ?_
          rintro ⟨kind, -, hlongest'⟩
          obtain ⟨-, -, hnil⟩ := hlongest'.unique hlongest (List.append_nil (c :: cs))
          exact hne hnil.symm
      | @cut d text rest hat' _ hwhole hlongest =>
          obtain ⟨rfl, rfl⟩ := Prod.mk.inj (hat.symm.trans hat')
          constructor
          · rintro ⟨-, hlength⟩
            rw [hwhole] at hlength
            exact absurd (eq_nil_of_byteLength_append text hlength) (List.cons_ne_nil d rest)
          · rintro ⟨kind, -, hlongest'⟩
            rw [← List.append_nil (c :: cs)] at hwhole
            obtain ⟨-, -, hnil⟩ := hlongest'.unique hlongest hwhole
            exact absurd hnil.symm (List.cons_ne_nil d rest)

/-- Words are plain. -/
theorem Word.plain (h : Word cs) : Plain cs := by
  obtain ⟨kind, hkind, hlongest⟩ := h
  have hrun : (Rule.lexeme kind).isRun := by
    rcases List.mem_pair.1 hkind with rfl | rfl <;> rfl
  obtain ⟨-, hbare⟩ := mem_runPattern.1 (mem_runPattern_of_isRun hrun hlongest.mem)
  intro c hc
  have hbare : isBare c := hbare c (List.mem_of_mem_head? hc)
  constructor
  · cases hseparator : isSeparator c with
    | false => rfl
    | true => exact Bool.noConfusion (hbare.symm.trans (not_isBare_of_isSeparator hseparator))
  · rintro rfl
    exact absurd hbare (by decide)

/-- What is passed over does not count for a text that is one lexeme. -/
theorem Passed.isOne (hfront : Passed front) (hplain : Plain cs) :
    isOne kinds (front ++ cs) = Sexp.isOne kinds cs := by
  rw [Sexp.isOne, Sexp.isOne, lexemes, lexemes, hfront.lexemesFrom, byteLength_append]
  cases cs with
  | nil => rw [Sexp.lexemesFrom, Sexp.lexemesFrom]
  | cons c cs =>
      obtain ⟨hseparator, hcomment⟩ := hplain c rfl
      obtain ⟨kind, text, hat⟩ : ∃ kind text, lexemeAt c cs = (kind, text) := ⟨_, _, rfl⟩
      rw [lexemesFrom_of_ne hseparator hcomment hat, lexemesFrom_of_ne hseparator hcomment hat]
      refine congrArg (kinds.contains kind && ·) (Bool.eq_iff_iff.2 ?_)
      rw [beq_iff_eq, beq_iff_eq, Nat.zero_add, Nat.zero_add, Nat.add_left_cancel_iff]

/-- A symbol is left bare when it is a lone word, something passed over in front of it or not. -/
theorem isOne_iff_word (cs : List Char) :
    isOne [.symbol, .keyword] cs ↔ ∃ front word, Passed front ∧ Word word ∧ cs = front ++ word := by
  have hword : ∀ {cs}, Plain cs → (isOne [.symbol, .keyword] cs ↔ Word cs) :=
    isOne_iff_longest (by decide)
  constructor
  · intro h
    obtain ⟨front, rest, rfl, hfront, hplain | hnone⟩ := exists_passed cs
    · rw [hfront.isOne hplain, hword hplain] at h
      exact ⟨front, rest, hfront, h, rfl⟩
    · rw [isOne, lexemes, hfront.lexemesFrom, hnone] at h
      exact absurd h Bool.false_ne_true
  · rintro ⟨front, word, hfront, hw, rfl⟩
    rw [hfront.isOne hw.plain, hword hw.plain]
    exact hw

/-! ## Reading a symbol -/

/-- In front of anything that may follow a value, the first lexeme of the text is a symbol, and it
reaches to the end of the text. -/
def ReadsSymbol (s : String) (cs : List Char) : Prop :=
  ∀ offset rest, Ends rest → ∃ l, symbolText? l = some (.ok s) ∧
    lexemesFrom offset (cs ++ rest) = l :: lexemesFrom (offset + byteLength cs) rest

/-- What reads as a symbol parses as it. -/
theorem ReadsSymbol.parse (h : ReadsSymbol s cs) : parse cs = .ok (.sym s) := by
  obtain ⟨l, hsymbol, hlexemes⟩ := h 0 [] ends_nil
  rw [List.append_nil] at hlexemes
  have htake : take [] l = .ok (.complete (.sym s)) :=
    take_scalar trivial (scalar_of_symbolText? hsymbol)
  rw [Sexp.parse, lexemes, hlexemes, readFrom_cons htake, Sexp.lexemesFrom]
  rfl

/-- Between parentheses it is the head of a call. -/
theorem ReadsSymbol.parse_call (h : ReadsSymbol s cs) :
    Sexp.parse ('(' :: (cs ++ [')'])) = .ok (.call s []) := by
  obtain ⟨l, hsymbol, hlexemes⟩ := h (0 + 1) [')'] (ends_cons (by decide))
  have htake : take [.head] l = .ok (.within [.call s []]) := by
    simp only [take, hsymbol]
    rfl
  have haccepts : Accepts [] := trivial
  rw [Sexp.parse, lexemes, Opens.call.readFrom haccepts, hlexemes, readFrom_cons htake]
  show readFrom _ [.call s []] _ = _
  rw [(Closes.call s []).readFrom, Sexp.lexemesFrom]
  rfl

/-- A lone word is read as itself, without what is passed over. -/
theorem Word.readsSymbol (hword : Word word) (hfront : Passed front) :
    ReadsSymbol (String.ofList word) (front ++ word) := by
  have hone : isOne [.symbol, .keyword] word := (isOne_iff_longest (by decide) hword.plain).2 hword
  obtain ⟨kind, hkind, hspells⟩ := spells_of_isOne (fun _ h => h) hword.plain hone
  intro offset rest hrest
  refine ⟨⟨kind, word, offset + byteLength front⟩, ?_, ?_⟩
  · rcases List.mem_pair.1 hkind with rfl | rfl <;> rfl
  · rw [List.append_assoc, hfront.lexemesFrom, hspells.lexemesFrom hrest, byteLength_append,
      Nat.add_assoc]

/-- A text in quotes is read as it was. -/
theorem readsSymbol_quoted (s : String) : ReadsSymbol s ('#' :: renderQuoted s) := by
  have hspells : Spells .quotedSymbol ('#' :: renderQuoted s) := spells_quoted ['#'] s rfl
  intro offset rest hrest
  exact ⟨⟨.quotedSymbol, '#' :: renderQuoted s, offset⟩,
    congrArg some (quotedText_renderQuoted ['#'] s rfl), hspells.lexemesFrom hrest⟩

/-- Each character is written with one at least. -/
theorem one_le_length_escapeChar (c : Char) : 1 ≤ (escapeChar c).length := by
  unfold escapeChar
  split
  case h_6 =>
    split
    · exact Nat.le_add_left 1 _
    · exact Nat.le_refl 1
  all_goals exact Nat.le_add_left 1 1

/-- A text in quotes is longer than the text. -/
theorem quoted_ne (s : String) : '#' :: renderQuoted s ≠ s.toList := by
  intro h
  have hescape : ∀ n ∈ s.toList.map fun c => (escapeChar c).length, 1 ≤ n := by
    intro n hn
    obtain ⟨c, -, rfl⟩ := List.mem_map.1 hn
    exact one_le_length_escapeChar c
  have hle : s.toList.length ≤ (s.toList.flatMap escapeChar).length := by
    rw [List.length_flatMap]
    exact List.length_map (fun c => (escapeChar c).length) ▸ List.length_le_sum_of_one_le _ hescape
  have hlength := congrArg List.length h
  simp only [renderQuoted, List.length_cons, List.length_append, List.length_nil] at hlength
  omega

/-- Nothing is passed over in front of a lone word. -/
def Stays (s : String) : Prop :=
  ∀ front word, Passed front → Word word → s.toList = front ++ word → front = []

/-- A symbol is written bare when it is a lone word behind anything that is passed over, and is read
back as that word. Otherwise it is written in quotes and read back as it was. -/
theorem renderSymbol_cases (s : String) :
    (∃ front word, Passed front ∧ Word word ∧ s.toList = front ++ word ∧
      renderSymbol s = s.toList ∧ ReadsSymbol (String.ofList word) (renderSymbol s)) ∨
    ((∀ front word, Passed front → Word word → s.toList ≠ front ++ word) ∧
      renderSymbol s ≠ s.toList ∧ ReadsSymbol s (renderSymbol s)) := by
  unfold renderSymbol
  split
  next hone =>
    obtain ⟨front, word, hfront, hword, heq⟩ := (isOne_iff_word s.toList).1 hone
    exact .inl ⟨front, word, hfront, hword, heq, rfl, heq ▸ hword.readsSymbol hfront⟩
  next hone =>
    refine .inr ⟨?_, quoted_ne s, readsSymbol_quoted s⟩
    intro front word hfront hword heq
    exact hone ((isOne_iff_word s.toList).2 ⟨front, word, hfront, hword, heq⟩)

/-- What is passed over in front of a lone word is lost. -/
theorem ofList_eq_iff_stays (hfront : Passed front) (hword : Word word)
    (h : s.toList = front ++ word) : String.ofList word = s ↔ Stays s := by
  constructor
  · rintro rfl front' word' hfront' hword' heq
    rw [String.toList_ofList] at heq
    exact hfront'.eq_nil (heq ▸ hword.plain)
  · intro hstays
    obtain rfl := hstays front word hfront hword h
    rw [List.nil_append] at h
    rw [← h, String.ofList_toList]

/-- A symbol, and a call without arguments, is read back as it was unless something is passed over
in front of a lone word; and a symbol is left bare just when it is a lone word, behind what is
passed over. -/
theorem parse_symbol_iff (s : String) :
    (parse (render (.sym s)) = .ok (.sym s) ↔ Stays s) ∧
    (parse (render (.call s [])) = .ok (.call s []) ↔ Stays s) ∧
    (render (.sym s) = s.toList ↔
      ∃ front word, Passed front ∧ Word word ∧ s.toList = front ++ word) := by
  have hcall : render (.call s []) = '(' :: (renderSymbol s ++ [')']) := by
    rw [render, renderItems, List.append_nil]
    rfl
  rw [hcall, show render (.sym s) = renderSymbol s from rfl]
  rcases renderSymbol_cases s with
    ⟨front, word, hfront, hword, heq, hbare, hreads⟩ | ⟨hnone, hquoted, hreads⟩
  · rw [hreads.parse, hreads.parse_call, ← ofList_eq_iff_stays hfront hword heq]
    simp only [Except.ok.injEq, Sexp.sym.injEq, Sexp.call.injEq, and_true, true_and]
    exact ⟨fun _ => ⟨front, word, hfront, hword, heq⟩, fun _ => hbare⟩
  · have hstays : Stays s := fun front word hfront hword heq =>
      absurd heq (hnone front word hfront hword)
    refine ⟨iff_of_true hreads.parse hstays, iff_of_true hreads.parse_call hstays, ?_⟩
    refine iff_of_false hquoted ?_
    rintro ⟨front, word, hfront, hword, heq⟩
    exact hnone front word hfront hword heq

/-- A blank in front of a word is lost. -/
theorem parse_symbol_blank :
    parse (render (.sym " a")) ≠ .ok (.sym " a") ∧
      parse (render (.call " a" [])) ≠ .ok (.call " a" []) := by
  have hrender : renderSymbol " a" = [' ', 'a'] := by decide +kernel
  have hsymbol : parse [' ', 'a'] = .ok (.sym "a") := by
    have hlexemes : lexemes [' ', 'a'] = [⟨.symbol, ['a'], 1⟩] := by decide +kernel
    rw [parse, hlexemes]
    rfl
  have hcall : parse ['(', ' ', 'a', ')'] = .ok (.call "a" []) := by
    have hlexemes : lexemes ['(', ' ', 'a', ')']
        = [⟨.openParen, ['('], 0⟩, ⟨.symbol, ['a'], 2⟩, ⟨.closeParen, [')'], 3⟩] := by
      decide +kernel
    rw [parse, hlexemes]
    rfl
  have hne : "a" ≠ " a" := by decide
  rw [render, render, renderItems, hrender]
  constructor
  · intro h
    exact hne (Sexp.sym.inj (Except.ok.inj (hsymbol.symm.trans h)))
  · intro h
    exact hne (Sexp.call.inj (Except.ok.inj (hcall.symm.trans h))).1

end Manifest.Sexp
