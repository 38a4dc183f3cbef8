import Manifest.Proofs.Sexp.Rules

/-!
# Lexemes are longest matches

A text divides into lexemes by the rules: at each place the rule that matches the most is taken,
and of two that match as much the one of the higher rank. The division ends with the text, or at
a place where no rule matches.

* `Longest`, `Lexes` — the division; `Lexes.unique` — there is at most one.
* `exists_lexes` — there is one for every text, and the lexemes that are read follow it up to the
  first unreadable one. Only the kind of a run in front of white space beyond ASCII may differ.
-/

namespace Manifest.Sexp

open Text (byteLength)
open Token (one mem_one_mul mem_star_one)

variable {r r' : Rule} {cs ds rest text : List Char} {c : Char} {kind : Lexeme.Kind}
  {ls ls' ms : List Lexeme} {l : Lexeme} {offset : Nat}

/-! ## The division of a text -/

/-- Of all that the rules match at the front of a text, this is the longest, and no other rule that
matches it has the rank of this one. -/
structure Longest (r : Rule) (text rest : List Char) : Prop where
  ne_nil : text ≠ []
  mem : text ∈ r.pattern
  longest : ∀ r' : Rule, ∀ text' ∈ r'.pattern, text' <+: text ++ rest → text'.length ≤ text.length
  first : ∀ r' : Rule, r' ≠ r → text ∈ r'.pattern → r'.rank < r.rank

/-- No rule matches anything at the front of the text. -/
def Stuck (cs : List Char) : Prop := ∀ r : Rule, ∀ text ∈ r.pattern, text <+: cs → text = []

/-- The lexemes of a text that begins at an offset, and what is left where no rule matches. -/
inductive Lexes : Nat → List Char → List Lexeme → List Char → Prop
  | stop (offset : Nat) {rest : List Char} : Stuck rest → Lexes offset rest [] rest
  | skip {r : Rule} {offset : Nat} {text cs rest : List Char} {ls : List Lexeme} :
      r = .blanks ∨ r = .comment → Longest r text cs → Lexes (offset + byteLength text) cs ls rest →
      Lexes offset (text ++ cs) ls rest
  | lexeme {kind : Lexeme.Kind} {offset : Nat} {text cs rest : List Char} {ls : List Lexeme} :
      Longest (.lexeme kind) text cs → Lexes (offset + byteLength text) cs ls rest →
      Lexes offset (text ++ cs) (⟨kind, text, offset⟩ :: ls) rest

/-- The longest match is the only one. -/
theorem Longest.unique (h : Longest r text rest) (h' : Longest r' ds cs)
    (heq : text ++ rest = ds ++ cs) : r = r' ∧ text = ds ∧ rest = cs := by
  have hlength : text.length = ds.length := by
    refine Nat.le_antisymm (h'.longest r text h.mem ?_) (h.longest r' ds h'.mem ?_)
    · exact heq ▸ List.prefix_append _ _
    · exact heq ▸ List.prefix_append _ _
  obtain ⟨rfl, rfl⟩ := List.append_inj heq hlength
  refine ⟨?_, rfl, rfl⟩
  by_contra hne
  exact Nat.lt_asymm (h.first r' (Ne.symm hne) h'.mem) (h'.first r hne h.mem)

/-- Where the text is stuck no rule matches. -/
theorem Stuck.not_longest (h : Stuck (text ++ rest)) : ¬ Longest r text rest :=
  fun hlongest => hlongest.ne_nil (h r text hlongest.mem (List.prefix_append _ _))

/-- A text divides into lexemes in one way. -/
theorem Lexes.unique (h : Lexes offset cs ls rest) (h' : Lexes offset cs ls' ds) :
    ls = ls' ∧ rest = ds := by
  induction h generalizing ls' ds with
  | stop _ hstuck =>
      cases h' with
      | stop => exact ⟨rfl, rfl⟩
      | skip _ hlongest => exact absurd hlongest hstuck.not_longest
      | lexeme hlongest => exact absurd hlongest hstuck.not_longest
  | @skip r offset text cs ls rest hr hlongest _ ih =>
      generalize heq : text ++ cs = whole at h'
      cases h' with
      | stop _ hstuck => exact absurd hlongest (heq ▸ hstuck).not_longest
      | skip _ hlongest' hcs =>
          obtain ⟨rfl, rfl, rfl⟩ := hlongest.unique hlongest' heq
          exact ih hcs
      | lexeme hlongest' =>
          obtain ⟨rfl, -, -⟩ := hlongest.unique hlongest' heq
          exact absurd hr (by simp)
  | @lexeme kind offset text cs ls rest hlongest _ ih =>
      generalize heq : text ++ cs = whole at h'
      cases h' with
      | stop _ hstuck => exact absurd hlongest (heq ▸ hstuck).not_longest
      | skip hr hlongest' =>
          obtain ⟨rfl, -, -⟩ := hlongest.unique hlongest' heq
          exact absurd hr (by simp)
      | lexeme hlongest' hcs =>
          obtain ⟨hrule, rfl, rfl⟩ := hlongest.unique hlongest' heq
          obtain rfl := Rule.lexeme.inj hrule
          obtain ⟨rfl, rfl⟩ := ih hcs
          exact ⟨rfl, rfl⟩

/-! ## Matches at a character -/

/-- What matches something at the front of a text begins with its first character. -/
theorem starts_of_begins {text : List Char} (hmem : text ∈ r.pattern) (h : text <+: c :: cs) :
    text = [] ∨ r.starts c := by
  cases text with
  | nil => exact .inl rfl
  | cons d ds =>
      obtain ⟨rfl, -⟩ := List.cons_prefix_cons.1 h
      exact .inr (Rule.starts_of_mem hmem)

/-- The text is stuck where no rule can start. -/
theorem stuck_of_starts (h : ∀ r : Rule, r.starts c = false) : Stuck (c :: cs) := by
  intro r text hmem hinit
  refine (starts_of_begins hmem hinit).resolve_right ?_
  rw [h r]
  exact Bool.false_ne_true

/-- Characters of a class at the front are among those that are taken while they last. -/
theorem prefix_takeWhile {p : Char → Bool} (h : ds <+: cs) (hall : ∀ d ∈ ds, p d) :
    ds <+: cs.takeWhile p := by
  obtain ⟨es, rfl⟩ := h
  rw [List.takeWhile_append_of_pos hall]
  exact List.prefix_append _ _

/-- A rule is the only one whose texts begin with the character. -/
def Rule.Owns (r : Rule) (c : Char) : Prop := ∀ r' : Rule, r'.starts c → r' = r

/-- The longest text of a rule that alone begins with a character. -/
theorem Rule.Owns.longest (hown : r.Owns c) (hmem : c :: ds ∈ r.pattern)
    (hlongest : ∀ text ∈ r.pattern, text <+: c :: ds ++ rest → text.length ≤ ds.length + 1) :
    Longest r (c :: ds) rest where
  ne_nil := List.cons_ne_nil c ds
  mem := hmem
  longest := by
    intro r' text hmem' hinit
    rcases starts_of_begins hmem' hinit with rfl | hstarts
    · exact Nat.zero_le _
    · obtain rfl := hown r' hstarts
      exact hlongest text hmem' hinit
  first := fun r' hne hmem' => absurd (hown r' (Rule.starts_of_mem hmem')) hne

/-- A character of a class and all that follow it of another are the longest match of a rule that
alone begins with that character. -/
theorem Rule.Owns.longest_star {p q : Char → Bool} (hown : r.Owns c)
    (hpattern : r.pattern = one p * KStar.kstar (one q)) (hc : p c) (cs : List Char) :
    Longest r (c :: cs.takeWhile q) (cs.dropWhile q) := by
  refine hown.longest ?_ ?_
  · rw [hpattern]
    exact mem_one_mul.2 ⟨c, _, rfl, hc, mem_star_one.2 fun d hd => List.mem_takeWhile_imp hd⟩
  · intro text hmem hinit
    rw [hpattern] at hmem
    obtain ⟨d, ds, rfl, -, hds⟩ := mem_one_mul.1 hmem
    rw [List.cons_append, List.takeWhile_append_dropWhile] at hinit
    obtain ⟨-, hinit⟩ := List.cons_prefix_cons.1 hinit
    exact Nat.succ_le_succ (prefix_takeWhile hinit (mem_star_one.1 hds)).length_le

/-! ## Blanks and comments -/

/-- The rule whose texts begin with a character that belongs to no run. -/
def Rule.ofStart? (c : Char) : Option Rule :=
  if isSeparator c then some .blanks
  else match c with
    | ';' => some .comment
    | '(' => some (.lexeme .openParen)
    | ')' => some (.lexeme .closeParen)
    | '[' => some (.lexeme .openBracket)
    | ']' => some (.lexeme .closeBracket)
    | '{' => some (.lexeme .openBrace)
    | '}' => some (.lexeme .closeBrace)
    | '"' => some (.lexeme .string)
    | _ => none

/-- Outside of runs the first character tells the rule. -/
theorem Rule.ofStart?_eq_some (hc : isBare c = false) (h : r.starts c) :
    Rule.ofStart? c = some r := by
  have hbare : ∀ d, isBare d → c ≠ d := by
    rintro d hd rfl
    exact Bool.noConfusion (hc.symm.trans hd)
  cases r with
  | blanks => exact if_pos h
  | comment =>
      obtain rfl := of_decide_eq_true h
      decide
  | lexeme kind =>
    cases kind with
    | quotedSymbol => exact absurd (of_decide_eq_true h) (hbare '#' (by decide))
    | quotedKeyword => exact absurd (of_decide_eq_true h) (hbare ':' (by decide))
    | unreadable => exact absurd h Bool.false_ne_true
    | float | int | bool | nil | keyword | symbol => exact absurd rfl (hbare c h)
    | _ =>
        obtain rfl := of_decide_eq_true h
        decide

/-- The four characters that separate. -/
theorem mem_of_isSeparator (h : isSeparator c) : c ∈ [' ', '\t', '\r', '\n'] := by
  simp only [isSeparator, Bool.or_eq_true, decide_eq_true_eq] at h
  rcases h with ((rfl | rfl) | rfl) | rfl
  all_goals decide

/-- No separator is bare. -/
theorem not_isBare_of_isSeparator (h : isSeparator c) : isBare c = false := by
  have hnone : [' ', '\t', '\r', '\n'].all (!isBare ·) := by decide
  exact (Bool.not_eq_true' _).mp (List.all_eq_true.1 hnone c (mem_of_isSeparator h))

theorem lt_of_isSeparator (h : isSeparator c) : c.toNat < 128 := by
  have hall : [' ', '\t', '\r', '\n'].all (·.toNat < 128) := by decide
  exact of_decide_eq_true (List.all_eq_true.1 hall c (mem_of_isSeparator h))

/-- A separator takes one byte. -/
theorem utf8Size_of_isSeparator (h : isSeparator c) : c.utf8Size = 1 := by
  have hall : [' ', '\t', '\r', '\n'].all (·.utf8Size = 1) := by decide
  exact of_decide_eq_true (List.all_eq_true.1 hall c (mem_of_isSeparator h))

/-- Every rule but those for runs begins with characters of its own. -/
theorem Rule.owns_of_starts (hc : isBare c = false) (h : r.starts c) : r.Owns c :=
  fun _ h' => Option.some.inj ((ofStart?_eq_some hc h').symm.trans (ofStart?_eq_some hc h))

/-- The text is stuck where the first character tells no rule. -/
theorem stuck_of_ofStart? (hc : isBare c = false) (h : Rule.ofStart? c = none) :
    Stuck (c :: cs) := by
  refine stuck_of_starts fun r => Bool.eq_false_iff.2 ?_
  intro hstarts
  exact nomatch h.symm.trans (Rule.ofStart?_eq_some hc hstarts)

/-- Separators are skipped. -/
theorem lexemesFrom_blanks (h : ∀ c ∈ cs, isSeparator c) :
    lexemesFrom offset (cs ++ rest) = lexemesFrom (offset + byteLength cs) rest := by
  induction cs generalizing offset with
  | nil => rfl
  | cons c cs ih =>
      obtain ⟨hc, hcs⟩ := List.forall_mem_cons.1 h
      rw [List.cons_append, lexemesFrom_separator hc, ih hcs, byteLength,
        utf8Size_of_isSeparator hc, Nat.add_assoc]

theorem drop_length_takeWhile (p : Char → Bool) (cs : List Char) :
    cs.drop (cs.takeWhile p).length = cs.dropWhile p := by
  have hdrop : cs.takeWhile p ++ cs.drop (cs.takeWhile p).length = cs :=
    List.prefix_iff_eq_append.1 (List.takeWhile_prefix p)
  exact List.append_cancel_left (hdrop.trans List.takeWhile_append_dropWhile.symm)

/-- A comment is skipped, up to the end of its line. -/
theorem lexemesFrom_comment :
    lexemesFrom offset (';' :: cs) = lexemesFrom
      (offset + byteLength (';' :: cs.takeWhile (· ≠ '\n'))) (cs.dropWhile (· ≠ '\n')) := by
  rw [lexemesFrom, if_neg (by decide), if_pos rfl, byteLength, ← Nat.add_assoc]
  exact congrArg _ (drop_length_takeWhile _ cs)

/-! ## Lexemes -/

/-- A lexeme that is a single character is the longest match. -/
theorem longest_bracket (hown : (Rule.lexeme kind).Owns c)
    (hpattern : (Rule.lexeme kind).pattern = {[c]}) : Longest (.lexeme kind) [c] cs := by
  refine hown.longest (by rw [hpattern]; rfl) ?_
  intro text hmem _
  rw [hpattern] at hmem
  rw [Set.mem_singleton_iff.1 hmem]
  exact Nat.le_refl 1

/-- A text in quotes is the longest match, unless something else that opens like it is longer. -/
theorem longest_quoted {opening body : List Char}
    (hpattern : (Rule.lexeme kind).pattern = quotedPattern opening)
    (hbody : quotedBody (body ++ '"' :: rest) = (body, true))
    (hother : ∀ r' : Rule, r' ≠ .lexeme kind → ∀ text ∈ r'.pattern,
      text <+: opening ++ (body ++ '"' :: rest) → text.length ≤ opening.length) :
    Longest (.lexeme kind) (opening ++ (body ++ ['"'])) rest := by
  have hlength : opening.length < (opening ++ (body ++ ['"'])).length := by simp
  have hwhole : opening ++ (body ++ ['"']) ++ rest = opening ++ (body ++ '"' :: rest) := by simp
  have hmem : opening ++ (body ++ ['"']) ∈ (Rule.lexeme kind).pattern := by
    rw [hpattern]
    exact mem_quotedPattern.2 ⟨body, (mem_of_quotedBody hbody).1, rfl⟩
  refine ⟨by simp, hmem, ?_, ?_⟩
  · intro r' text hmem' hinit
    rw [hwhole] at hinit
    by_cases hr : r' = .lexeme kind
    · rw [hr, hpattern] at hmem'
      obtain ⟨body', hbody', rfl⟩ := mem_quotedPattern_begins hmem' hinit
      rw [(Prod.mk.inj (hbody'.symm.trans hbody)).1]
    · exact Nat.le_trans (hother r' hr text hmem' hinit) (Nat.le_of_lt hlength)
  · intro r' hr hmem'
    exact absurd (hother r' hr _ hmem' (hwhole ▸ List.prefix_append _ _)) (Nat.not_le_of_gt hlength)

/-- A run is the longest match where no text in quotes opens. -/
theorem longest_run (hc : isBare c) (cs : List Char)
    (hother : ∀ r' : Rule, r'.isRun = false → ∀ text ∈ r'.pattern, text <+: c :: cs → text = []) :
    Longest (.lexeme (kindOfRun (c :: cs.takeWhile isBare))) (c :: cs.takeWhile isBare)
      (cs.dropWhile isBare) := by
  have hwhole : c :: cs.takeWhile isBare ++ cs.dropWhile isBare = c :: cs := by
    rw [List.cons_append, List.takeWhile_append_dropWhile]
  have hrun : c :: cs.takeWhile isBare ∈ runPattern :=
    mem_one_mul.2 ⟨c, _, rfl, hc, mem_star_one.2 fun d hd => List.mem_takeWhile_imp hd⟩
  refine ⟨List.cons_ne_nil _ _, mem_kindOfRun hrun, ?_, ?_⟩
  · intro r' text hmem hinit
    rw [hwhole] at hinit
    cases hr : r'.isRun with
    | false =>
        rw [hother r' hr text hmem hinit]
        exact Nat.zero_le _
    | true =>
        obtain ⟨-, hall⟩ := mem_runPattern.1 (mem_runPattern_of_isRun hr hmem)
        have hlonger := (prefix_takeWhile hinit hall).length_le
        rwa [List.takeWhile_cons_of_pos hc] at hlonger
  · intro r' hne hmem
    cases hr : r'.isRun with
    | false =>
        have hnil := hother r' hr _ hmem (hwhole ▸ List.prefix_append _ _)
        exact absurd hnil (List.cons_ne_nil _ _)
    | true => exact rank_lt_kindOfRun hr hmem hne

/-! ## What is read -/

/-- How the lexemes that are read go with the division of the text: they are the same, up to the
first unreadable one, and but for the kind of a run in front of it. -/
inductive Follows : List Lexeme → List Lexeme → List Char → Prop
  | nil : Follows [] [] []
  | cons (l : Lexeme) {ms ls : List Lexeme} {rest : List Char} :
      Follows ms ls rest → Follows (l :: ms) (l :: ls) rest
  | unreadable {l : Lexeme} {ls : List Lexeme} {rest : List Char} :
      l.kind = .unreadable → rest ≠ [] → Follows [l] ls rest
  | cut {text rest : List Char} {offset : Nat} {l : Lexeme} :
      l.kind = .unreadable → rest ≠ [] →
      Follows [⟨kindOfCutRun text, text, offset⟩, l] [⟨kindOfRun text, text, offset⟩] rest

/-- What is read at a character that begins neither blanks nor a comment. -/
inductive Begins (c : Char) (cs : List Char) : Prop
  | lexeme {kind : Lexeme.Kind} {text rest : List Char} :
      lexemeAt c cs = (kind, text) → kind ≠ .unreadable → c :: cs = text ++ rest →
      Longest (.lexeme kind) text rest → Begins c cs
  | stuck {text : List Char} : lexemeAt c cs = (.unreadable, text) → Stuck (c :: cs) → Begins c cs
  | unclosed {text : List Char} :
      lexemeAt c cs = (.unreadable, text) → Longest (.lexeme .symbol) [c] cs → Stuck cs → cs ≠ [] →
      Begins c cs
  | cut {d : Char} {text rest : List Char} : lexemeAt c cs = (kindOfCutRun text, text) →
      isCut (d :: rest) → c :: cs = text ++ d :: rest →
      Longest (.lexeme (kindOfRun text)) text (d :: rest) → Begins c cs

/-- What cuts a run is not bare. -/
theorem not_isBare_of_isCut (h : isCut (c :: cs)) : isBare c = false := by
  rw [isBare, (Bool.and_eq_true_iff.1 h).2]
  rfl

/-- White space that cuts a run off is none of the characters of ASCII. -/
theorem ne_of_isCut {d : Char} (h : isCut (c :: cs)) (hd : d.toNat < 128) : c ≠ d := by
  rintro rfl
  exact Nat.not_lt_of_ge (of_decide_eq_true (Bool.and_eq_true_iff.1 h).1) hd

/-- What cuts a run does not separate. -/
theorem not_isSeparator_of_isCut (h : isCut (c :: cs)) : isSeparator c = false := by
  rw [Bool.eq_false_iff]
  intro hc
  exact ne_of_isCut h (lt_of_isSeparator hc) rfl

/-- No lexeme starts with what cuts a run. -/
theorem ofStart?_of_isCut (h : isCut (c :: cs)) : Rule.ofStart? c = none := by
  rw [Rule.ofStart?, not_isSeparator_of_isCut h, if_neg Bool.false_ne_true]
  all_goals exact ne_of_isCut h (by decide)

/-- What begins nothing is unreadable. -/
theorem lexemeAt_of_ofStart? (hbare : isBare c = false) (h : Rule.ofStart? c = none) :
    lexemeAt c cs = (.unreadable, [c]) := by
  unfold lexemeAt
  split
  all_goals first
    | exact absurd h (by decide)
    | exact absurd hbare (by decide)
    | rw [if_neg (by rw [hbare]; exact Bool.false_ne_true)]

/-- A quote that nothing closes begins nothing. -/
theorem stuck_of_unclosed {body : List Char} (h : quotedBody cs = (body, false)) :
    Stuck ('"' :: cs) := by
  intro r text hmem hinit
  refine (starts_of_begins hmem hinit).resolve_right ?_
  intro hstarts
  have hstring : r = .lexeme .string :=
    Rule.owns_of_starts (r := .lexeme .string) (by decide) (by decide) r hstarts
  rw [hstring] at hmem
  obtain ⟨body', hbody, -⟩ := mem_quotedPattern_begins hmem hinit
  exact Bool.noConfusion (Prod.mk.inj (h.symm.trans hbody)).2

/-- A quote begins a string or leaves the text stuck. -/
theorem begins_string : Begins '"' cs := by
  have hat : lexemeAt '"' cs = quoted .string ['"'] cs := rfl
  obtain ⟨body, closed, hbody⟩ : ∃ body closed, quotedBody cs = (body, closed) := ⟨_, _, rfl⟩
  rw [quoted, hbody] at hat
  cases closed with
  | false => exact .stuck hat (stuck_of_unclosed hbody)
  | true =>
      obtain ⟨-, rest, rfl⟩ := mem_of_quotedBody hbody
      have hown : (Rule.lexeme .string).Owns '"' := Rule.owns_of_starts (by decide) (by decide)
      have hlongest : Longest (.lexeme .string) (['"'] ++ (body ++ ['"'])) rest := by
        refine longest_quoted rfl hbody ?_
        intro r' hne text hmem hinit
        rcases starts_of_begins hmem hinit with rfl | hstarts
        · exact Nat.zero_le _
        · exact absurd (hown r' hstarts) hne
      refine .lexeme hat (by decide) ?_ (by rwa [List.append_assoc])
      simp

/-- A character of runs begins nothing else, but for the marks of symbols and keys in quotes. -/
theorem Rule.of_starts_of_isBare (hc : isBare c) (hrun : r.isRun = false) (h : r.starts c) :
    r = .lexeme .quotedSymbol ∧ c = '#' ∨ r = .lexeme .quotedKeyword ∧ c = ':' := by
  have hbare : ∀ d, isBare d = false → c ≠ d := by
    rintro d hd rfl
    exact Bool.noConfusion (hc.symm.trans hd)
  cases r with
  | blanks => exact Bool.noConfusion (hc.symm.trans (not_isBare_of_isSeparator h))
  | comment => exact absurd (of_decide_eq_true h) (hbare _ (by decide))
  | lexeme kind =>
    cases kind with
    | quotedSymbol => exact .inl ⟨rfl, of_decide_eq_true h⟩
    | quotedKeyword => exact .inr ⟨rfl, of_decide_eq_true h⟩
    | unreadable => exact absurd h Bool.false_ne_true
    | float | int | bool | nil | keyword | symbol => exact Bool.noConfusion hrun
    | _ => exact absurd (of_decide_eq_true h) (hbare _ (by decide))

/-- A mark and a quote begin a text in quotes; where nothing closes it, the mark is a symbol. -/
theorem begins_marked (kind : Lexeme.Kind) (hc : isBare c) (hsymbol : kindOfRun [c] = .symbol)
    (hown : ∀ r : Rule, r.isRun = false → r.starts c → r = .lexeme kind)
    (hpattern : (Rule.lexeme kind).pattern = quotedPattern [c, '"']) (hread : kind ≠ .unreadable)
    (hat : lexemeAt c ('"' :: cs) = quoted kind [c, '"'] cs) : Begins c ('"' :: cs) := by
  obtain ⟨body, closed, hbody⟩ : ∃ body closed, quotedBody cs = (body, closed) := ⟨_, _, rfl⟩
  rw [quoted, hbody] at hat
  cases closed with
  | false =>
      have hlongest := longest_run hc ('"' :: cs) ?_
      · exact .unclosed hat (hsymbol ▸ hlongest) (stuck_of_unclosed hbody) (List.cons_ne_nil _ _)
      · intro r' hrun text hmem hinit
        refine (starts_of_begins hmem hinit).resolve_right ?_
        intro hstarts
        rw [hown r' hrun hstarts, hpattern] at hmem
        have hbehind : text <+: [c, '"'] ++ cs := hinit
        obtain ⟨body', hbody', -⟩ := mem_quotedPattern_begins hmem hbehind
        exact Bool.noConfusion (Prod.mk.inj (hbody.symm.trans hbody')).2
  | true =>
      obtain ⟨-, rest, rfl⟩ := mem_of_quotedBody hbody
      have hlongest : Longest (.lexeme kind) ([c, '"'] ++ (body ++ ['"'])) rest := by
        refine longest_quoted hpattern hbody ?_
        intro r' hne text hmem hinit
        rcases starts_of_begins hmem hinit with rfl | hstarts
        · exact Nat.zero_le _
        · cases hrun : r'.isRun with
          | false => exact absurd (hown r' hrun hstarts) hne
          | true =>
              obtain ⟨-, hall⟩ := mem_runPattern.1 (mem_runPattern_of_isRun hrun hmem)
              have hlength := (prefix_takeWhile hinit hall).length_le
              rw [List.cons_append, List.takeWhile_cons_of_pos hc] at hlength
              exact Nat.le_succ_of_le hlength
      refine .lexeme hat hread ?_ (by rwa [List.append_assoc])
      simp

/-- A mark in front of a quote opens quotes. -/
def OpensQuotes (c : Char) (cs : List Char) : Prop := (c = '#' ∨ c = ':') ∧ '"' ∈ cs.head?

/-- A character of runs that opens no quotes begins a run. -/
theorem begins_run (hc : isBare c) (hquotes : ¬ OpensQuotes c cs) : Begins c cs := by
  have hat := lexemeAt_of_isBare hc hquotes
  have hwhole : c :: cs = c :: cs.takeWhile isBare ++ cs.dropWhile isBare := by
    rw [List.cons_append, List.takeWhile_append_dropWhile]
  have hlongest := longest_run hc cs ?_
  · cases hcut : isCut (cs.dropWhile isBare) with
    | false =>
        rw [hcut, if_neg Bool.false_ne_true] at hat
        refine .lexeme hat ?_ hwhole hlongest
        intro h
        have hmem := hlongest.mem
        rw [h] at hmem
        exact hmem
    | true =>
        rw [hcut, if_pos rfl] at hat
        obtain ⟨d, rest, hrest⟩ : ∃ d rest, cs.dropWhile isBare = d :: rest := by
          refine List.exists_cons_of_ne_nil ?_
          intro hnil
          rw [hnil] at hcut
          exact Bool.noConfusion hcut
        rw [hrest] at hcut hwhole hlongest
        exact .cut hat hcut hwhole hlongest
  · intro r' hrun text hmem hinit
    refine (starts_of_begins hmem hinit).resolve_right ?_
    intro hstarts
    -- what begins like a run and is none has a quote behind its mark
    have hmark : (c = '#' ∨ c = ':') ∧ ∃ d, r'.pattern = quotedPattern [d, '"'] := by
      rcases Rule.of_starts_of_isBare hc hrun hstarts with ⟨rfl, hd⟩ | ⟨rfl, hd⟩
      · exact ⟨.inl hd, '#', rfl⟩
      · exact ⟨.inr hd, ':', rfl⟩
    obtain ⟨hd, d, hpattern⟩ := hmark
    rw [hpattern] at hmem
    obtain ⟨body, -, rfl⟩ := mem_quotedPattern.1 hmem
    obtain ⟨-, hinit⟩ := List.cons_prefix_cons.1 hinit
    obtain ⟨es, rfl⟩ := hinit
    exact hquotes ⟨hd, rfl⟩

/-- Whatever is no separator and no comment begins a lexeme or leaves the text stuck. -/
theorem begins (cs : List Char) (hseparator : isSeparator c = false) (hcomment : c ≠ ';') :
    Begins c cs := by
  have hbracket : ∀ (kind : Lexeme.Kind) {d : Char}, isBare d = false →
      (Rule.lexeme kind).starts d → (Rule.lexeme kind).pattern = {[d]} → kind ≠ .unreadable →
      lexemeAt d cs = (kind, [d]) → Begins d cs := by
    intro kind d hbare hstarts hpattern hread hat
    exact .lexeme hat hread rfl (longest_bracket (Rule.owns_of_starts hbare hstarts) hpattern)
  by_cases hbare : isBare c
  · by_cases hquotes : OpensQuotes c cs
    · obtain ⟨hmark, hhead⟩ := hquotes
      obtain ⟨cs, rfl⟩ := List.head?_eq_some_iff.1 hhead
      rcases hmark with rfl | rfl
      · refine begins_marked .quotedSymbol hbare (by decide) ?_ rfl (by decide) rfl
        intro r hrun hstarts
        rcases Rule.of_starts_of_isBare hbare hrun hstarts with ⟨h, -⟩ | ⟨-, h⟩
        · exact h
        · exact absurd h (by decide)
      · refine begins_marked .quotedKeyword hbare (by decide) ?_ rfl (by decide) rfl
        intro r hrun hstarts
        rcases Rule.of_starts_of_isBare hbare hrun hstarts with ⟨-, h⟩ | ⟨h, -⟩
        · exact absurd h (by decide)
        · exact h
    · exact begins_run hbare hquotes
  · rw [Bool.not_eq_true] at hbare
    cases hrule : Rule.ofStart? c with
    | none => exact .stuck (lexemeAt_of_ofStart? hbare hrule) (stuck_of_ofStart? hbare hrule)
    | some r =>
        unfold Rule.ofStart? at hrule
        rw [if_neg (by rw [hseparator]; exact Bool.false_ne_true)] at hrule
        split at hrule
        · exact absurd rfl hcomment
        · exact hbracket .openParen (by decide) (by decide) rfl (by decide) rfl
        · exact hbracket .closeParen (by decide) (by decide) rfl (by decide) rfl
        · exact hbracket .openBracket (by decide) (by decide) rfl (by decide) rfl
        · exact hbracket .closeBracket (by decide) (by decide) rfl (by decide) rfl
        · exact hbracket .openBrace (by decide) (by decide) rfl (by decide) rfl
        · exact hbracket .closeBrace (by decide) (by decide) rfl (by decide) rfl
        · exact begins_string
        · exact nomatch hrule

/-! ## Texts -/

/-- Where nothing is skipped a lexeme stands. -/
theorem lexemesFrom_of_ne (hseparator : isSeparator c = false) (hcomment : c ≠ ';')
    (hat : lexemeAt c cs = (kind, text)) : lexemesFrom offset (c :: cs) = ⟨kind, text, offset⟩ ::
      if kind = .unreadable then []
      else lexemesFrom (offset + byteLength text) (cs.drop (text.length - 1)) := by
  rw [lexemesFrom, if_neg (by rw [hseparator]; exact Bool.false_ne_true), if_neg hcomment, hat]

/-- The characters of a lexeme are passed over. -/
theorem drop_of_cons_eq (hne : text ≠ []) (h : c :: cs = text ++ rest) :
    cs.drop (text.length - 1) = rest := by
  obtain ⟨d, ds, rfl⟩ := List.exists_cons_of_ne_nil hne
  rw [(List.cons.inj h).2]
  exact List.drop_left

/-- A number and the mark of an exponent are a symbol. -/
theorem kindOfRun_marked {number : List Char} (h : unmarked? text = some number)
    (hnumber : isNatural (unsigned number) ∨ isFraction (unsigned number)) :
    kindOfRun text = .symbol := by
  have hword : text ∉ ["true".toList, "false".toList, "nil".toList] := by
    intro hmem
    have hword : ∀ w ∈ ["true".toList, "false".toList, "nil".toList], ∀ n ∈ unmarked? w,
        ¬ (isNatural (unsigned n) ∨ isFraction (unsigned n)) := by decide
    exact hword text hmem number h hnumber
  have hkeyword : ∀ c ds, text ≠ ':' :: c :: ds := by
    rintro c ds rfl
    have hnot : ∀ es, ¬ (isNatural (unsigned (':' :: es)) ∨ isFraction (unsigned (':' :: es))) := by
      rintro es (hn | hf)
      · exact Bool.false_ne_true hn
      · exact Bool.false_ne_true hf
    unfold unmarked? at h
    split at h
    next => exact hnot _ (Option.some.inj h ▸ hnumber)
    next => exact hnot _ (Option.some.inj h ▸ hnumber)
    next => exact nomatch h
  have hint : ¬ isNatural (unsigned text) := by
    intro hn
    exact nomatch h.symm.trans (unmarked?_eq_none endsInDigit_int (mem_intPattern.2 hn))
  have hfloat : ¬ isFloat (unsigned text) := by
    intro hf
    exact nomatch h.symm.trans (unmarked?_eq_none endsInDigit_float (mem_floatPattern.2 hf))
  simp only [List.mem_cons, List.not_mem_nil, or_false, not_or] at hword
  rw [kindOfRun, if_neg hword.1, if_neg hword.2.1, if_neg hword.2.2, if_neg hint, if_neg hfloat]
  exact hkeyword

/-- How a run is read in front of white space beyond ASCII: by its kind, as a symbol although it is
a word or minus zero, or as a number although it ends in the mark of an exponent. -/
theorem kindOfCutRun_cases (text : List Char) :
    kindOfCutRun text = kindOfRun text ∨
    (kindOfCutRun text = .symbol ∧
      (kindOfRun text = .nil ∨ kindOfRun text = .int ∨ ∃ b, kindOfRun text = .bool b)) ∨
    ((kindOfCutRun text = .int ∨ kindOfCutRun text = .float) ∧ kindOfRun text = .symbol) := by
  have hword : kindOfCutRun.kindOfWord text = kindOfRun text ∨
      (kindOfCutRun.kindOfWord text = .symbol ∧
        (kindOfRun text = .nil ∨ kindOfRun text = .int ∨ ∃ b, kindOfRun text = .bool b)) := by
    unfold kindOfCutRun.kindOfWord
    split
    next b heq => exact .inr ⟨rfl, .inr (.inr ⟨b, heq⟩)⟩
    next heq => exact .inr ⟨rfl, .inl heq⟩
    next => exact .inl rfl
  unfold kindOfCutRun
  split
  next number heq =>
    split
    next hnat =>
      have hnumber : isNatural (unsigned number) := (Bool.and_eq_true_iff.1 hnat).2
      exact .inr (.inr ⟨.inl rfl, kindOfRun_marked heq (.inl hnumber)⟩)
    next =>
      split
      next hfraction => exact .inr (.inr ⟨.inr rfl, kindOfRun_marked heq (.inr hfraction)⟩)
      next => exact hword.imp_right .inl
  next =>
    split
    next hzero =>
      subst hzero
      exact .inr (.inl ⟨rfl, .inr (.inl (by decide))⟩)
    next => exact hword.imp_right .inl

/-- A run that is cut off is read as a lexeme. -/
theorem kindOfCutRun_ne (h : text ∈ (Rule.lexeme (kindOfRun text)).pattern) :
    kindOfCutRun text ≠ .unreadable := by
  intro hk
  rcases kindOfCutRun_cases text with heq | ⟨heq, -⟩ | ⟨heq | heq, -⟩
  · rw [← heq, hk] at h
    exact h
  all_goals exact absurd (heq.symm.trans hk) (by decide)

/-- White space that cuts a run off is unreadable. -/
theorem lexemesFrom_cut (h : isCut (c :: cs)) :
    lexemesFrom offset (c :: cs) = [⟨.unreadable, [c], offset⟩] := by
  have hat : lexemeAt c cs = (.unreadable, [c]) :=
    lexemeAt_of_ofStart? (not_isBare_of_isCut h) (ofStart?_of_isCut h)
  rw [lexemesFrom_of_ne (not_isSeparator_of_isCut h) (ne_of_isCut h (by decide)) hat, if_pos rfl]

/-- The text divides into lexemes, and those that are read follow the division. -/
def Divides (offset : Nat) (cs : List Char) : Prop :=
  ∃ ls rest, Lexes offset cs ls rest ∧ Follows (lexemesFrom offset cs) ls rest

/-- Blanks and comments are passed over. -/
theorem Divides.skip {p : Char → Bool} (hr : r = .blanks ∨ r = .comment)
    (hlongest : Longest r (c :: cs.takeWhile p) (cs.dropWhile p))
    (heq : lexemesFrom offset (c :: cs)
      = lexemesFrom (offset + byteLength (c :: cs.takeWhile p)) (cs.dropWhile p))
    (h : Divides (offset + byteLength (c :: cs.takeWhile p)) (cs.dropWhile p)) :
    Divides offset (c :: cs) := by
  obtain ⟨ls, rest, hlexes, hfollows⟩ := h
  have hlexes' := Lexes.skip hr hlongest hlexes
  rw [List.cons_append, List.takeWhile_append_dropWhile] at hlexes'
  exact ⟨ls, rest, hlexes', heq ▸ hfollows⟩

/-- A lexeme stands in front of what divides. -/
theorem Divides.of_begins (hseparator : isSeparator c = false) (hcomment : c ≠ ';')
    (h : Begins c cs)
    (ih : ∀ (offset : Nat) (ds : List Char), ds.length < (c :: cs).length → Divides offset ds) :
    Divides offset (c :: cs) := by
  cases h with
  | @lexeme kind text cs' hat hread hwhole hlongest =>
      have hshorter : cs'.length < (c :: cs).length := by
        rw [hwhole, List.length_append]
        exact Nat.lt_add_of_pos_left (List.length_pos_of_ne_nil hlongest.ne_nil)
      obtain ⟨ls, rest, hlexes, hfollows⟩ := ih (offset + byteLength text) cs' hshorter
      have hlexes' := Lexes.lexeme hlongest hlexes
      rw [← hwhole] at hlexes'
      refine ⟨_, rest, hlexes', ?_⟩
      rw [lexemesFrom_of_ne hseparator hcomment hat, if_neg hread,
        drop_of_cons_eq hlongest.ne_nil hwhole]
      exact .cons _ hfollows
  | stuck hat hstuck =>
      refine ⟨[], c :: cs, .stop offset hstuck, ?_⟩
      rw [lexemesFrom_of_ne hseparator hcomment hat, if_pos rfl]
      exact .unreadable rfl (List.cons_ne_nil c cs)
  | unclosed hat hlongest hstuck hne =>
      refine ⟨_, cs, .lexeme hlongest (.stop _ hstuck), ?_⟩
      rw [lexemesFrom_of_ne hseparator hcomment hat, if_pos rfl]
      exact .unreadable rfl hne
  | @cut d text rest hat hcut hwhole hlongest =>
      -- the run was cut where no rule starts, and the rest is read no further
      have hstuck : Stuck (d :: rest) :=
        stuck_of_ofStart? (not_isBare_of_isCut hcut) (ofStart?_of_isCut hcut)
      have hlexes := Lexes.lexeme hlongest (.stop (offset + byteLength text) hstuck)
      rw [← hwhole] at hlexes
      refine ⟨_, d :: rest, hlexes, ?_⟩
      rw [lexemesFrom_of_ne hseparator hcomment hat, if_neg (kindOfCutRun_ne hlongest.mem),
        drop_of_cons_eq hlongest.ne_nil hwhole, lexemesFrom_cut hcut]
      exact .cut rfl (List.cons_ne_nil d rest)

/-- Every text divides into lexemes. -/
theorem exists_lexes (offset : Nat) (cs : List Char) : Divides offset cs := by
  induction hn : cs.length using Nat.strong_induction_on generalizing offset cs with
  | _ n ih =>
  subst hn
  replace ih : ∀ (offset : Nat) (ds : List Char), ds.length < cs.length → Divides offset ds :=
    fun offset ds hshorter => ih ds.length hshorter offset ds rfl
  cases cs with
  | nil =>
      refine ⟨[], [], .stop offset fun _ _ _ h => List.prefix_nil.1 h, ?_⟩
      rw [lexemesFrom]
      exact .nil
  | cons c cs =>
      have hshorter : ∀ p : Char → Bool, (cs.dropWhile p).length < (c :: cs).length :=
        fun p => Nat.lt_succ_of_le (List.dropWhile_suffix p).length_le
      by_cases hseparator : isSeparator c
      · have hown : Rule.blanks.Owns c :=
          Rule.owns_of_starts (not_isBare_of_isSeparator hseparator) hseparator
        have hblanks : ∀ d ∈ c :: cs.takeWhile isSeparator, isSeparator d :=
          List.forall_mem_cons.2 ⟨hseparator, fun d hd => List.mem_takeWhile_imp hd⟩
        refine .skip (.inl rfl) (hown.longest_star rfl hseparator cs) ?_ (ih _ _ (hshorter _))
        rw [← lexemesFrom_blanks hblanks, List.cons_append, List.takeWhile_append_dropWhile]
      by_cases hcomment : c = ';'
      · subst hcomment
        have hown : Rule.comment.Owns ';' := Rule.owns_of_starts (by decide) (by decide)
        exact .skip (.inr rfl) (hown.longest_star rfl (by decide) cs) lexemesFrom_comment
          (ih _ _ (hshorter _))
      rw [Bool.not_eq_true] at hseparator
      exact .of_begins hseparator hcomment (begins cs hseparator hcomment) ih

end Manifest.Sexp
