import Manifest.Proofs.Sexp.Scalar
import Manifest.Proofs.Token.Pattern

/-!
# The rules of lexemes as patterns

Each kind of lexeme has a pattern, and so have blanks and comments, which stand between lexemes.
Where two patterns match the same text, the rule of the higher rank reads it.

* `Rule.pattern`, `Rule.rank` — the rules.
* `mem_intPattern`, `mem_floatPattern`, `mem_quotedPattern` — the functions that recognise numbers
  and texts in quotes decide their patterns.
* `mem_kindOfRun`, `rank_lt_kindOfRun` — the kind of a run is the rule of the highest rank that
  matches it.
-/

namespace Manifest.Sexp

open scoped Computability
open Token (one mem_one_mul mem_star_one mem_optional)

variable {cs ds rest text : List Char} {c : Char} {l : Language Char} {kind : Lexeme.Kind}

/-! ## Patterns -/

/-- `-?` -/
def minusPattern : Language Char := Token.optional (one (· = '-'))

/-- `[0-9]+` -/
def digitsPattern : Language Char := one Char.isDigit * (one Char.isDigit)∗

/-- `0|[1-9][0-9]*` -/
def naturalPattern : Language Char :=
  {['0']} + one (fun c => c ≠ '0' && c.isDigit) * (one Char.isDigit)∗

/-- `-?(0|[1-9][0-9]*)` -/
def intPattern : Language Char := minusPattern * naturalPattern

/-- `[eE][+-]?[0-9]+` -/
def exponentPattern : Language Char :=
  one (fun c => c = 'e' || c = 'E') *
    (Token.optional (one fun c => c = '+' || c = '-') * digitsPattern)

/-- `\.[0-9]+([eE][+-]?[0-9]+)?` -/
def fractionPattern : Language Char :=
  one (· = '.') * (digitsPattern * Token.optional exponentPattern)

/-- `-?[0-9]+\.[0-9]+([eE][+-]?[0-9]+)?` and `-?[0-9]+[eE][+-]?[0-9]+` -/
def floatPattern : Language Char :=
  minusPattern * (digitsPattern * fractionPattern) +
    minusPattern * (digitsPattern * exponentPattern)

/-- `[^"\\]|\\.` -/
def partPattern : Language Char :=
  one (fun c => c ≠ '"' && c ≠ '\\') + one (· = '\\') * one (· ≠ '\n')

/-- `([^"\\]|\\.)*` -/
def bodyPattern : Language Char := partPattern∗

/-- What opens it, a body and a quote. -/
def quotedPattern (opening : List Char) : Language Char := {opening} * (bodyPattern * {['"']})

/-- `[^\s()\[\]{}";]+` -/
def runPattern : Language Char := one isBare * (one isBare)∗

/-- What the text at some place is read as. -/
inductive Rule
  | blanks
  | comment
  | lexeme (kind : Lexeme.Kind)
  deriving DecidableEq

namespace Rule

/-- The texts that a rule matches. -/
def pattern : Rule → Language Char
  | .blanks => one isSeparator * (one isSeparator)∗
  | .comment => one (· = ';') * (one (· ≠ '\n'))∗
  | .lexeme .openParen => {['(']}
  | .lexeme .closeParen => {[')']}
  | .lexeme .openBracket => {['[']}
  | .lexeme .closeBracket => {[']']}
  | .lexeme .openBrace => {['{']}
  | .lexeme .closeBrace => {['}']}
  | .lexeme .string => quotedPattern ['"']
  | .lexeme .float => floatPattern
  | .lexeme .int => intPattern
  | .lexeme (.bool true) => {"true".toList}
  | .lexeme (.bool false) => {"false".toList}
  | .lexeme .nil => {"nil".toList}
  | .lexeme .quotedSymbol => quotedPattern ['#', '"']
  | .lexeme .quotedKeyword => quotedPattern [':', '"']
  | .lexeme .keyword => one (· = ':') * runPattern
  | .lexeme .symbol => runPattern
  | .lexeme .unreadable => 0

/-- The rule of the higher rank is taken for a text that two rules match. Words rank by their
length, and rules that share no text with others need no rank of their own. -/
def rank : Rule → Nat
  | .lexeme .symbol => 1
  | .lexeme .keyword => 2
  | .lexeme .int => 3
  | .lexeme .float => 4
  | .lexeme .nil => 6
  | .lexeme (.bool true) => 8
  | .lexeme (.bool false) => 10
  | _ => 3

/-- The rule matches runs of characters without quotes. -/
def isRun : Rule → Bool
  | .lexeme .float => true
  | .lexeme .int => true
  | .lexeme (.bool _) => true
  | .lexeme .nil => true
  | .lexeme .keyword => true
  | .lexeme .symbol => true
  | _ => false

end Rule

/-! ## Numbers -/

/-- A minus sign may stand in front. -/
theorem mem_minusPattern_mul : cs ∈ minusPattern * l ↔ cs ∈ l ∨ ∃ ds ∈ l, cs = '-' :: ds := by
  have hone : cs ∈ one (· = '-') * l ↔ ∃ ds ∈ l, cs = '-' :: ds := by
    rw [mem_one_mul]
    constructor
    · rintro ⟨c, ds, rfl, hc, hds⟩
      obtain rfl := of_decide_eq_true hc
      exact ⟨ds, hds, rfl⟩
    · rintro ⟨ds, hds, rfl⟩
      exact ⟨'-', ds, rfl, by decide, hds⟩
  rw [minusPattern, Token.optional, add_mul, one_mul, Language.mem_add, hone]

/-- A sign is taken off in front of a pattern whose texts begin with a digit. -/
theorem mem_minusPattern_mul_iff (hl : ∀ ds, '-' :: ds ∉ l) :
    cs ∈ minusPattern * l ↔ unsigned cs ∈ l := by
  rw [mem_minusPattern_mul]
  unfold unsigned
  split
  next ds =>
    constructor
    · rintro (h | ⟨es, hes, heq⟩)
      · exact absurd h (hl ds)
      · rwa [(List.cons.inj heq).2]
    · exact fun h => .inr ⟨ds, h, rfl⟩
  next hsign =>
    constructor
    · rintro (h | ⟨es, -, rfl⟩)
      · exact h
      · exact absurd rfl (hsign es)
    · exact .inl

/-- Digits, one at least. -/
theorem mem_digitsPattern : cs ∈ digitsPattern ↔ Number.allDigits cs := by
  rw [digitsPattern, mem_one_mul, Number.allDigits]
  cases cs with
  | nil => simp
  | cons c cs =>
      rw [Bool.and_eq_true, List.all_cons, Bool.and_eq_true, List.all_eq_true]
      constructor
      · rintro ⟨d, ds, heq, hd, hds⟩
        obtain ⟨rfl, rfl⟩ := List.cons.inj heq
        exact ⟨rfl, hd, mem_star_one.1 hds⟩
      · rintro ⟨-, hc, hcs⟩
        exact ⟨c, cs, rfl, hc, mem_star_one.2 hcs⟩

/-- The pattern of natural numbers. -/
theorem mem_naturalPattern : cs ∈ naturalPattern ↔ isNatural cs := by
  rw [naturalPattern, Language.mem_add, mem_one_mul]
  unfold isNatural
  split
  next => exact ⟨fun _ => rfl, fun _ => .inl rfl⟩
  next c cs hzero =>
    rw [Bool.and_eq_true, List.all_cons, Bool.and_eq_true, List.all_eq_true]
    constructor
    · rintro (h | ⟨d, ds, heq, hd, hds⟩)
      · exact absurd (List.cons.inj (Set.mem_singleton_iff.1 h)) fun h => hzero h.1 h.2
      · obtain ⟨rfl, rfl⟩ := List.cons.inj heq
        obtain ⟨hnonzero, hdigit⟩ := Bool.and_eq_true_iff.1 hd
        exact ⟨hnonzero, hdigit, mem_star_one.1 hds⟩
    · rintro ⟨hnonzero, hdigit, hcs⟩
      exact .inr ⟨c, cs, rfl, Bool.and_eq_true_iff.2 ⟨hnonzero, hdigit⟩, mem_star_one.2 hcs⟩
  next =>
    refine ⟨?_, fun h => absurd h Bool.false_ne_true⟩
    rintro (h | ⟨d, ds, heq, -⟩)
    · exact nomatch Set.mem_singleton_iff.1 h
    · exact nomatch heq

/-- Nothing in the pattern begins with a character of the class. -/
def Avoids (p : Char → Bool) (l : Language Char) : Prop := ∀ cs ∈ l, ∀ c ∈ cs.head?, p c = false

/-- Digits are read as far as they go in front of a pattern that does not begin with one. -/
theorem mem_digitsPattern_mul (hl : Avoids Char.isDigit l) :
    cs ∈ digitsPattern * l ↔
      (cs.takeWhile Char.isDigit).isEmpty = false ∧
        cs.drop (cs.takeWhile Char.isDigit).length ∈ l := by
  rw [Language.mem_mul]
  constructor
  · rintro ⟨ds, hds, es, hes, rfl⟩
    obtain ⟨hne, hall⟩ := Bool.and_eq_true_iff.1 (mem_digitsPattern.1 hds)
    have htake : (ds ++ es).takeWhile Char.isDigit = ds :=
      Token.takeWhile_append_of_head (List.all_eq_true.1 hall) (hl es hes)
    rw [htake, List.drop_left]
    exact ⟨Bool.not_eq_true' _ ▸ hne, hes⟩
  · rintro ⟨hne, hrest⟩
    refine ⟨cs.takeWhile Char.isDigit, mem_digitsPattern.2 ?_, _, hrest, ?_⟩
    · rw [Number.allDigits, hne, List.all_takeWhile]
      rfl
    · exact List.prefix_iff_eq_append.1 (List.takeWhile_prefix _)

theorem avoids_mul {p q : Char → Bool} (h : ∀ c, q c → p c = false) : Avoids p (one q * l) := by
  intro cs hcs c hc
  obtain ⟨d, ds, rfl, hd, -⟩ := mem_one_mul.1 hcs
  rw [← Option.some.inj hc]
  exact h d hd

/-- No exponent begins with a digit. -/
theorem avoids_exponent : Avoids Char.isDigit exponentPattern := by
  refine avoids_mul ?_
  intro c hc
  rcases Bool.or_eq_true_iff.1 hc with h | h
  all_goals
    obtain rfl := of_decide_eq_true h
    decide

/-- No fraction does. -/
theorem avoids_fraction : Avoids Char.isDigit fractionPattern := by
  refine avoids_mul ?_
  intro c hc
  obtain rfl := of_decide_eq_true hc
  decide

theorem mem_optional_mul {m : Language Char} :
    cs ∈ Token.optional l * m ↔ cs ∈ m ∨ cs ∈ l * m := by
  rw [Token.optional, add_mul, one_mul, Language.mem_add]

/-- The pattern of exponents. -/
theorem mem_exponentPattern : cs ∈ exponentPattern ↔ isExponent cs := by
  -- a sign is taken off, and digits do not begin with one
  have hsign : ∀ cs, cs ∈ Token.optional (one fun c => c = '+' || c = '-') * digitsPattern ↔
      Number.allDigits (Binary64.takeSign cs).2 := by
    intro cs
    rw [mem_optional_mul, mem_one_mul, mem_digitsPattern]
    unfold Binary64.takeSign
    split
    next ds => simp [Number.allDigits, mem_digitsPattern]
    next ds => simp [Number.allDigits, mem_digitsPattern]
    next hminus hplus =>
      refine ⟨?_, .inl⟩
      rintro (h | ⟨c, ds, rfl, hc, -⟩)
      · exact h
      · rcases Bool.or_eq_true_iff.1 hc with h | h
        · exact absurd (congrArg (· :: ds) (of_decide_eq_true h)) (hplus ds)
        · exact absurd (congrArg (· :: ds) (of_decide_eq_true h)) (hminus ds)
  rw [exponentPattern, mem_one_mul]
  cases cs with
  | nil => simp [isExponent]
  | cons c cs =>
      rw [isExponent, Bool.and_eq_true, ← hsign]
      constructor
      · rintro ⟨d, ds, heq, hd, hds⟩
        obtain ⟨rfl, rfl⟩ := List.cons.inj heq
        exact ⟨hd, hds⟩
      · rintro ⟨hc, hcs⟩
        exact ⟨c, cs, rfl, hc, hcs⟩

/-- A fraction has digits behind its point, and maybe an exponent. -/
theorem mem_fractionPattern : cs ∈ fractionPattern ↔ ∃ ds, cs = '.' :: ds ∧
    (ds.takeWhile Char.isDigit).isEmpty = false ∧
      ((ds.drop (ds.takeWhile Char.isDigit).length).isEmpty ∨
        isExponent (ds.drop (ds.takeWhile Char.isDigit).length)) := by
  have hoptional : Avoids Char.isDigit (Token.optional exponentPattern) := by
    intro cs hcs
    rcases mem_optional.1 hcs with rfl | hcs
    · exact fun c hc => nomatch hc
    · exact avoids_exponent cs hcs
  rw [fractionPattern, mem_one_mul]
  constructor
  · rintro ⟨c, ds, rfl, hc, hds⟩
    obtain rfl := of_decide_eq_true hc
    rw [mem_digitsPattern_mul hoptional, mem_optional, mem_exponentPattern] at hds
    exact ⟨ds, rfl, hds.1, hds.2.imp_left List.isEmpty_iff.2⟩
  · rintro ⟨ds, rfl, hne, hrest⟩
    refine ⟨'.', ds, rfl, by decide, ?_⟩
    rw [mem_digitsPattern_mul hoptional, mem_optional, mem_exponentPattern]
    exact ⟨hne, hrest.imp_left List.isEmpty_iff.1⟩

/-- The pattern of integers. -/
theorem mem_intPattern : cs ∈ intPattern ↔ isNatural (unsigned cs) := by
  rw [intPattern, mem_minusPattern_mul_iff, mem_naturalPattern]
  intro ds h
  exact absurd (isDigit_of_isNatural (mem_naturalPattern.1 h) '-' List.mem_cons_self) (by decide)

/-- The pattern of floats. -/
theorem mem_floatPattern : cs ∈ floatPattern ↔ isFloat (unsigned cs) := by
  have hdigits : ∀ {m : Language Char} ds, '-' :: ds ∉ digitsPattern * m := by
    intro m ds h
    obtain ⟨c, es, heq, hc, -⟩ := mem_one_mul.1 (mul_assoc (one Char.isDigit) _ m ▸ h)
    rw [← (List.cons.inj heq).1] at hc
    exact absurd hc (by decide)
  rw [floatPattern, Language.mem_add, mem_minusPattern_mul_iff hdigits,
    mem_minusPattern_mul_iff hdigits, mem_digitsPattern_mul avoids_fraction,
    mem_digitsPattern_mul avoids_exponent, ← and_or_left, mem_fractionPattern, mem_exponentPattern]
  unfold isFloat
  rw [Bool.and_eq_true, Bool.not_eq_true']
  refine and_congr_right fun _ => ?_
  split
  next ds heq =>
    rw [heq, Bool.and_eq_true, Bool.not_eq_true', Bool.or_eq_true]
    constructor
    · rintro (⟨es, hes, hfraction⟩ | h)
      · rwa [(List.cons.inj hes).2]
      · exact absurd h Bool.false_ne_true
    · exact fun h => .inl ⟨ds, rfl, h⟩
  next hpoint =>
    refine ⟨?_, .inr⟩
    rintro (⟨ds, heq, -⟩ | h)
    · exact absurd heq (hpoint ds)
    · exact h

/-- Digits alone have neither a fraction nor an exponent. -/
theorem isFloat_of_isNatural (h : isNatural cs) : isFloat cs = false := by
  have hall := isDigit_of_isNatural h
  have htake : cs.takeWhile Char.isDigit = cs := List.takeWhile_eq_self_iff.2 hall
  unfold isFloat
  simp only [htake, List.drop_length, isExponent, Bool.and_false]

/-! ## Texts in quotes -/

/-- A part more between quotes. -/
theorem append_mem_bodyPattern (hcs : cs ∈ partPattern) (hds : ds ∈ bodyPattern) :
    cs ++ ds ∈ bodyPattern := by
  have hle : partPattern * bodyPattern ≤ bodyPattern := mul_kstar_le_kstar
  exact hle (Language.append_mem_mul hcs hds)

/-- A part of a body is a character that stands for itself, or a backslash and the character after
it. -/
theorem mem_partPattern : cs ∈ partPattern ↔
    (∃ c, cs = [c] ∧ c ≠ '"' ∧ c ≠ '\\') ∨ ∃ c, cs = ['\\', c] ∧ c ≠ '\n' := by
  rw [partPattern, Language.mem_add, mem_one_mul]
  refine or_congr ?_ ?_
  · exact exists_congr fun c => and_congr_right fun _ => by simp
  · constructor
    · rintro ⟨c, _, rfl, hc, d, rfl, hd⟩
      exact ⟨d, by rw [of_decide_eq_true hc], of_decide_eq_true hd⟩
    · rintro ⟨d, rfl, hd⟩
      exact ⟨'\\', [d], rfl, by decide, d, rfl, decide_eq_true hd⟩

/-- A body that a quote follows is read as one. -/
theorem quotedBody_of_mem (h : cs ∈ bodyPattern) :
    quotedBody (cs ++ '"' :: rest) = (cs, true) := by
  obtain ⟨parts, rfl, hparts⟩ := Language.mem_kstar.1 h
  clear h
  induction parts with
  | nil => rfl
  | cons part parts ih =>
      obtain ⟨hpart, hrest⟩ := List.forall_mem_cons.1 hparts
      rw [List.flatten_cons, List.append_assoc]
      rcases mem_partPattern.1 hpart with ⟨c, rfl, hquote, hslash⟩ | ⟨c, rfl, hc⟩
      · rw [List.singleton_append, quotedBody_cons hquote hslash, ih hrest]
        rfl
      · rw [List.cons_append, List.singleton_append, quotedBody_escape hc, ih hrest]
        rfl

/-- What stands in a body without an escape is no backslash. -/
theorem ne_backslash (hlone : c = '\\' → cs = [] → False)
    (hescape : ∀ d ds, c = '\\' → cs = d :: ds → False) : c ≠ '\\' := by
  intro hc
  cases cs with
  | nil => exact hlone hc rfl
  | cons d ds => exact hescape d ds hc rfl

/-- What is read as a body that a quote closes is one. -/
theorem mem_of_quotedBody {body : List Char} (h : quotedBody cs = (body, true)) :
    body ∈ bodyPattern ∧ ∃ rest, cs = body ++ '"' :: rest := by
  fun_induction quotedBody cs generalizing body with
  | case2 tail =>
    obtain rfl := (Prod.mk.inj h).1
    exact ⟨Language.nil_mem_kstar _, tail, rfl⟩
  | case5 c cs hc body' closed heq ih =>
    obtain ⟨rfl, rfl⟩ := Prod.mk.inj h
    obtain ⟨hbody, rest, rfl⟩ := ih heq
    exact ⟨append_mem_bodyPattern (mem_partPattern.2 (.inr ⟨c, rfl, hc⟩)) hbody, rest, rfl⟩
  | case6 c cs hquote hlone hescape body' closed heq ih =>
    have hpart : [c] ∈ partPattern :=
      mem_partPattern.2 (.inl ⟨c, rfl, hquote, ne_backslash hlone hescape⟩)
    obtain ⟨rfl, rfl⟩ := Prod.mk.inj h
    obtain ⟨hbody, rest, rfl⟩ := ih heq
    exact ⟨append_mem_bodyPattern hpart hbody, rest, rfl⟩
  | _ => exact absurd (Prod.mk.inj h).2 Bool.false_ne_true

/-- The pattern of quoted texts. -/
theorem mem_quotedPattern {opening : List Char} :
    text ∈ quotedPattern opening ↔ ∃ body ∈ bodyPattern, text = opening ++ (body ++ ['"']) := by
  rw [quotedPattern, Language.mem_mul]
  constructor
  · rintro ⟨_, rfl, _, ⟨body, hbody, _, rfl, rfl⟩, rfl⟩
    exact ⟨body, hbody, rfl⟩
  · rintro ⟨body, hbody, rfl⟩
    exact ⟨opening, rfl, _, ⟨body, hbody, _, rfl, rfl⟩, rfl⟩

/-- After what opens it, one text in quotes at most matches, and the body that is read tells
which. -/
theorem mem_quotedPattern_begins {opening : List Char} (h : text ∈ quotedPattern opening)
    (hinit : text <+: opening ++ cs) :
    ∃ body, quotedBody cs = (body, true) ∧ text = opening ++ (body ++ ['"']) := by
  obtain ⟨body, hbody, rfl⟩ := mem_quotedPattern.1 h
  obtain ⟨rest, rfl⟩ := (List.prefix_append_right_inj opening).1 hinit
  refine ⟨body, ?_, rfl⟩
  rw [List.append_assoc]
  exact quotedBody_of_mem hbody

/-! ## Runs -/

/-- A run is bare throughout and not empty. -/
theorem mem_runPattern : cs ∈ runPattern ↔ cs ≠ [] ∧ ∀ c ∈ cs, isBare c := by
  rw [runPattern, mem_one_mul]
  constructor
  · rintro ⟨c, ds, rfl, hc, hds⟩
    exact ⟨List.cons_ne_nil c ds, List.forall_mem_cons.2 ⟨hc, mem_star_one.1 hds⟩⟩
  · rintro ⟨hne, hall⟩
    obtain ⟨c, ds, rfl⟩ := List.exists_cons_of_ne_nil hne
    obtain ⟨hc, hds⟩ := List.forall_mem_cons.1 hall
    exact ⟨c, ds, rfl, hc, mem_star_one.2 hds⟩

/-- The kinds of numbers and words go with their spelling. -/
theorem kindOfRun_of_mem (hrun : (Rule.lexeme kind).isRun) (hsymbol : kind ≠ .symbol)
    (h : cs ∈ (Rule.lexeme kind).pattern) : kindOfRun cs = kind := by
  cases kind with
  | float =>
      have hfloat := mem_floatPattern.1 h
      have hnat : ¬ isNatural (unsigned cs) :=
        fun hn => Bool.noConfusion (hfloat.symm.trans (isFloat_of_isNatural hn))
      rw [kindOfRun_number (.inr hfloat), if_neg hnat]
  | int =>
      have hint := mem_intPattern.1 h
      rw [kindOfRun_number (.inl hint), if_pos hint]
  | bool b =>
      cases b with
      | true =>
          obtain rfl : cs = "true".toList := h
          decide
      | false =>
          obtain rfl : cs = "false".toList := h
          decide
  | nil =>
      obtain rfl : cs = "nil".toList := h
      decide
  | keyword =>
      obtain ⟨c, ds, rfl, hc, hds⟩ := mem_one_mul.1 h
      obtain ⟨d, es, rfl⟩ := List.exists_cons_of_ne_nil (mem_runPattern.1 hds).1
      obtain rfl := of_decide_eq_true hc
      -- a keyword begins with a colon, as no word and no number does
      have hword : ∀ w ∈ ["true".toList, "false".toList, "nil".toList], ':' :: d :: es ≠ w := by
        intro w hw heq
        rw [← heq] at hw
        simp at hw
      have hnat : isNatural (unsigned (':' :: d :: es)) = false := rfl
      have hfloat : isFloat (unsigned (':' :: d :: es)) = false := rfl
      rw [kindOfRun, if_neg (hword _ (by decide)), if_neg (hword _ (by decide)),
        if_neg (hword _ (by decide)), hnat, hfloat, if_neg Bool.false_ne_true,
        if_neg Bool.false_ne_true]
  | symbol => exact absurd rfl hsymbol
  | _ => exact absurd hrun Bool.false_ne_true

/-- A run has the spelling of its kind. -/
theorem mem_kindOfRun (h : cs ∈ runPattern) : cs ∈ (Rule.lexeme (kindOfRun cs)).pattern := by
  unfold kindOfRun
  split
  next htrue => exact htrue
  next =>
    split
    next hfalse => exact hfalse
    next =>
      split
      next hnil => exact hnil
      next =>
        split
        next hint => exact mem_intPattern.2 hint
        next =>
          split
          next hfloat => exact mem_floatPattern.2 hfloat
          next =>
            split
            next =>
              obtain ⟨-, hall⟩ := mem_runPattern.1 h
              exact mem_one_mul.2 ⟨':', _, rfl, by decide,
                mem_runPattern.2 ⟨List.cons_ne_nil _ _, (List.forall_mem_cons.1 hall).2⟩⟩
            next => exact h

/-- Of all rules for runs that match a run, that of its kind has the highest rank. -/
theorem rank_lt_kindOfRun {r : Rule} (hrun : r.isRun) (h : cs ∈ r.pattern)
    (hne : r ≠ .lexeme (kindOfRun cs)) : r.rank < (Rule.lexeme (kindOfRun cs)).rank := by
  cases r with
  | blanks => exact absurd hrun Bool.false_ne_true
  | comment => exact absurd hrun Bool.false_ne_true
  | lexeme kind =>
      by_cases hsymbol : kind = .symbol
      · subst hsymbol
        generalize kindOfRun cs = k at hne
        cases k with
        | symbol => exact absurd rfl hne
        | bool b => cases b <;> decide
        | _ => decide
      · exact absurd (congrArg Rule.lexeme (kindOfRun_of_mem hrun hsymbol h)).symm hne

/-! ## The characters of numbers -/

/-- Every text of the pattern has characters of runs only. -/
def AllBare (l : Language Char) : Prop := ∀ cs ∈ l, ∀ c ∈ cs, isBare c

/-- A bare character is a bare text. -/
theorem AllBare.one {p : Char → Bool} (h : ∀ c, p c → isBare c) : AllBare (one p) := by
  rintro _ ⟨c, rfl, hc⟩
  exact List.forall_mem_singleton.2 (h c hc)

/-- Bare texts in a row are bare. -/
theorem AllBare.mul {m : Language Char} (hl : AllBare l) (hm : AllBare m) : AllBare (l * m) := by
  rintro _ ⟨xs, hxs, ys, hys, rfl⟩
  exact List.forall_mem_append.2 ⟨hl xs hxs, hm ys hys⟩

/-- Either of two bare texts is bare. -/
theorem AllBare.add {m : Language Char} (hl : AllBare l) (hm : AllBare m) : AllBare (l + m) := by
  rintro cs (hcs | hcs)
  · exact hl cs hcs
  · exact hm cs hcs

/-- Any number of bare texts in a row are bare. -/
theorem AllBare.star (hl : AllBare l) : AllBare (l∗) := by
  intro cs hcs c hc
  obtain ⟨parts, rfl, hparts⟩ := Language.mem_kstar.1 hcs
  obtain ⟨part, hpart, hc⟩ := List.mem_flatten.1 hc
  exact hl part (hparts part hpart) c hc

theorem AllBare.optional (hl : AllBare l) : AllBare (Token.optional l) := by
  intro cs hcs
  rcases Token.mem_optional.1 hcs with rfl | hcs
  · exact nofun
  · exact hl cs hcs

theorem isBare_of_or {a b : Char} (ha : isBare a) (hb : isBare b) (h : (c = a || c = b) = true) :
    isBare c := by
  rcases Bool.or_eq_true_iff.1 h with h | h
  · rwa [of_decide_eq_true h]
  · rwa [of_decide_eq_true h]

theorem isBare_of_eq {a : Char} (ha : isBare a) (h : decide (c = a) = true) : isBare c := by
  rwa [of_decide_eq_true h]

theorem allBare_minus : AllBare minusPattern :=
  .optional (.one fun _ => isBare_of_eq (by decide))

theorem allBare_digits : AllBare digitsPattern :=
  .mul (.one fun _ => isBare_of_isDigit) (.star (.one fun _ => isBare_of_isDigit))

theorem allBare_exponent : AllBare exponentPattern :=
  .mul (.one fun _ => isBare_of_or (by decide) (by decide))
    (.mul (.optional (.one fun _ => isBare_of_or (by decide) (by decide))) allBare_digits)

theorem allBare_fraction : AllBare fractionPattern :=
  .mul (.one fun _ => isBare_of_eq (by decide)) (.mul allBare_digits (.optional allBare_exponent))

/-- Floats are bare. -/
theorem allBare_float : AllBare floatPattern :=
  .add (.mul allBare_minus (.mul allBare_digits allBare_fraction))
    (.mul allBare_minus (.mul allBare_digits allBare_exponent))

/-- Numbers, words and keywords are runs. -/
theorem mem_runPattern_of_isRun {r : Rule} (hrun : r.isRun) (h : cs ∈ r.pattern) :
    cs ∈ runPattern := by
  cases r with
  | blanks => exact absurd hrun Bool.false_ne_true
  | comment => exact absurd hrun Bool.false_ne_true
  | lexeme kind =>
    cases kind with
    | float =>
        refine mem_runPattern.2 ⟨?_, allBare_float cs h⟩
        rintro rfl
        exact absurd (mem_floatPattern.1 h) (by decide)
    | int =>
        have hnat : isNatural (unsigned cs) := mem_intPattern.1 h
        refine mem_runPattern.2 ⟨?_, isBare_of_mem_unsigned fun d hd =>
          isBare_of_isDigit (isDigit_of_isNatural hnat d hd)⟩
        rintro rfl
        exact absurd hnat (by decide)
    | bool b =>
        cases b with
        | true =>
            obtain rfl : cs = "true".toList := h
            exact mem_runPattern.2 ⟨by decide, List.all_eq_true.1 (by decide)⟩
        | false =>
            obtain rfl : cs = "false".toList := h
            exact mem_runPattern.2 ⟨by decide, List.all_eq_true.1 (by decide)⟩
    | nil =>
        obtain rfl : cs = "nil".toList := h
        exact mem_runPattern.2 ⟨by decide, List.all_eq_true.1 (by decide)⟩
    | keyword =>
        obtain ⟨c, ds, rfl, hc, hds⟩ := mem_one_mul.1 h
        exact mem_runPattern.2 ⟨List.cons_ne_nil c ds,
          List.forall_mem_cons.2 ⟨isBare_of_eq (by decide) hc, (mem_runPattern.1 hds).2⟩⟩
    | symbol => exact h
    | _ => exact absurd hrun Bool.false_ne_true

/-- The texts of a pattern end in a digit. -/
def EndsInDigit (l : Language Char) : Prop := ∀ cs ∈ l, ∃ c ∈ cs.getLast?, c.isDigit

/-- A text ends in a digit when its last part does. -/
theorem EndsInDigit.mul (h : EndsInDigit l) (m : Language Char) : EndsInDigit (m * l) := by
  rintro _ ⟨cs, -, ds, hds, rfl⟩
  obtain ⟨c, hc, hdigit⟩ := h ds hds
  exact ⟨c, List.mem_getLast?_append_of_mem_getLast? hc, hdigit⟩

/-- Either of two texts that end in a digit does. -/
theorem EndsInDigit.add {m : Language Char} (hl : EndsInDigit l) (hm : EndsInDigit m) :
    EndsInDigit (l + m) := by
  rintro cs (h | h)
  · exact hl cs h
  · exact hm cs h

theorem endsInDigit_of_all (h : ∀ cs ∈ l, cs ≠ [] ∧ ∀ c ∈ cs, c.isDigit) : EndsInDigit l := by
  intro cs hcs
  obtain ⟨hne, hall⟩ := h cs hcs
  exact ⟨cs.getLast hne, List.getLast?_eq_some_getLast hne, hall _ (List.getLast_mem hne)⟩

theorem endsInDigit_digits : EndsInDigit digitsPattern := by
  refine endsInDigit_of_all ?_
  intro cs h
  obtain ⟨c, ds, rfl, hc, hds⟩ := mem_one_mul.1 h
  exact ⟨List.cons_ne_nil c ds, List.forall_mem_cons.2 ⟨hc, mem_star_one.1 hds⟩⟩

theorem endsInDigit_exponent : EndsInDigit exponentPattern :=
  (endsInDigit_digits.mul _).mul _

/-- A number does not end in the mark of an exponent. -/
theorem endsInDigit_float : EndsInDigit floatPattern := by
  have hfraction : EndsInDigit (digitsPattern * Token.optional exponentPattern) := by
    rw [Token.optional, mul_add, mul_one]
    exact endsInDigit_digits.add (endsInDigit_exponent.mul _)
  exact (((hfraction.mul _).mul _).mul _).add ((endsInDigit_exponent.mul _).mul _)

/-- Integers end in a digit. -/
theorem endsInDigit_int : EndsInDigit intPattern := by
  refine EndsInDigit.mul (endsInDigit_of_all ?_) _
  intro cs h
  have hnat := mem_naturalPattern.1 h
  refine ⟨?_, isDigit_of_isNatural hnat⟩
  rintro rfl
  exact absurd hnat Bool.false_ne_true

/-- What ends in a digit has no mark of an exponent at its end. -/
theorem unmarked?_eq_none (h : EndsInDigit l) (hcs : cs ∈ l) : unmarked? cs = none := by
  obtain ⟨c, hc, hdigit⟩ := h cs hcs
  unfold unmarked?
  split
  next he =>
    obtain rfl := Option.some.inj (he.symm.trans hc)
    exact absurd hdigit (by decide)
  next he =>
    obtain rfl := Option.some.inj (he.symm.trans hc)
    exact absurd hdigit (by decide)
  next => rfl

/-! ## The first characters of rules -/

/-- The characters with which the texts of a rule begin. -/
def Rule.starts : Rule → Char → Bool
  | .blanks, c => isSeparator c
  | .comment, c => c = ';'
  | .lexeme .openParen, c => c = '('
  | .lexeme .closeParen, c => c = ')'
  | .lexeme .openBracket, c => c = '['
  | .lexeme .closeBracket, c => c = ']'
  | .lexeme .openBrace, c => c = '{'
  | .lexeme .closeBrace, c => c = '}'
  | .lexeme .string, c => c = '"'
  | .lexeme .quotedSymbol, c => c = '#'
  | .lexeme .quotedKeyword, c => c = ':'
  | .lexeme .unreadable, _ => false
  | .lexeme _, c => isBare c

/-- A text of a rule starts as the rule says. -/
theorem Rule.starts_of_mem {r : Rule} (h : c :: cs ∈ r.pattern) : r.starts c := by
  have hone : ∀ {p : Char → Bool} {m : Language Char}, c :: cs ∈ one p * m → p c := by
    intro p m h
    obtain ⟨d, ds, heq, hd, -⟩ := mem_one_mul.1 h
    rwa [(List.cons.inj heq).1]
  have hquoted : ∀ {d opening}, c :: cs ∈ quotedPattern (d :: opening) → decide (c = d) = true := by
    intro d opening h
    obtain ⟨body, -, heq⟩ := mem_quotedPattern.1 h
    exact decide_eq_true (List.cons.inj heq).1
  have hrun : ∀ {r : Rule}, r.isRun → c :: cs ∈ r.pattern → isBare c :=
    fun hr h => (mem_runPattern.1 (mem_runPattern_of_isRun hr h)).2 c List.mem_cons_self
  cases r with
  | blanks => exact hone h
  | comment => exact hone h
  | lexeme kind =>
    cases kind with
    | string => exact hquoted h
    | quotedSymbol => exact hquoted h
    | quotedKeyword => exact hquoted h
    | unreadable => exact h.elim
    | float => exact hrun rfl h
    | int => exact hrun rfl h
    | bool b => exact hrun (r := .lexeme (.bool b)) rfl h
    | nil => exact hrun rfl h
    | keyword => exact hrun rfl h
    | symbol => exact hrun rfl h
    | _ => exact decide_eq_true (List.cons.inj h).1

end Manifest.Sexp
