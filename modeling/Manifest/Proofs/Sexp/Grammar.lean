import Manifest.Proofs.Sexp.RoundTrip
import Manifest.Proofs.Sexp.Rules

/-!
# The grammar of s-expressions

Which lexemes form a value, and which value: a scalar, a symbol or a keyword is one lexeme, and
forms enclose values between brackets. The integers of 64 bits, the finite floats and the legal
escapes are the scalars that have a value.

* `Derives` — the grammar.
* `ofPairs_repeated` — which entries a map has when keys are repeated.
* `scalar_eq_ok`, `symbolText?_eq_ok`, `keyText?_eq_ok` — the reader takes the lexemes that the
  grammar takes, for the same value.
-/

namespace Manifest.Sexp

open Text (byteLength byteLength_append)

variable {cs ds body : List Char} {l : Lexeme} {s : String} {v : Sexp} {offset : Nat}

/-! ## Lexemes with a value -/

/-- The integer that digits with an optional minus sign denote. -/
inductive Integer : List Char → Int → Prop
  | digits {ds : List Char} : Number.allDigits ds → Integer ds (Number.positional 10 ds)
  | minus {ds : List Char} : Number.allDigits ds → Integer ('-' :: ds) (-(Number.positional 10 ds))

/-- The letters of escapes, and the characters for which they stand. -/
def escapes : List (Char × Char) :=
  [('\\', '\\'), ('"', '"'), ('n', '\n'), ('t', '\t'), ('r', '\r')]

/-- The text that characters between quotes stand for, when all their escapes are legal. -/
inductive StandsFor : List Char → List Char → Prop
  | nil : StandsFor [] []
  | plain {c : Char} {cs ds : List Char} :
      c ≠ '\\' → StandsFor cs ds → StandsFor (c :: cs) (c :: ds)
  | escape {c d : Char} {cs ds : List Char} :
      (c, d) ∈ escapes → StandsFor cs ds → StandsFor ('\\' :: c :: cs) (d :: ds)
  | octal {a b c : Char} {cs ds : List Char} :
      [a, b, c].all Number.isOctalDigit → StandsFor cs ds →
      StandsFor ('\\' :: 'o' :: a :: b :: c :: cs)
        (Char.ofNat (Number.positional 8 [a, b, c]) :: ds)

/-- A text in quotes, with what opens it, and the text that it stands for. -/
def Quotes (opening text : List Char) (s : String) : Prop :=
  ∃ body ds, text = opening ++ (body ++ ['"']) ∧ StandsFor body ds ∧ s = String.ofList ds

/-- The symbol that a lexeme denotes; a keyword keeps its colon. -/
inductive Lexeme.Symbol (l : Lexeme) : String → Prop
  | bare : l.kind = .symbol ∨ l.kind = .keyword → l.Symbol (String.ofList l.text)
  | quotedSymbol {s : String} :
      l.kind = .quotedSymbol → Quotes ['#', '"'] l.text s → l.Symbol s
  | quotedKeyword {s : String} :
      l.kind = .quotedKeyword → Quotes [':', '"'] l.text s → l.Symbol (":" ++ s)

/-- The key of an entry that a lexeme denotes. -/
inductive Lexeme.Key (l : Lexeme) : String → Prop
  | bare {name : List Char} :
      l.kind = .keyword → l.text = ':' :: name → l.Key (String.ofList name)
  | quoted {s : String} : l.kind = .quotedKeyword → Quotes [':', '"'] l.text s → l.Key s

/-- The value of a lexeme that is one by itself. -/
inductive Lexeme.Scalar (l : Lexeme) : Sexp → Prop
  | nil : l.kind = .nil → l.Scalar .nil
  | bool {b : Bool} : l.kind = .bool b → l.Scalar (.bool b)
  | int {i : Int64} : l.kind = .int → Integer l.text i.toInt → l.Scalar (.int i)
  | float {x : Binary64} :
      l.kind = .float → Binary64.ofText? l.text = some x → x.isFinite → l.Scalar (.float x)
  | str {s : String} : l.kind = .string → Quotes ['"'] l.text s → l.Scalar (.str s)
  | sym {s : String} : l.Symbol s → l.Scalar (.sym s)

/-! ## Forms -/

mutual

/-- The lexemes of a value. -/
inductive Derives : List Lexeme → Sexp → Prop
  | scalar {l : Lexeme} {v : Sexp} : l.Scalar v → Derives [l] v
  | list {opening closing : Lexeme} {ls : List Lexeme} {items : List Sexp} :
      opening.kind = .openBracket → Items ls items → closing.kind = .closeBracket →
      Derives (opening :: (ls ++ [closing])) (.list items)
  | map {opening closing : Lexeme} {ls : List Lexeme} {pairs : List (String × Sexp)} :
      opening.kind = .openBrace → Entries ls pairs → closing.kind = .closeBrace →
      Derives (opening :: (ls ++ [closing])) (.map (ofPairs pairs))
  | call {opening closing h : Lexeme} {ls : List Lexeme} {head : String} {args : List Sexp} :
      opening.kind = .openParen → h.Symbol head → Items ls args → closing.kind = .closeParen →
      Derives (opening :: h :: (ls ++ [closing])) (.call head args)

/-- The lexemes of values, one after the other. -/
inductive Items : List Lexeme → List Sexp → Prop
  | nil : Items [] []
  | cons {ls ms : List Lexeme} {v : Sexp} {vs : List Sexp} :
      Derives ls v → Items ms vs → Items (ls ++ ms) (v :: vs)

/-- The lexemes of keys with values, one after the other. A repeated key is allowed. -/
inductive Entries : List Lexeme → List (String × Sexp) → Prop
  | nil : Entries [] []
  | cons {k : Lexeme} {ls ms : List Lexeme} {key : String} {v : Sexp}
      {pairs : List (String × Sexp)} :
      k.Key key → Derives ls v → Entries ms pairs →
      Entries (k :: (ls ++ ms)) ((key, v) :: pairs)

end

/-! ## Repeated keys -/

/-- A key that is there keeps its place; a new one goes to the end. -/
theorem keys_put (key : String) (v : Sexp) (entries : List (String × Sexp)) :
    (put key v entries).map Prod.fst =
      if key ∈ entries.map Prod.fst then entries.map Prod.fst
      else entries.map Prod.fst ++ [key] := by
  induction entries with
  | nil => rfl
  | cons entry entries ih =>
      rw [put, List.map_cons]
      by_cases hkey : entry.1 = key
      · rw [if_pos hkey, if_pos (hkey ▸ List.mem_cons_self), List.map_cons]
      · have hmem : key ∈ entry.1 :: entries.map Prod.fst ↔ key ∈ entries.map Prod.fst :=
          List.mem_cons.trans (or_iff_right (Ne.symm hkey))
        rw [if_neg hkey, List.map_cons, ih]
        simp only [hmem, List.cons_append, apply_ite (List.cons entry.1)]

/-- The key takes the value, and every other key keeps its own. -/
theorem valueOf?_put (key k : String) (v : Sexp) (entries : List (String × Sexp)) :
    valueOf? k (put key v entries) = if key = k then some v else valueOf? k entries := by
  induction entries with
  | nil => rfl
  | cons entry entries ih =>
      rw [put]
      by_cases hkey : entry.1 = key
      · subst hkey
        rw [if_pos rfl, valueOf?, valueOf?]
        split <;> rfl
      · rw [if_neg hkey, valueOf?, valueOf?, ih]
        by_cases hk : entry.1 = k
        · rw [if_pos hk, if_pos hk, if_neg (hk ▸ Ne.symm hkey)]
        · rw [if_neg hk, if_neg hk]

/-- A repeated key stands where it comes up first and has the value that it is given last. -/
theorem ofPairs_repeated (pairs : List (String × Sexp)) :
    (ofPairs pairs).map Prod.fst = (pairs.map Prod.fst).eraseDups ∧
      ∀ key, valueOf? key (ofPairs pairs) = valueOf? key pairs.reverse := by
  induction pairs using List.reverseRecOn with
  | nil => exact ⟨rfl, fun _ => rfl⟩
  | append_singleton pairs pair ih =>
      obtain ⟨hkeys, hvalues⟩ := ih
      have hput : ofPairs (pairs ++ [pair]) = put pair.1 pair.2 (ofPairs pairs) := by
        rw [ofPairs, List.foldl_append]
        rfl
      constructor
      · rw [hput, keys_put, hkeys, List.map_append, List.eraseDups_append]
        by_cases hkey : pair.1 ∈ pairs.map Prod.fst
        · simp [List.removeAll, hkey]
        · simp [List.removeAll, hkey, List.eraseDups_cons]
      · intro key
        rw [hput, valueOf?_put, hvalues, List.reverse_append, List.reverse_singleton,
          List.singleton_append, valueOf?]

example : (parse "\x7b:a 1 :b 2 :a 3\x7d".toList).toOption.map render =
    some "\x7b:a 3 :b 2\x7d".toList := by
  decide +kernel

/-! ## Results -/

section Results

variable {ε α β : Type} {x : Except ε α} {f : α → β} {b : β} {e : ε}

/-- A mapped result is a result. -/
theorem map_eq_ok : x.map f = .ok b ↔ ∃ a, x = .ok a ∧ f a = b := by
  cases x with
  | error e => exact ⟨fun h => (nomatch h), fun ⟨_, h, _⟩ => (nomatch h)⟩
  | ok a => exact ⟨fun h => ⟨a, rfl, Except.ok.inj h⟩, fun ⟨_, h, hf⟩ => by cases h; rw [← hf]; rfl⟩

/-- A mapped error is that error. -/
theorem map_eq_error : x.map f = .error e ↔ x = .error e := by
  cases x with
  | error e' =>
      exact ⟨fun h => congrArg _ (Except.error.inj h), fun h => congrArg _ (Except.error.inj h)⟩
  | ok a => exact ⟨fun h => (nomatch h), fun h => (nomatch h)⟩

end Results

/-! ## Escapes -/

/-- Legal escapes are resolved to what they stand for. -/
theorem unescape_of_standsFor (h : StandsFor cs ds) (offset : Nat) :
    unescape offset cs = .ok ds := by
  induction h generalizing offset with
  | nil => rfl
  | plain hc _ ih =>
      rw [unescape_cons hc, ih]
      rfl
  | @escape c d cs ds hmem _ ih =>
      have hletter : unescape offset ('\\' :: c :: cs)
          = (unescape (offset + 2) cs).map (d :: ·) := by
        simp only [escapes, List.mem_cons, Prod.mk.injEq, List.not_mem_nil, or_false] at hmem
        rcases hmem with ⟨rfl, rfl⟩ | ⟨rfl, rfl⟩ | ⟨rfl, rfl⟩ | ⟨rfl, rfl⟩ | ⟨rfl, rfl⟩
        all_goals rfl
      rw [hletter, ih]
      rfl
  | octal hall _ ih =>
      simp only [unescape, hall, if_true, ih]
      rfl

/-- The text closes before the quote behind it, so that no backslash at its end takes that quote. -/
def Closed (cs : List Char) : Prop := quotedBody (cs ++ ['"']) = (cs, true)

/-- The text closes without its first character. -/
theorem Closed.tail {c : Char} (h : Closed (c :: cs)) (hc : c ≠ '\\') : Closed cs := by
  have hquote : c ≠ '"' := by
    rintro rfl
    exact nomatch (Prod.mk.inj h).1
  rw [Closed, List.cons_append, quotedBody_cons hquote hc] at h
  exact Prod.ext (List.cons.inj (Prod.mk.inj h).1).2 (Prod.mk.inj h).2

theorem Closed.tail_escape {c : Char} (h : Closed ('\\' :: c :: cs)) : Closed cs := by
  have hc : c ≠ '\n' := by
    rintro rfl
    exact nomatch (Prod.mk.inj h).1
  rw [Closed, List.cons_append, List.cons_append, quotedBody_escape hc] at h
  exact Prod.ext (List.cons.inj (List.cons.inj (Prod.mk.inj h).1).2).2 (Prod.mk.inj h).2

/-- What can be resolved has legal escapes alone. -/
theorem standsFor_of_unescape (hclosed : Closed cs) (h : unescape offset cs = .ok ds) :
    StandsFor cs ds := by
  fun_induction unescape offset cs generalizing ds with
  | case1 =>
    obtain rfl := Except.ok.inj h
    exact .nil
  | case2 => exact absurd (Prod.mk.inj hclosed).2 Bool.false_ne_true
  | case3 offset a b c cs hall ih =>
    obtain ⟨ds, hds, rfl⟩ := map_eq_ok.1 h
    obtain ⟨ha, hb, hc, -⟩ : Number.isOctalDigit a ∧ Number.isOctalDigit b ∧
        Number.isOctalDigit c ∧ True := by simpa [and_assoc] using hall
    have hrest : Closed cs := ((hclosed.tail_escape.tail (octalDigit_ne ha).2).tail
      (octalDigit_ne hb).2).tail (octalDigit_ne hc).2
    exact .octal hall (ih hrest hds)
  | case4 => exact nomatch h
  | case5 => exact nomatch h
  | case6 offset c cs ho decoded d hd =>
    rename_i ih
    obtain ⟨ds, hds, rfl⟩ := map_eq_ok.1 h
    refine .escape ?_ (ih hclosed.tail_escape hds)
    unfold decoded at hd
    split at hd
    case h_6 => cases hd
    all_goals
      obtain rfl := Option.some.inj hd
      decide
  | case7 => cases h
  | case8 offset c cs hlone hoctal hescape ih =>
    obtain ⟨ds, hds, rfl⟩ := map_eq_ok.1 h
    have hslash := ne_backslash hlone hescape
    exact .plain hslash (ih (hclosed.tail hslash) hds)

/-- What is wrong with a text in quotes is an escape, which stands in it. -/
theorem offset_of_unescape {e : Error} (h : unescape offset cs = .error e) :
    ∃ spelling, e.problem = .escape spelling ∧ e.offset ≤ offset + byteLength cs := by
  fun_induction unescape offset cs with
  | case1 => exact nomatch h
  | case2 => exact nomatch h
  | case3 offset a b c cs hall ih =>
    obtain ⟨spelling, hproblem, hoffset⟩ := ih (map_eq_error.1 h)
    refine ⟨spelling, hproblem, Nat.le_trans hoffset ?_⟩
    have hpos : 1 ≤ a.utf8Size ∧ 1 ≤ b.utf8Size ∧ 1 ≤ c.utf8Size :=
      ⟨a.utf8Size_pos, b.utf8Size_pos, c.utf8Size_pos⟩
    have hmark : '\\'.utf8Size = 1 ∧ 'o'.utf8Size = 1 := by decide
    simp only [byteLength]
    omega
  | case6 offset c cs ho decoded d hd =>
    rename_i ih
    obtain ⟨spelling, hproblem, hoffset⟩ := ih (map_eq_error.1 h)
    refine ⟨spelling, hproblem, Nat.le_trans hoffset ?_⟩
    have hpos : 1 ≤ c.utf8Size := c.utf8Size_pos
    have hmark : '\\'.utf8Size = 1 := by decide
    simp only [byteLength]
    omega
  | case8 offset c cs _ _ _ ih =>
    obtain ⟨spelling, hproblem, hoffset⟩ := ih (map_eq_error.1 h)
    exact ⟨spelling, hproblem, by rwa [byteLength, ← Nat.add_assoc]⟩
  | _ =>
    obtain rfl := Except.error.inj h
    exact ⟨_, rfl, Nat.le_add_right _ _⟩

/-! ## Lexemes -/

/-- The text has the spelling of the kind. -/
def Lexeme.Spelled (l : Lexeme) : Prop := l.text ∈ (Rule.lexeme l.kind).pattern

/-- The text between quotes is read from its lexeme. -/
theorem quotedText_of_quotes {opening : List Char} (h : Quotes opening l.text s) :
    quotedText l opening.length = .ok s := by
  obtain ⟨body, ds, htext, hds, rfl⟩ := h
  rw [quotedText, htext, List.drop_left, List.dropLast_concat, unescape_of_standsFor hds]
  rfl

/-- What is read from a lexeme stands between its quotes. -/
theorem quotes_of_quotedText {opening : List Char} (htext : l.text ∈ quotedPattern opening)
    (h : quotedText l opening.length = .ok s) : Quotes opening l.text s := by
  obtain ⟨body, hbody, htext⟩ := mem_quotedPattern.1 htext
  rw [quotedText, htext, List.drop_left, List.dropLast_concat] at h
  obtain ⟨ds, hds, rfl⟩ := map_eq_ok.1 h
  exact ⟨body, ds, htext, standsFor_of_unescape (quotedBody_of_mem hbody) hds, rfl⟩

/-- A symbol is read from its lexeme. -/
theorem symbolText?_of_symbol (h : l.Symbol s) : symbolText? l = some (.ok s) := by
  unfold symbolText?
  cases h with
  | bare hk => rcases hk with hk | hk <;> rw [hk]
  | quotedSymbol hk hq => rw [hk]; exact congrArg some (quotedText_of_quotes hq)
  | quotedKeyword hk hq =>
      rw [hk]
      exact congrArg (fun r => some (Except.map _ r)) (quotedText_of_quotes hq)

/-- What is read as a symbol is one. -/
theorem symbol_of_symbolText? (hl : l.Spelled) (h : symbolText? l = some (.ok s)) : l.Symbol s := by
  unfold symbolText? at h
  rw [Lexeme.Spelled] at hl
  split at h
  next hk =>
    obtain rfl := Except.ok.inj (Option.some.inj h)
    exact .bare (.inl hk)
  next hk =>
    obtain rfl := Except.ok.inj (Option.some.inj h)
    exact .bare (.inr hk)
  next hk =>
    rw [hk] at hl
    exact .quotedSymbol hk (quotes_of_quotedText hl (Option.some.inj h))
  next hk =>
    rw [hk] at hl
    obtain ⟨s, hs, rfl⟩ := map_eq_ok.1 (Option.some.inj h)
    exact .quotedKeyword hk (quotes_of_quotedText hl hs)
  next => exact nomatch h

/-- A key is read from its lexeme. -/
theorem keyText?_of_key (h : l.Key s) : keyText? l = some (.ok s) := by
  unfold keyText?
  cases h with
  | bare hk htext => rw [hk, htext]; rfl
  | quoted hk hq => rw [hk]; exact congrArg some (quotedText_of_quotes hq)

/-- What is read as a key is one. -/
theorem key_of_keyText? (hl : l.Spelled) (h : keyText? l = some (.ok s)) : l.Key s := by
  unfold keyText? at h
  rw [Lexeme.Spelled] at hl
  split at h
  next hk =>
    rw [hk] at hl
    obtain ⟨c, name, htext, hc, -⟩ := Token.mem_one_mul.1 hl
    obtain rfl := of_decide_eq_true hc
    rw [htext] at h
    obtain rfl := Except.ok.inj (Option.some.inj h)
    exact .bare hk htext
  next hk =>
    rw [hk] at hl
    exact .quoted hk (quotes_of_quotedText hl (Option.some.inj h))
  next => exact nomatch h

/-- An integer has 64 bits when it lies between the bounds. -/
theorem ofInt_of_bounds {valid : Bool} {z : Int} {i : Int64} :
    (if valid && decide (-(Number.integerBound : Int) ≤ z) && decide (z < Number.integerBound) then
      some (Int64.ofInt z) else none) = some i ↔ valid ∧ z = i.toInt := by
  constructor
  · intro h
    split at h
    next hbounds =>
      obtain ⟨hfirst, hhigh⟩ := Bool.and_eq_true_iff.1 hbounds
      obtain ⟨hvalid, hlow⟩ := Bool.and_eq_true_iff.1 hfirst
      have hvalue := Int64.toInt_ofInt_of_le (of_decide_eq_true hlow) (of_decide_eq_true hhigh)
      exact ⟨hvalid, by rw [← Option.some.inj h, hvalue]⟩
    next => exact nomatch h
  · rintro ⟨hvalid, rfl⟩
    have hlow : decide (-(Number.integerBound : Int) ≤ i.toInt) = true := decide_eq_true i.le_toInt
    have hhigh : decide (i.toInt < Number.integerBound) = true := decide_eq_true i.toInt_lt
    rw [hvalid, hlow, hhigh, Int64.ofInt_toInt]
    rfl

/-- The integers that are read are those of 64 bits. -/
theorem int64OfText?_eq_some {i : Int64} : int64OfText? cs = some i ↔ Integer cs i.toInt := by
  unfold int64OfText?
  split
  next negative ds heq =>
    refine ofInt_of_bounds.trans ?_
    split at heq
    next ds' =>
      obtain ⟨rfl, rfl⟩ := Prod.mk.inj heq
      rw [if_pos rfl]
      constructor
      · rintro ⟨hall, hi⟩
        exact hi ▸ .minus hall
      · intro h
        generalize i.toInt = z at h
        cases h with
        | digits hall => exact absurd hall Bool.false_ne_true
        | minus hall => exact ⟨hall, rfl⟩
    next hsign =>
      obtain ⟨rfl, rfl⟩ := Prod.mk.inj heq
      rw [if_neg Bool.false_ne_true]
      constructor
      · rintro ⟨hall, hi⟩
        exact hi ▸ .digits hall
      · intro h
        generalize i.toInt = z at h
        cases h with
        | digits hall => exact ⟨hall, rfl⟩
        | minus hall => exact absurd rfl (hsign _)

/-- A scalar is read from its lexeme. -/
theorem scalar_of_scalar (h : l.Scalar v) : scalar l = .ok v := by
  cases h with
  | nil hk => rw [scalar, hk]
  | bool hk => rw [scalar, hk]
  | int hk hi => rw [scalar, hk, intValue, int64OfText?_eq_some.2 hi]
  | float hk hx hfinite => simp only [scalar, hk, floatValue, hx, hfinite, if_true]
  | str hk hq =>
      have htext := quotedText_of_quotes hq
      rw [scalar, hk]
      exact congrArg (Except.map Sexp.str) htext
  | sym hs => exact scalar_of_symbolText? (symbolText?_of_symbol hs)

/-- What is read as a scalar is one. -/
theorem scalar_of_eq_ok (hl : l.Spelled) (h : scalar l = .ok v) : l.Scalar v := by
  unfold scalar at h
  split at h
  next hk =>
    rw [Lexeme.Spelled, hk] at hl
    obtain ⟨s, hs, rfl⟩ := map_eq_ok.1 h
    exact .str hk (quotes_of_quotedText hl hs)
  next hk =>
    unfold intValue at h
    split at h
    next i hi =>
      obtain rfl := Except.ok.inj h
      exact .int hk (int64OfText?_eq_some.1 hi)
    next => exact nomatch h
  next hk =>
    unfold floatValue at h
    split at h
    next x hx =>
      split at h
      next hfinite =>
        obtain rfl := Except.ok.inj h
        exact .float hk hx hfinite
      next => exact nomatch h
    next => exact nomatch h
  next b hk =>
    obtain rfl := Except.ok.inj h
    exact .bool hk
  next hk =>
    obtain rfl := Except.ok.inj h
    exact .nil hk
  next =>
    split at h
    next text htext =>
      obtain ⟨s, rfl, rfl⟩ := map_eq_ok.1 h
      exact .sym (symbol_of_symbolText? hl htext)
    next => exact nomatch h

end Manifest.Sexp
