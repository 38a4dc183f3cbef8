import Manifest.Proofs.Literal.Positional
import Manifest.Proofs.Quote.Run

/-!
# Text written with escapes

A character of text may be written as it is, by a letter behind a backslash, or by its number, and a
line of the text may be continued behind a backslash. Each character is written on its own, and
however that is done, the text is read back.

* `Spells` — the ways to write a character.
* `Writes` — a text whose characters are written one after another.
* `Writes.collect` — what is collected from a written text.
-/

namespace Manifest.Quote

open Number (HexNumeral)
open Text (byteLength byteLength_append byteLength_eq_length)

variable {set : EscapeSet} {allowed : Char → Prop} {quote? : Option Char} {mode : Mode}
  {c letter : Char} {cs ds es digits : List Char} {n : Nat}

/-- The letters that write a character behind a backslash, and that character. -/
def shortEscapes : List (Char × Char) :=
  [('\\', '\\'), ('$', '$'), ('\'', '\''), ('"', '"'), ('r', '\r'), ('n', '\n'), ('t', '\t'),
    ('s', ' ')]

/-- The characters write `c` in a text in which backslashes may stand before some letters and a
quote, if there is one, has to be protected. -/
inductive Spells (allowed : Char → Prop) (quote? : Option Char) (c : Char) : List Char → Prop
  | raw (hbackslash : c ≠ '\\') (hdollar : c ≠ '$') (hquote : quote? ≠ some c) :
      Spells allowed quote? c [c]
  | short {letter : Char} (hset : allowed letter) (h : (letter, c) ∈ shortEscapes) :
      Spells allowed quote? c ['\\', letter]
  /-- four digits -/
  | four {digits : List Char} (hset : allowed 'u') (hlength : digits.length = 4)
      (h : HexNumeral c.toNat digits) : Spells allowed quote? c ('\\' :: 'u' :: digits)
  /-- up to six digits in braces -/
  | braces {digits : List Char} (hset : allowed 'u') (hlength : digits.length ≤ 6)
      (h : HexNumeral c.toNat digits) :
      Spells allowed quote? c ('\\' :: 'u' :: '{' :: digits ++ ['}'])

/-- The characters `ds` write the text `cs`: each of its characters in some way, and backslashes
before the ends of lines between them. -/
inductive Writes (allowed : Char → Prop) (quote? : Option Char) : List Char → List Char → Prop
  | nil : Writes allowed quote? [] []
  | char {c : Char} {cs ds es : List Char} (h : Spells allowed quote? c ds)
      (hrest : Writes allowed quote? cs es) : Writes allowed quote? (c :: cs) (ds ++ es)
  | continued {cs ds es : List Char} (hset : allowed '\n')
      (h : ds = ['\\', '\n'] ∨ ds = ['\\', '\r', '\n']) (hrest : Writes allowed quote? cs es) :
      Writes allowed quote? cs (ds ++ es)

/-- In double quotes all escapes have a meaning. -/
theorem Spells.between_quotes (h : Spells allowed quote? c ds) :
    Spells (EscapeSet.doubleQuoted.allows ·) quote? c ds := by
  have hshort : (shortEscapes.map Prod.fst).all EscapeSet.doubleQuoted.allows := by decide
  cases h with
  | raw hbackslash hdollar hquote => exact .raw hbackslash hdollar hquote
  | short _ h => exact .short (List.all_eq_true.1 hshort _ (List.mem_map.2 ⟨_, h, rfl⟩)) h
  | four _ hlength h => exact .four (allows_doubleQuoted_iff.2 (by decide)) hlength h
  | braces _ hlength h => exact .braces (allows_doubleQuoted_iff.2 (by decide)) hlength h

/-- What is written between double quotes, with any escapes. -/
theorem Writes.between_quotes (h : Writes allowed quote? cs ds) :
    Writes (EscapeSet.doubleQuoted.allows ·) quote? cs ds := by
  induction h with
  | nil => exact .nil
  | char h _ ih => exact .char h.between_quotes ih
  | continued _ h _ ih => exact .continued (allows_doubleQuoted_iff.2 (by decide)) h ih

/-- What is written, in double quotes. -/
def doubleQuoted (ds : List Char) : List Char := '"' :: (ds ++ ['"'])

theorem byteLength_doubleQuoted (ds : List Char) :
    byteLength (doubleQuoted ds) = byteLength ds + 2 := by
  show 1 + byteLength (ds ++ ['"']) = byteLength ds + 2
  rw [byteLength_append, Nat.add_comm]
  rfl

/-! ## Characters by their numbers -/

/-- A character is found by its number. -/
theorem charOfNat?_toNat (c : Char) : charOfNat? c.toNat = some c := by
  have hvalid : c.toNat.isValidChar := c.valid
  rw [charOfNat?, if_pos hvalid, Char.ofNat_toNat]

/-- Four digits write the character with their number. -/
theorem unicodeEscape?_four (hlength : digits.length = 4) (h : HexNumeral c.toNat digits)
    (rest : List Char) : unicodeEscape? (digits ++ rest) = some (c, 4) := by
  have hdigits := h.digits
  obtain ⟨d, ds, rfl⟩ := List.exists_cons_of_ne_nil h.ne_nil
  have hbrace : d ≠ '{' := by
    rintro rfl
    exact absurd (hdigits _ List.mem_cons_self) (by decide)
  have htake : ((d :: ds) ++ rest).take 4 = d :: ds := List.take_left' hlength
  unfold unicodeEscape?
  split
  next cs heq => exact absurd (List.cons.inj heq).1 hbrace
  next =>
    dsimp only
    rw [htake, if_pos (by rw [hlength, List.all_eq_true.2 hdigits]; rfl), h.value, charOfNat?_toNat]
    rfl

/-- Up to six digits in braces write the character with their number. -/
theorem unicodeEscape?_braces (hlength : digits.length ≤ 6) (h : HexNumeral c.toNat digits)
    (rest : List Char) :
    unicodeEscape? ('{' :: digits ++ '}' :: rest) = some (c, digits.length + 2) := by
  have htake : (digits ++ '}' :: rest).takeWhile Number.isHexDigit = digits := by
    rw [List.takeWhile_append_of_pos h.digits, List.takeWhile_cons, if_neg (by decide),
      List.append_nil]
  have hpos : 1 ≤ digits.length := List.length_pos_iff.2 h.ne_nil
  rw [List.cons_append, unicodeEscape?, htake, List.drop_left, if_pos (by simp [hpos, hlength]),
    h.value, charOfNat?_toNat]
  rfl

/-- Digits take one byte each. -/
theorem byteLength_hexNumeral (h : HexNumeral n digits) : byteLength digits = digits.length :=
  byteLength_eq_length fun d hd => utf8Size_of_isHexDigit (h.digits d hd)

/-! ## Collecting -/

theorem Collected.push_push (r : Collected) (cs ds : List Char) :
    (r.push ds).push cs = r.push (cs ++ ds) := by
  obtain ⟨unknown, run⟩ := r
  cases run with
  | error fault => rfl
  | ok run =>
      show (⟨unknown, .ok ⟨cs ++ (ds ++ run.text), _, _⟩⟩ : Collected) = ⟨unknown, .ok ⟨_, _, _⟩⟩
      rw [List.append_assoc]

theorem Collected.push_nil (r : Collected) : r.push [] = r := by
  obtain ⟨unknown, run⟩ := r
  cases run with
  | error fault => rfl
  | ok run => rfl

/-- A character that is neither a backslash, a quote nor a dollar sign stands for itself. -/
theorem collect_raw (hbackslash : c ≠ '\\') (hdollar : c ≠ '$') (hquote : mode.quote? ≠ some c)
    (offset : Nat) (rest : List Char) : collect mode set offset (c :: rest)
      = (collect mode set (offset + c.utf8Size) rest).push [c] := by
  rw [collect, if_neg hquote, if_neg (by simp [hdollar])]
  · exact fun h => absurd h hbackslash
  · exact fun _ h => absurd h hbackslash
  · exact fun _ _ h => absurd h hbackslash

/-- A letter behind a backslash stands for its character. -/
theorem collect_short (hmode : mode ≠ .rawText) (hset : set.allows letter)
    (h : (letter, c) ∈ shortEscapes) (offset : Nat) (rest : List Char) :
    collect mode set offset ('\\' :: letter :: rest)
      = (collect mode set (offset + 2) rest).push [c] := by
  have hletter : letter ≠ 'u' ∧ letter ≠ '\n' ∧ letter ≠ '\r' ∧ meaning letter = c := by
    revert h
    simp only [shortEscapes, List.mem_cons, Prod.mk.injEq, List.not_mem_nil, or_false]
    rintro (⟨rfl, rfl⟩ | ⟨rfl, rfl⟩ | ⟨rfl, rfl⟩ | ⟨rfl, rfl⟩ | ⟨rfl, rfl⟩ | ⟨rfl, rfl⟩ |
      ⟨rfl, rfl⟩ | ⟨rfl, rfl⟩) <;> decide
  obtain ⟨hu, hbreak, hreturn, hmeaning⟩ := hletter
  rw [collect, if_neg (by simp [hmode]), if_neg (by simp [hset]), if_neg hu, if_neg hbreak,
    hmeaning]
  exact fun _ h => absurd h hreturn

/-- Digits behind `\u` stand for the character with that number. -/
theorem collect_unicode (hset : set.allows 'u') (h : unicodeEscape? (digits ++ es) = some (c, n))
    (hlength : digits.length = n) (offset : Nat) :
    collect mode set offset ('\\' :: 'u' :: (digits ++ es))
      = (collect mode set (offset + (2 + n)) es).push [c] := by
  rw [collect, if_neg (by simp), if_neg (by simp [hset]), if_pos rfl, h]
  · dsimp only
    rw [← hlength, List.drop_left, Nat.add_assoc]
  · exact fun _ h => absurd h (by decide)

/-- What writes a character is read as that character. -/
theorem Spells.collect (h : Spells (set.allows ·) mode.quote? c ds)
    (hmode : mode ≠ .rawText) (offset : Nat) (rest : List Char) :
    Quote.collect mode set offset (ds ++ rest)
      = (Quote.collect mode set (offset + byteLength ds) rest).push [c] := by
  cases h with
  | raw hbackslash hdollar hquote => exact collect_raw hbackslash hdollar hquote offset rest
  | @short letter hset h =>
      rw [byteLength_escape hset]
      exact collect_short hmode hset h offset rest
  | @four digits hset hlength h =>
      rw [byteLength_unicodeEscape ((byteLength_hexNumeral h).trans hlength)]
      exact collect_unicode hset (unicodeEscape?_four hlength h rest) hlength offset
  | @braces digits hset hlength h =>
      have hdigits : unicodeEscape? (('{' :: digits ++ ['}']) ++ rest)
          = some (c, digits.length + 2) := by
        rw [List.append_assoc]
        exact unicodeEscape?_braces hlength h rest
      have hsize : byteLength ('\\' :: 'u' :: '{' :: digits ++ ['}']) = 2 + (digits.length + 2) :=
        byteLength_unicodeEscape (byteLength_braces (byteLength_hexNumeral h))
      rw [hsize]
      exact collect_unicode hset hdigits (by simp) offset

/-- What is written stands in front of what is collected behind it, and no escape in it goes without
a meaning. -/
theorem Writes.collect (h : Writes (set.allows ·) mode.quote? cs ds)
    (hmode : mode ≠ .rawText) (offset : Nat) (rest : List Char) :
    Quote.collect mode set offset (ds ++ rest)
      = (Quote.collect mode set (offset + byteLength ds) rest).push cs := by
  induction h generalizing offset with
  | nil => exact (Collected.push_nil _).symm
  | @char c cs ds es h _ ih =>
      rw [List.append_assoc, h.collect hmode, ih, Collected.push_push, byteLength_append,
        Nat.add_assoc]
      rfl
  | @continued cs ds es hset h _ ih =>
      have hcontinued : Quote.collect mode set offset (ds ++ (es ++ rest))
          = Quote.collect mode set (offset + byteLength ds) (es ++ rest) := by
        rcases h with rfl | rfl
        · show Quote.collect mode set offset ('\\' :: '\n' :: (es ++ rest)) = _
          rw [Quote.collect, if_neg (by simp), if_neg (by simp [hset]), if_neg (by decide),
            if_pos rfl]
          · rfl
          · exact fun _ h => absurd h (by decide)
        · show Quote.collect mode set offset ('\\' :: '\r' :: '\n' :: (es ++ rest)) = _
          rw [Quote.collect, if_pos hset]
          rfl
      rw [List.append_assoc, hcontinued, ih, byteLength_append, Nat.add_assoc]

end Manifest.Quote
