import Manifest.Proofs.Scan.Invariant
import Manifest.Proofs.Scan.Kinds
import Manifest.Proofs.Scan.Line

/-!
# Parentheses and their lines

A parenthesis that opens is told by what stands before it on its line: white space alone, or
something else. The line is the one of the text that is scanned, which for the tokens of a here-doc
is its body.

* `ParenIn` — a token is the parenthesis that its line makes it.
* `takeParen_spec` — the rule for parentheses tells them by their lines.
* `parens_invariant` — so do all scans.
-/

namespace Manifest.Scan

open Text (Source StartsLine byteLength byteLength_append)
open Token (Mark)

variable {s s₀ s₁ s' : State} {source : Source} {text cs ds scanned : List Char} {t u : Token}
  {ts us : List Token} {o : Opening} {m : Mark} {found : OpenHereDoc}

/-! ## Parentheses in a text -/

/-- The kinds of parentheses that open. -/
def isParen : Token.Kind → Bool
  | .mark .openParen | .mark .lineParen => true
  | _ => false

/-- A parenthesis of the text begins the token, and the kind of the token tells whether white space
alone stands before it on its line. -/
def ParenIn (text : List Char) (t : Token) : Prop :=
  ∃ before line rest, text = before ++ line ++ '(' :: rest ∧ StartsLine before ∧ '\n' ∉ line ∧
    t.range.start = byteLength (before ++ line) ∧ (t.kind = .mark .lineParen ↔ line.all isBlank)

/-- A text of which a token among others was read: the one that is scanned, or the body of a
here-doc among them. -/
inductive ReadIn (source : Source) (text : List Char) (ts : List Token) (t : Token) :
    List Char → Prop
  | text (h : t.source = source) : ReadIn source text ts t text
  | body {u : Token} {b : Token.Body} (hu : u ∈ ts) (hkind : u.kind = .hereDocBody)
      (hvalue : u.value = .body b) (h : t.source = .excerpt b.excerpt) :
      ReadIn source text ts t b.excerpt.body.text

/-- Every parenthesis among the tokens is the one that its line makes it. -/
def Parens (source : Source) (text : List Char) (ts : List Token) : Prop :=
  ∀ t ∈ ts, isParen t.kind → ∃ scanned, ReadIn source text ts t scanned ∧ ParenIn scanned t

/-- The last line of a text. -/
theorem exists_lastLine (cs : List Char) :
    ∃ front line, cs = front ++ line ∧ '\n' ∉ line ∧
      (front = [] ∨ ∃ body, front = body ++ ['\n']) := by
  induction cs with
  | nil => exact ⟨[], [], rfl, List.not_mem_nil, .inl rfl⟩
  | cons c cs ih =>
      obtain ⟨front, line, rfl, hline, hfront⟩ := ih
      rcases hfront with rfl | ⟨body, rfl⟩
      · by_cases hc : c = '\n'
        · exact ⟨[c], line, rfl, hline, .inr ⟨[], by rw [hc]; rfl⟩⟩
        · exact ⟨[], c :: line, rfl, List.not_mem_cons_of_ne_of_not_mem (Ne.symm hc) hline,
            .inl rfl⟩
      · exact ⟨c :: (body ++ ['\n']), line, rfl, hline, .inr ⟨c :: body, rfl⟩⟩

/-- What stands between the line that was noted and the cursor says of white space what the line of
the cursor says. -/
theorem Marked.all_isBlank_iff (hmarked : Marked ds) {front line : List Char}
    (hsplit : ds = front ++ line) (hfront : front = [] ∨ ∃ body, front = body ++ ['\n']) :
    ds.all isBlank ↔ line.all isBlank := by
  rcases hfront with rfl | ⟨body, rfl⟩
  · rw [hsplit, List.nil_append]
  · have hline := hmarked line ⟨body, by rw [hsplit, List.append_assoc]; rfl⟩
    rw [hsplit, List.all_append, hline, Bool.and_false]

/-- A parenthesis at the cursor is told by its line. -/
theorem takeParen_spec (hlined : s.Lined) (hat : s.At ('(' :: cs)) (h : takeParen s = .ok ts s') :
    ∀ t ∈ ts, t.source = s.source ∧ ParenIn s.text t := by
  rcases hlined with hend | ⟨before, since, rest, htext, hbefore, hpos, hstart, hmarked⟩
  · exact absurd (hat.atEnd_iff.1 hend) (List.cons_ne_nil _ _)
  have hat' : s.At rest := ⟨before ++ since, htext, hpos⟩
  obtain rfl : rest = '(' :: cs := hat'.rest.symm.trans hat.rest
  have hslice : Text.slice s.text (min s.lineStart s.pos) s.pos = since := by
    have hle : s.lineStart ≤ s.pos := by
      rw [hbefore, hpos, byteLength_append]
      exact Nat.le_add_right _ _
    rw [Nat.min_eq_left hle, hbefore, hpos, byteLength_append, htext, Text.slice_byteLength]
  rw [takeParen_eq, hslice] at h
  obtain ⟨rfl, -⟩ := EStateM.Result.ok.inj h
  refine List.forall_mem_singleton.2 ⟨rfl, ?_⟩
  obtain ⟨front, line, rfl, hline, hfront⟩ := exists_lastLine since
  refine ⟨before ++ front, line, cs, ?_, ?_, hline, ?_, ?_⟩
  · rw [htext]
    simp only [List.append_assoc]
  · rcases hfront with rfl | ⟨body, rfl⟩
    · rwa [List.append_nil]
    · rw [← List.append_assoc]
      exact Text.startsLine_concat _
  · rw [List.append_assoc]
    exact hpos
  · rw [← hmarked.all_isBlank_iff rfl hfront]
    show Token.Kind.mark (if (front ++ line).all isBlank then .lineParen else .openParen) = _ ↔ _
    split
    next hall => exact iff_of_true rfl hall
    next hall => exact iff_of_false nofun hall

/-! ## Other rules -/

/-- Plain marks are no parentheses. -/
theorem not_isParen_plainMarks : ∀ m ∈ plainMarks, isParen (.mark m) = false := by decide

/-- A property that the two kinds of parentheses do not have is one of other kinds. -/
theorem not_isParen {p : Token.Kind → Bool} {kind : Token.Kind}
    (hopen : p (.mark .openParen) = false)
    (hline : p (.mark .lineParen) = false) (h : p kind) : isParen kind = false := by
  unfold isParen
  split
  · exact nomatch hopen.symm.trans h
  · exact nomatch hline.symm.trans h
  · rfl

/-- The token of a mark. -/
theorem kind_of_takeMark (h : takeMark m s = .ok ts s') : ∀ t ∈ ts, t.kind = .mark m := by
  obtain ⟨rfl, -⟩ := EStateM.Result.ok.inj h
  exact List.forall_mem_singleton.2 rfl

/-- No other rule gives such a parenthesis. -/
theorem takePlain_not_isParen (ho : opening? s.template.isSome s.rest = some o)
    (hparen : o ≠ .paren)
    (h : takePlain o s = .ok ts s') : ∀ t ∈ ts, isParen t.kind = false := by
  intro t ht
  have hgives := takePlain_gives h t ht
  cases o with
  | mark m =>
      rw [kind_of_takeMark h t ht]
      exact not_isParen_plainMarks m (mem_plainMarks_of_opening ho)
  | bracket =>
      rw [takePlain, takeBracket_eq] at h
      rw [kind_of_takeMark h t ht]
      split <;> rfl
  | paren => exact absurd rfl hparen
  | brace =>
      rw [takePlain, takeBrace_eq] at h
      rw [kind_of_takeMark h t ht]
      split <;> rfl
  | closeBrace =>
      rw [takePlain, takeCloseBrace_eq] at h
      rw [kind_of_takeMark h t ht]
      rfl
  | number => rw [hgives.1]; rfl
  | singleQuote | dollar | reference _ | separator | other _ =>
    rw [show t.kind = _ from hgives]; rfl
  | slash => rcases hgives with hkind | hkind <;> rw [hkind] <;> rfl
  | tagEnd trims => exact not_isParen (p := Token.Kind.isTemplate) rfl rfl hgives
  | word =>
      rcases hgives with hkind | hkind | hkind
      · rw [hkind]; rfl
      · rw [hkind]; rfl
      · exact not_isParen (p := Token.Kind.isKeyword) rfl rfl hkind
  | hereDoc | doubleQuote | lineComment | blockComment | newline | blank | foreignLetter _ =>
      exact hgives.elim

/-! ## All tokens -/

/-- More bodies can only add places where a token was read. -/
theorem ReadIn.mono (h : ReadIn source text ts t scanned)
    (hsub : ∀ u ∈ ts, u.kind = .hereDocBody → u ∈ us) : ReadIn source text us t scanned := by
  cases h with
  | text h => exact .text h
  | body hu hkind hvalue h => exact .body (hsub _ hu hkind) hkind hvalue h

/-- Tokens in a row. -/
theorem Parens.append (h : Parens source text ts) (h' : Parens source text us) :
    Parens source text (ts ++ us) := by
  intro t ht hparen
  rcases List.mem_append.1 ht with ht | ht
  · obtain ⟨scanned, hread, hin⟩ := h t ht hparen
    exact ⟨scanned, hread.mono fun u hu _ => List.mem_append_left _ hu, hin⟩
  · obtain ⟨scanned, hread, hin⟩ := h' t ht hparen
    exact ⟨scanned, hread.mono fun u hu _ => List.mem_append_right _ hu, hin⟩

/-- Tokens without parentheses. -/
theorem parens_of_not_isParen (h : ∀ t ∈ ts, isParen t.kind = false) : Parens source text ts :=
  fun t ht hparen => nomatch (h t ht).symm.trans hparen

/-- What becomes a variable is neither a parenthesis nor the body of a here-doc. -/
theorem Parens.named {value : Token.Value} (hnames : namesVariable t.kind)
    (h : Parens source text (t :: ts)) :
    Parens source text ({ t with kind := .variable, value } :: ts) := by
  intro u hu hparen
  rcases List.mem_cons.1 hu with rfl | hu
  · exact nomatch hparen
  · obtain ⟨scanned, hread, hin⟩ := h u (List.mem_cons_of_mem _ hu) hparen
    refine ⟨scanned, hread.mono ?_, hin⟩
    intro v hv hkind
    rcases List.mem_cons.1 hv with rfl | hv
    · rw [hkind] at hnames
      exact nomatch hnames
    · exact List.mem_cons_of_mem _ hv

/-- The tokens of a body are read in the text of the body. -/
theorem parens_hereDoc (h : Parens (.excerpt found.body.excerpt) found.body.excerpt.body.text ts) :
    Parens source text (found.tokens s ++ ts) := by
  intro t ht hparen
  have hintroduced : ∀ u ∈ found.tokens s, isParen u.kind = false :=
    List.forall_mem_cons.2 ⟨rfl, List.forall_mem_singleton.2 rfl⟩
  rcases List.mem_append.1 ht with ht | ht
  · exact nomatch (hintroduced t ht).symm.trans hparen
  · obtain ⟨scanned, hread, hin⟩ := h t ht hparen
    refine ⟨scanned, ?_, hin⟩
    cases hread with
    | text h =>
        have hbody : s.token .hereDocBody (.body found.body) found.bodyStart found.endLine
            ∈ found.tokens s ++ ts :=
          List.mem_append_left _ (List.mem_cons_of_mem _ List.mem_cons_self)
        exact .body hbody rfl rfl h
    | body hu hkind hvalue h => exact .body (List.mem_append_right _ hu) hkind hvalue h

/-- In every scan from the start of a line, the parentheses are those that their lines make them. -/
theorem parens_invariant :
    TokenInvariant fun s₀ ts => s₀.Placed → Parens s₀.source s₀.text ts where
  nil _ := parens_of_not_isParen (List.forall_mem_nil _)
  append h h' hplaced := (h hplaced).append (h' hplaced)
  frame := by
    intro s₀ t hframe _
    have hother : isParen t.kind = false := not_isParen rfl rfl hframe
    exact parens_of_not_isParen (List.forall_mem_singleton.2 hother)
  named hnames h hplaced := (h hplaced).named hnames
  plain := by
    intro s₀ s s' events o ts hsound hpath h hhereDoc hquote htake hplaced
    have hlasts := hpath.lasts hsound
    by_cases hparen : o = .paren
    · subst hparen
      obtain ⟨cs, hat, ho⟩ := at_of_opening hlasts.sound h
      obtain ⟨rest, rfl⟩ := opening?_begins ho
      intro t ht _
      obtain ⟨hsource, hin⟩ := takeParen_spec (hpath.placed hplaced).lined hat htake t ht
      rw [hlasts.source] at hsource
      rw [hlasts.text] at hin
      exact ⟨s₀.text, .text hsource, hin⟩
    · exact parens_of_not_isParen (takePlain_not_isParen h hparen htake)
  hereDoc := by
    intro s₀ s s₁ events cs found ts hsound hpath hat hfound hbody _
    exact parens_hereDoc (hbody (State.placed_start _ rfl rfl rfl))

end Manifest.Scan
