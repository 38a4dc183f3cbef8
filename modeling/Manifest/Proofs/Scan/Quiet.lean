import Manifest.Proofs.Scan.Opening
import Manifest.Proofs.Scan.Progress
import Manifest.Proofs.Token.Nesting

/-!
# Rules that open and close nothing

Most rules leave alone how many braces are open, and give tokens that belong to no pair. It is said
of a scanner at a state, and follows the scanner's text from one action to the next.

* `Quiet` — where the scanner succeeds, the text and the open braces stay what they are.
* `quiet_takePlain` — the rules that stand alone, but for those of the braces.
* `quiet_takeHereDoc` — the header of a here-doc.
-/

namespace Manifest.Scan

open Token (Mark)

variable {α β : Type} {s s' s₁ : State} {P : α → Prop} {Q : β → Prop} {x : Scanner α}
  {cs : List Char} {ts us : List Token} {t : Token} {o : Opening} {m : Mark}

/-- Where the scanner succeeds, it leaves the text and the number of open braces alone, and what it
gives satisfies `P`. -/
def Quiet (P : α → Prop) (x : Scanner α) (s : State) : Prop :=
  ∀ a s', x s = .ok a s' → s'.text = s.text ∧ s'.braceDepth = s.braceDepth ∧ P a

/-- No token belongs to a pair. -/
def Inert (ts : List Token) : Prop := ∀ t ∈ ts, t.kind.isInert

theorem inert_nil : Inert [] := List.forall_mem_nil _

/-- A token that begins and ends nothing, by itself. -/
theorem Inert.singleton (h : t.kind.isInert) : Inert [t] := List.forall_mem_singleton.2 h

/-- Inert tokens in a row. -/
theorem Inert.append (h : Inert ts) (h' : Inert us) : Inert (ts ++ us) :=
  List.forall_mem_append.2 ⟨h, h'⟩

theorem Inert.ite {p : Prop} [Decidable p] (h : Inert ts) (h' : Inert us) :
    Inert (if p then ts else us) := by
  split
  · exact h
  · exact h'

/-! ## Actions -/

/-- A result that is given at once. -/
theorem quiet_pure {a : α} (h : P a) : Quiet P (pure a) s := by
  intro b s' hok
  obtain ⟨rfl, rfl⟩ := EStateM.Result.ok.inj hok
  exact ⟨rfl, rfl, h⟩

theorem quiet_fail (p : Problem) (offset : Nat) : Quiet P (fail p offset) s := fun _ _ => nofun

theorem quiet_get {f : State → Scanner α} (h : Quiet P (f s) s) : Quiet P (get >>= f) s := h

theorem quiet_modifyGet {f : State → α × State} (htext : (f s).2.text = s.text)
    (hdepth : (f s).2.braceDepth = s.braceDepth) (h : P (f s).1) : Quiet P (modifyGet f) s := by
  intro a s' hok
  obtain ⟨rfl, rfl⟩ := EStateM.Result.ok.inj hok
  exact ⟨htext, hdepth, h⟩

theorem quiet_set {f : PUnit → Scanner α} (htext : s₁.text = s.text)
    (hdepth : s₁.braceDepth = s.braceDepth) (h : Quiet P (f ⟨⟩) s₁) :
    Quiet P (set s₁ >>= f) s := by
  intro a s' hok
  obtain ⟨htext', hdepth', ha⟩ := h a s' hok
  exact ⟨htext'.trans htext, hdepth'.trans hdepth, ha⟩

/-- Quiet rules follow one another. -/
theorem quiet_bind {f : α → Scanner β} (hx : Quiet P x s)
    (hf : ∀ a s₁, P a → Quiet Q (f a) s₁) : Quiet Q (x >>= f) s := by
  intro b s' hok
  obtain ⟨a, s₁, ha, hok⟩ := bind_eq_ok hok
  obtain ⟨htext, hdepth, hgives⟩ := hx a s₁ ha
  obtain ⟨htext', hdepth', hb⟩ := hf a s₁ hgives b s' hok
  exact ⟨htext'.trans htext, hdepth'.trans hdepth, hb⟩

/-- A choice between quiet rules is quiet. -/
theorem quiet_ite {p : Prop} [Decidable p] {y : Scanner α} (hx : Quiet P x s)
    (hy : Quiet P y s) : Quiet P (if p then x else y) s := by
  split
  · exact hx
  · exact hy

/-! ## Rules -/

/-- A mark that begins and ends nothing. -/
theorem quiet_takeMark (h : Token.Kind.isInert (.mark m)) : Quiet Inert (takeMark m) s :=
  quiet_modifyGet rfl rfl (.singleton h)

theorem quiet_takeText {kind : Token.Kind} {spelling text : List Char} (h : kind.isInert) :
    Quiet Inert (takeText kind spelling text) s :=
  quiet_modifyGet rfl rfl (.singleton h)

theorem quiet_skip {spelling : List Char} : Quiet Inert (skip spelling) s :=
  quiet_modifyGet rfl rfl inert_nil

theorem quiet_takeBracket : Quiet Inert takeBracket s := by
  refine quiet_get ?_
  dsimp only
  split
  · exact quiet_takeMark rfl
  · exact quiet_takeMark rfl

theorem quiet_takeParen : Quiet Inert takeParen s := by
  refine quiet_get ?_
  dsimp only
  split
  · exact quiet_takeMark rfl
  · exact quiet_takeMark rfl

theorem quiet_takeComment : Quiet Inert takeComment s := by
  refine quiet_get ?_
  cases Text.findOffset (['*', '/'].isPrefixOf ·) (s.pos + 2) (s.rest.drop 2) with
  | some offset => exact quiet_set rfl rfl (quiet_pure inert_nil)
  | none => exact quiet_fail _ _

theorem quiet_takeSlash : Quiet Inert takeSlash s := by
  refine quiet_get ?_
  dsimp only
  cases (if s.after.all Token.Kind.allowsRegexAfter then Token.regex?
    (s.rest.drop 1) else none) with
  | some body => exact quiet_takeText rfl
  | none => exact quiet_takeMark rfl

theorem quiet_takeNumber : Quiet Inert takeNumber s := by
  refine quiet_get ?_
  dsimp only
  cases Number.fault? (Token.number s.rest) with
  | some rule => exact quiet_fail _ _
  | none => exact quiet_takeText rfl

/-- A word is no fragment and no brace. -/
theorem isInert_wordToken {word : List Char} {start stop : Nat} :
    (wordToken s word start stop).kind.isInert := by
  unfold wordToken
  dsimp only
  split
  next => rfl
  next kind hboolean h =>
    rcases reserved?_spec h with ⟨rfl, -⟩ | ⟨w, rfl, -⟩
    · rfl
    · rfl
  next =>
    show Token.Kind.isInert (if Token.isName word then .name else .word)
    split
    · rfl
    · rfl

theorem quiet_takeWord : Quiet Inert takeWord s := by
  refine quiet_get ?_
  cases Token.word? s.rest with
  | none => exact quiet_fail _ _
  | some word =>
      refine quiet_set rfl rfl (quiet_ite ?_ (quiet_fail _ _))
      exact quiet_pure (.singleton isInert_wordToken)

theorem quiet_takeReference {dangling : Code} : Quiet Inert (takeReference dangling) s := by
  refine quiet_get ?_
  cases Token.reference? s.rest with
  | none => exact quiet_fail _ _
  | some word =>
      refine quiet_set rfl rfl (quiet_ite ?_ (quiet_fail _ _))
      exact quiet_pure (.singleton rfl)

theorem quiet_takeSingleQuoted : Quiet Inert takeSingleQuoted s := by
  refine quiet_get ?_
  dsimp only
  cases (Quote.collect .single .singleQuoted (s.pos + 1) (s.rest.drop 1)).run with
  | ok run => exact quiet_set rfl rfl (quiet_pure (.singleton rfl))
  | error fault => exact quiet_set rfl rfl (quiet_fail _ _)

theorem quiet_takeTemplateText {skipLeading : Bool} :
    Quiet Inert (takeTemplateText skipLeading) s := by
  refine quiet_get ?_
  cases Template.stretch skipLeading s.pos s.rest with
  | error e => exact quiet_set rfl rfl (quiet_fail _ _)
  | ok stretch =>
      have hstring : ∀ stop, Inert (if stretch.text.isEmpty then []
          else [s.textToken .renderString stretch.text s.pos stop]) :=
        fun stop => .ite inert_nil (.singleton rfl)
      dsimp only
      cases stretch.ending with
      | endOfText => exact quiet_set rfl rfl (quiet_pure (hstring _))
      | code tag => exact quiet_set rfl rfl (quiet_pure (hstring _))
      | render tag =>
          exact quiet_set rfl rfl (quiet_pure (.append (hstring _) (.singleton rfl)))

theorem quiet_takeTagEnd {trims : Bool} : Quiet Inert (takeTagEnd trims) s := by
  refine quiet_get (quiet_set rfl rfl (quiet_bind quiet_takeTemplateText ?_))
  intro text s₁ htext
  refine quiet_pure (.append (.ite (.singleton ?_) inert_nil) htext)
  cases trims with
  | true => rfl
  | false => rfl

/-- The rules of plain marks are not those of the braces. -/
theorem isInert_of_opening {inTemplate : Bool} (h : opening? inTemplate cs = some (.mark m)) :
    Token.Kind.isInert (.mark m) := by
  obtain ⟨⟨rest, rfl⟩, -⟩ := opening?_begins h
  cases m with
  | openBrace => exact nomatch Option.some.inj h
  | selectorBrace => exact nomatch Option.some.inj h
  | closeBrace => exact nomatch Option.some.inj h
  | _ => rfl

/-- A rule that stands alone opens and closes nothing, unless it is that of a brace. -/
theorem quiet_takePlain {inTemplate : Bool} (h : opening? inTemplate cs = some o)
    (hopens : o ≠ .brace) (hcloses : o ≠ .closeBrace) : Quiet Inert (takePlain o) s := by
  cases o with
  | mark m => exact quiet_takeMark (isInert_of_opening h)
  | bracket => exact quiet_takeBracket
  | paren => exact quiet_takeParen
  | brace => exact absurd rfl hopens
  | closeBrace => exact absurd rfl hcloses
  | tagEnd trims => exact quiet_takeTagEnd
  | singleQuote => exact quiet_takeSingleQuoted
  | lineComment => exact quiet_get quiet_skip
  | blockComment => exact quiet_takeComment
  | slash => exact quiet_takeSlash
  | dollar => exact quiet_get (quiet_takeText rfl)
  | number => exact quiet_takeNumber
  | word => exact quiet_takeWord
  | reference dangling => exact quiet_takeReference
  | separator => exact quiet_takeText rfl
  | newline => exact quiet_modifyGet rfl rfl inert_nil
  | blank => exact quiet_get quiet_skip
  | foreignLetter c => exact quiet_get (quiet_fail _ _)
  | other c => exact quiet_takeText rfl
  | hereDoc => exact quiet_pure inert_nil
  | doubleQuote => exact quiet_pure inert_nil

/-! ## Braces -/

/-- A brace counts as one token, and in the state. -/
inductive Braced (s : State) : List Token → State → Prop
  | opens {t : Token} {s' : State} (hrole : t.kind.braceRole = .opening)
      (hdepth : s'.braceDepth = s.braceDepth + 1) : Braced s [t] s'
  | closes {t : Token} {s' : State} (hkind : t.kind = .mark .closeBrace)
      (hdepth : s'.braceDepth = s.braceDepth - 1) : Braced s [t] s'

/-- A brace is no fragment of a string. -/
theorem Braced.stringRole (h : Braced s ts s') : ∃ t, ts = [t] ∧ t.kind.stringRole = .inert := by
  cases h with
  | opens hrole =>
      exact ⟨_, rfl, Token.Kind.stringRole_of_braceRole (by rw [hrole]; exact nofun)⟩
  | closes hkind => exact ⟨_, rfl, by rw [hkind]; rfl⟩

/-- An opening brace opens one level. -/
theorem takeBrace_braced (h : takeBrace s = .ok ts s') : s'.text = s.text ∧ Braced s ts s' := by
  rw [takeBrace_eq] at h
  obtain ⟨rfl, rfl⟩ := EStateM.Result.ok.inj h
  refine ⟨rfl, .opens ?_ rfl⟩
  show Token.Kind.braceRole (.mark (if s.after = some (.mark .question) then .selectorBrace
    else .openBrace)) = .opening
  split
  · rfl
  · rfl

/-- A closing brace closes one. -/
theorem takeCloseBrace_braced (h : takeCloseBrace s = .ok ts s') :
    s'.text = s.text ∧ Braced s ts s' := by
  rw [takeCloseBrace_eq] at h
  obtain ⟨rfl, rfl⟩ := EStateM.Result.ok.inj h
  exact ⟨rfl, .closes rfl rfl⟩

/-- A rule that stands alone opens and closes nothing, or takes a brace. -/
theorem takePlain_cases {inTemplate : Bool} (h : opening? inTemplate cs = some o)
    (htake : takePlain o s = .ok ts s') :
    s'.text = s.text ∧ (s'.braceDepth = s.braceDepth ∧ Inert ts ∨ Braced s ts s') := by
  by_cases hopens : o = .brace
  · subst hopens
    obtain ⟨htext, hbraced⟩ := takeBrace_braced htake
    exact ⟨htext, .inr hbraced⟩
  · by_cases hcloses : o = .closeBrace
    · subst hcloses
      obtain ⟨htext, hbraced⟩ := takeCloseBrace_braced htake
      exact ⟨htext, .inr hbraced⟩
    · obtain ⟨htext, hdepth, hinert⟩ := quiet_takePlain h hopens hcloses ts s' htake
      exact ⟨htext, .inl ⟨hdepth, hinert⟩⟩

/-- A rule that stands alone gives no fragment of a string. -/
theorem takePlain_stringRole {inTemplate : Bool} (h : opening? inTemplate cs = some o)
    (htake : takePlain o s = .ok ts s') : ∀ t ∈ ts, t.kind.stringRole = .inert := by
  obtain ⟨-, ⟨-, hinert⟩ | hbraced⟩ := takePlain_cases h htake
  · exact fun t ht => Token.Kind.stringRole_of_isInert (hinert t ht)
  · obtain ⟨t, rfl, ht⟩ := hbraced.stringRole
    exact List.forall_mem_singleton.2 ht

/-! ## Here-docs -/

/-- The header of a here-doc opens and closes no brace. -/
theorem quiet_takeHeader : Quiet (fun _ => True) takeHeader s := by
  refine quiet_get ?_
  dsimp only
  refine quiet_ite (quiet_set rfl rfl (quiet_fail _ _)) ?_
  cases HereDoc.Header.parse ((s.rest.drop 2).takeWhile (· ≠ ')')) with
  | error rule => exact quiet_fail _ _
  | ok header => exact quiet_ite (quiet_set rfl rfl (quiet_pure trivial)) (quiet_pure trivial)

theorem quiet_takeHereDoc : Quiet (fun _ => True) takeHereDoc s := by
  refine quiet_bind quiet_takeHeader ?_
  rintro ⟨header, next⟩ s₁ -
  refine quiet_get ?_
  cases bodyStart? s₁ next with
  | none => exact quiet_fail _ _
  | some start =>
      dsimp only
      cases HereDoc.takeBody header.tag (HereDoc.linesOf (Text.dropBytes s₁.text start)) with
      | none => exact quiet_fail _ _
      | some result => exact quiet_pure trivial

end Manifest.Scan
