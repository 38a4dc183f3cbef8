import Manifest.Proofs.Scan.HereDoc
import Manifest.Proofs.Scan.Progress

/-!
# What rules look back to

A brace and a slash are read by the kind of the token before them, and a template knows the tag that
is open. Rules for code read this and leave it alone; only template text and the ends of tags change
where a template is.

* `takePlain_lone` — a rule for code gives one token at most, of a kind that suits the token before.
* `takeTemplateText_ok`, `takeTagEnd_ok` — the tokens of template text, and where it leaves the
  template.
-/

namespace Manifest

namespace Token.Kind

/-- The kinds that only templates have. -/
def isTemplate : Kind → Bool
  | .templateStart | .renderString | .renderExpression => true
  | .mark .tagEnd | .mark .trimmingTagEnd => true
  | _ => false

/-- The kinds that depend on the token before. -/
def isContextual : Kind → Bool
  | .mark .openBrace | .mark .selectorBrace | .regex => true
  | _ => false

end Token.Kind

namespace Scan

open Token (Kind Mark)

variable {s s' s₁ : State} {x y : Scanner (List Token)} {cs : List Char} {ts : List Token}
  {t : Token} {k : Option Kind} {kind : Kind} {o : Opening} {m : Mark} {q : Quoting}
  {run : Quote.Run} {found : OpenHereDoc}

/-! ## What is remembered -/

/-- The kind of the last token, and where a template is, stay what they are. -/
structure State.Remembers (s s' : State) : Prop where
  after : s'.after = s.after
  template : s'.template = s.template
  openTag : s'.openTag = s.openTag

theorem State.remembers (s : State) : s.Remembers s := ⟨rfl, rfl, rfl⟩

/-- What is remembered over two steps. -/
theorem State.Remembers.trans {s'' : State} (h : s.Remembers s') (h' : s'.Remembers s'') :
    s.Remembers s'' :=
  ⟨h'.after.trans h.after, h'.template.trans h.template, h'.openTag.trans h.openTag⟩

/-- A run of quoted text keeps what was there. -/
theorem takeRun_remembers (h : takeRun q s = .ok run s') : s.Remembers s' := by
  obtain ⟨-, ds, rfl⟩ := takeRun_ok h
  exact ⟨rfl, rfl, rfl⟩

/-- The header of a here-doc keeps what was there. -/
theorem takeHereDoc_remembers (h : takeHereDoc s = .ok found s') : s.Remembers s' := by
  obtain ⟨-, ds, rfl⟩ := takeHereDoc_read h
  exact ⟨rfl, rfl, rfl⟩

/-! ## Tokens of code -/

/-- The kind may stand behind a token of the other one: a brace opens a selector behind a question
mark and nowhere else, and a regular expression does not follow a value. -/
structure Suits (k : Option Kind) (kind : Kind) : Prop where
  selector : kind = .mark .selectorBrace → k = some (.mark .question)
  brace : kind = .mark .openBrace → k ≠ some (.mark .question)
  regex : kind = .regex → k.all Kind.allowsRegexAfter

/-- A kind that does not depend on the token before suits any. -/
theorem suits_of_not_isContextual (h : kind.isContextual = false) : Suits k kind where
  selector := by rintro rfl; exact nomatch h
  brace := by rintro rfl; exact nomatch h
  regex := by rintro rfl; exact nomatch h

/-- What a rule for code gives: one token at most, of a kind that suits the token before. -/
def Lone (k : Option Kind) (ts : List Token) : Prop :=
  ts = [] ∨ ∃ t, ts = [t] ∧ t.kind.isTemplate = false ∧ Suits k t.kind

theorem lone_nil : Lone k [] := .inl rfl

/-- The kind is one of code, and does not depend on the token before. -/
def Ordinary (kind : Kind) : Prop := kind.isTemplate = false ∧ kind.isContextual = false

/-- An ordinary token suits any token before it. -/
theorem Ordinary.lone (h : Ordinary t.kind) : Lone k [t] :=
  .inr ⟨t, rfl, h.1, suits_of_not_isContextual h.2⟩

/-! ## Actions -/

/-- Where the scanner succeeds, it remembers what it did and gives what a rule for code gives. -/
def TakesCode (x : Scanner (List Token)) (s : State) : Prop :=
  ∀ ts s', x s = .ok ts s' → s.Remembers s' ∧ Lone s.after ts

/-- Tokens that are given at once. -/
theorem takesCode_pure (h : Lone s.after ts) : TakesCode (pure ts) s := by
  intro ts s' hok
  obtain ⟨rfl, rfl⟩ := EStateM.Result.ok.inj hok
  exact ⟨s.remembers, h⟩

theorem takesCode_fail (p : Problem) (offset : Nat) : TakesCode (fail p offset) s :=
  fun _ _ => nofun

theorem takesCode_get {f : State → Scanner (List Token)} (h : TakesCode (f s) s) :
    TakesCode (get >>= f) s := h

theorem takesCode_set {f : PUnit → Scanner (List Token)} (hs : s.Remembers s₁)
    (h : TakesCode (f ⟨⟩) s₁) : TakesCode (set s₁ >>= f) s := by
  intro ts s' hok
  obtain ⟨hremembers, hlone⟩ := h ts s' hok
  exact ⟨hs.trans hremembers, hs.after ▸ hlone⟩

theorem takesCode_modifyGet {f : State → List Token × State} (hs : s.Remembers (f s).2)
    (h : Lone s.after (f s).1) : TakesCode (modifyGet f) s := by
  intro ts s' hok
  obtain ⟨rfl, rfl⟩ := EStateM.Result.ok.inj hok
  exact ⟨hs, h⟩

theorem takesCode_ite {p : Prop} [Decidable p] (hx : TakesCode x s) (hy : TakesCode y s) :
    TakesCode (if p then x else y) s := by
  split
  · exact hx
  · exact hy

/-! ## Rules for code -/

/-- A mark that suits the token before it. -/
theorem takesCode_mark (h : (Kind.mark m).isTemplate = false) (hsuits : Suits s.after (.mark m)) :
    TakesCode (takeMark m) s :=
  takesCode_modifyGet ⟨rfl, rfl, rfl⟩ (.inr ⟨_, rfl, h, hsuits⟩)

/-- An ordinary mark. -/
theorem takesCode_ordinaryMark (h : Ordinary (.mark m)) : TakesCode (takeMark m) s :=
  takesCode_mark h.1 (suits_of_not_isContextual h.2)

theorem takesCode_text {spelling text : List Char} (h : kind.isTemplate = false)
    (hsuits : Suits s.after kind) : TakesCode (takeText kind spelling text) s :=
  takesCode_modifyGet ⟨rfl, rfl, rfl⟩ (.inr ⟨_, rfl, h, hsuits⟩)

/-- An ordinary token that says its spelling. -/
theorem takesCode_ordinaryText {spelling text : List Char} (h : Ordinary kind) :
    TakesCode (takeText kind spelling text) s :=
  takesCode_text h.1 (suits_of_not_isContextual h.2)

theorem takesCode_skip {spelling : List Char} : TakesCode (skip spelling) s :=
  takesCode_modifyGet ⟨rfl, rfl, rfl⟩ lone_nil

/-- A bracket, with or without a blank before it. -/
theorem takesCode_bracket : TakesCode takeBracket s := by
  refine takesCode_get ?_
  dsimp only
  split
  · exact takesCode_ordinaryMark ⟨rfl, rfl⟩
  · exact takesCode_ordinaryMark ⟨rfl, rfl⟩

/-- A parenthesis, wherever it stands. -/
theorem takesCode_paren : TakesCode takeParen s := by
  refine takesCode_get ?_
  dsimp only
  split
  · exact takesCode_ordinaryMark ⟨rfl, rfl⟩
  · exact takesCode_ordinaryMark ⟨rfl, rfl⟩

/-- The kind of a brace goes by the kind that is remembered. -/
theorem takesCode_brace : TakesCode takeBrace s := by
  refine takesCode_get (takesCode_set ⟨rfl, rfl, rfl⟩ ?_)
  split
  next hquestion => exact takesCode_mark rfl ⟨fun _ => hquestion, nofun, nofun⟩
  next hquestion => exact takesCode_mark rfl ⟨nofun, fun _ => hquestion, nofun⟩

theorem takesCode_closeBrace : TakesCode takeCloseBrace s := by
  intro ts s' hok
  rw [takeCloseBrace_eq] at hok
  obtain ⟨hremembers, hlone⟩ := takesCode_ordinaryMark ⟨rfl, rfl⟩ ts s' hok
  exact ⟨⟨hremembers.after, hremembers.template, hremembers.openTag⟩, hlone⟩

theorem takesCode_comment : TakesCode takeComment s := by
  refine takesCode_get ?_
  cases Text.findOffset (['*', '/'].isPrefixOf ·) (s.pos + 2) (s.rest.drop 2) with
  | some offset => exact takesCode_set ⟨rfl, rfl, rfl⟩ (takesCode_pure lone_nil)
  | none => exact takesCode_fail _ _

/-- A regular expression is read only where the kind that is remembered allows one. -/
theorem takesCode_slash : TakesCode takeSlash s := by
  refine takesCode_get ?_
  dsimp only
  by_cases hallows : s.after.all Kind.allowsRegexAfter
  · rw [if_pos hallows]
    cases Token.regex? (s.rest.drop 1) with
    | some body => exact takesCode_text rfl ⟨nofun, nofun, fun _ => hallows⟩
    | none => exact takesCode_ordinaryMark ⟨rfl, rfl⟩
  · rw [if_neg hallows]
    exact takesCode_ordinaryMark ⟨rfl, rfl⟩

theorem takesCode_number : TakesCode takeNumber s := by
  refine takesCode_get ?_
  dsimp only
  cases Number.fault? (Token.number s.rest) with
  | some rule => exact takesCode_fail _ _
  | none => exact takesCode_ordinaryText ⟨rfl, rfl⟩

/-- Words are ordinary. -/
theorem ordinary_wordToken {word : List Char} {start stop : Nat} :
    Ordinary (wordToken s word start stop).kind := by
  unfold wordToken
  dsimp only
  split
  next => exact ⟨rfl, rfl⟩
  next kind hboolean h =>
    rcases reserved?_spec h with ⟨rfl, -⟩ | ⟨w, rfl, -⟩
    · exact ⟨rfl, rfl⟩
    · exact ⟨rfl, rfl⟩
  next =>
    show Ordinary (if Token.isName word then .name else .word)
    split
    · exact ⟨rfl, rfl⟩
    · exact ⟨rfl, rfl⟩

theorem takesCode_word : TakesCode takeWord s := by
  refine takesCode_get ?_
  cases Token.word? s.rest with
  | none => exact takesCode_fail _ _
  | some word =>
      refine takesCode_set ⟨rfl, rfl, rfl⟩ (takesCode_ite ?_ (takesCode_fail _ _))
      exact takesCode_pure ordinary_wordToken.lone

theorem takesCode_reference {dangling : Code} : TakesCode (takeReference dangling) s := by
  refine takesCode_get ?_
  cases Token.reference? s.rest with
  | none => exact takesCode_fail _ _
  | some name =>
      refine takesCode_set ⟨rfl, rfl, rfl⟩ (takesCode_ite ?_ (takesCode_fail _ _))
      exact takesCode_pure (Ordinary.lone ⟨rfl, rfl⟩)

theorem takesCode_singleQuoted : TakesCode takeSingleQuoted s := by
  refine takesCode_get ?_
  dsimp only
  cases (Quote.collect .single .singleQuoted (s.pos + 1) (s.rest.drop 1)).run with
  | ok run =>
      exact takesCode_set ⟨rfl, rfl, rfl⟩ (takesCode_pure (Ordinary.lone ⟨rfl, rfl⟩))
  | error fault => exact takesCode_set ⟨rfl, rfl, rfl⟩ (takesCode_fail _ _)

/-! ## Template text -/

/-- Where a template is behind a stretch of its text. -/
def modeBehind : Template.Ending → Template.Mode
  | .endOfText => .text
  | .code _ => .code
  | .render _ => .render

/-- The tag that is open behind a stretch of text. -/
def tagBehind? : Template.Ending → Option Nat
  | .endOfText => none
  | .code tag => some tag
  | .render tag => some tag

/-- The token of a value that is rendered, where a stretch of text ends with its tag. -/
def State.valueStart (s : State) (found : Template.Stretch) : List Token :=
  match found.ending with
  | .render _ => [s.token .renderExpression .none found.next found.next]
  | _ => []

/-- A stretch of template text was read. -/
structure ReadsStretch (s : State) (skipLeading : Bool) (found : Template.Stretch)
    (ts : List Token) (s' : State) : Prop where
  stretch : Template.stretch skipLeading s.pos s.rest = .ok found
  tokens : ∃ text, (∀ t ∈ text, t.kind = .renderString) ∧ ts = text ++ s.valueStart found
  state : s' = { s with pos := found.next, template := some (modeBehind found.ending),
                        openTag := tagBehind? found.ending }

/-- Text of a template is one stretch. -/
theorem takeTemplateText_ok {skipLeading : Bool} (h : takeTemplateText skipLeading s = .ok ts s') :
    ∃ found, ReadsStretch s skipLeading found ts s' := by
  unfold takeTemplateText at h
  rw [get_bind] at h
  cases hstretch : Template.stretch skipLeading s.pos s.rest with
  | error e =>
      rw [hstretch] at h
      exact nomatch h
  | ok found =>
      rw [hstretch] at h
      obtain ⟨text, ending, next⟩ := found
      have hstring : ∀ stop, ∀ t ∈ (if text.isEmpty then []
          else [s.textToken .renderString text s.pos stop] : List Token), t.kind =
            .renderString := by
        intro stop
        split
        · exact List.forall_mem_nil _
        · exact List.forall_mem_singleton.2 rfl
      cases ending with
      | endOfText =>
          obtain ⟨rfl, rfl⟩ := EStateM.Result.ok.inj h
          exact ⟨_, hstretch, ⟨_, hstring next, (List.append_nil _).symm⟩, rfl⟩
      | code tag =>
          obtain ⟨rfl, rfl⟩ := EStateM.Result.ok.inj h
          exact ⟨_, hstretch, ⟨_, hstring tag, (List.append_nil _).symm⟩, rfl⟩
      | render tag =>
          obtain ⟨rfl, rfl⟩ := EStateM.Result.ok.inj h
          exact ⟨_, hstretch, ⟨_, hstring tag, rfl⟩, rfl⟩

/-- The mark that ends a tag. -/
def endMark (trims : Bool) : Mark := if trims then .trimmingTagEnd else .tagEnd

/-- The state behind the mark that ends a tag. -/
def State.behindTag (s : State) (trims : Bool) : State :=
  { s with pos := s.pos + Text.byteLength (endMark trims).spelling.toList, template := some .text }

/-- The token that ends a value that is rendered. -/
def State.valueEnd (s : State) (trims : Bool) : List Token :=
  if s.template = some .render then
    [s.token (.mark (endMark trims)) .none s.pos
      (s.pos + Text.byteLength (endMark trims).spelling.toList)]
  else []

/-- The end of a tag closes a value, and a stretch of text follows. -/
theorem takeTagEnd_ok {trims : Bool} (h : takeTagEnd trims s = .ok ts s') :
    ∃ text found, ts = s.valueEnd trims ++ text ∧
      ReadsStretch (s.behindTag trims) trims found text s' := by
  unfold takeTagEnd at h
  rw [get_bind] at h
  dsimp only at h
  rw [set_bind] at h
  obtain ⟨text, s₁, htext, h⟩ := bind_eq_ok h
  obtain ⟨rfl, rfl⟩ := EStateM.Result.ok.inj h
  obtain ⟨found, hreads⟩ := takeTemplateText_ok htext
  exact ⟨text, found, rfl, hreads⟩

/-- All that a stretch of template text gives are tokens that only templates have. -/
theorem ReadsStretch.isTemplate {skipLeading : Bool} {found : Template.Stretch}
    (h : ReadsStretch s skipLeading found ts s') : ∀ t ∈ ts, t.kind.isTemplate := by
  obtain ⟨text, htext, rfl⟩ := h.tokens
  refine List.forall_mem_append.2 ⟨fun t ht => by rw [htext t ht]; rfl, ?_⟩
  unfold State.valueStart
  split
  · exact List.forall_mem_singleton.2 rfl
  · exact List.forall_mem_nil _

/-- What closes a value is a token of the template. -/
theorem State.isTemplate_valueEnd (s : State) (trims : Bool) :
    ∀ t ∈ s.valueEnd trims, t.kind.isTemplate := by
  unfold State.valueEnd
  split
  · cases trims <;> exact List.forall_mem_singleton.2 rfl
  · exact List.forall_mem_nil _

/-! ## Choosing a rule -/

/-- A single character that opens something is looked up by itself. -/
theorem openingOfChar_ne_mark {c : Char} : openingOfChar c ≠ .mark m := by
  unfold openingOfChar
  split
  · exact nofun
  · split
    · exact nofun
    · split
      · exact nofun
      · split
        · exact nofun
        · split <;> exact nofun

/-- A mark is read by the rule for marks only if it goes by its spelling alone. -/
theorem mem_plainMarks_of_opening {inTemplate : Bool}
    (h : opening? inTemplate cs = some (.mark m)) : m ∈ plainMarks := by
  have hplain : ∀ {c : Char} {cs : List Char}, plainOpening c cs = .mark m → m ∈ plainMarks := by
    intro c cs hopening
    unfold plainOpening at hopening
    split at hopening
    next hmark =>
      obtain rfl := Opening.mark.inj hopening
      exact List.mem_of_find?_eq_some hmark
    next => exact absurd hopening openingOfChar_ne_mark
  unfold opening? at h
  split at h
  case h_14 =>
    unfold openingAfterColons at h
    split at h
    · split at h
      · exact nomatch h
      · split at h <;> exact nomatch h
    · exact nomatch h
  case h_15 c rest _ _ _ _ _ _ _ _ _ _ _ _ _ =>
    split at h
    · unfold tagEndAt? at h
      split at h
      · exact nomatch h
      · exact nomatch h
      · exact hplain (Option.some.inj h)
    · exact hplain (Option.some.inj h)
  all_goals exact nomatch h

/-- Plain marks are ordinary. -/
theorem ordinary_plainMarks : ∀ m ∈ plainMarks, Ordinary (.mark m) := by
  have hall : plainMarks.all fun m =>
      (Kind.mark m).isTemplate == false && (Kind.mark m).isContextual == false := by decide
  intro m hm
  have hboth := Bool.and_eq_true_iff.1 (List.all_eq_true.1 hall m hm)
  exact ⟨eq_of_beq hboth.1, eq_of_beq hboth.2⟩

/-- A rule that stands alone reads code, unless it is that of the end of a tag. -/
theorem takePlain_lone (h : opening? s.template.isSome s.rest = some o)
    (htag : ∀ trims, o ≠ .tagEnd trims) (htake : takePlain o s = .ok ts s') :
    s.Remembers s' ∧ Lone s.after ts := by
  suffices hcode : TakesCode (takePlain o) s from hcode ts s' htake
  cases o with
  | mark m => exact takesCode_ordinaryMark (ordinary_plainMarks m (mem_plainMarks_of_opening h))
  | bracket => exact takesCode_bracket
  | paren => exact takesCode_paren
  | brace => exact takesCode_brace
  | closeBrace => exact takesCode_closeBrace
  | tagEnd trims => exact absurd rfl (htag trims)
  | singleQuote => exact takesCode_singleQuoted
  | lineComment => exact takesCode_get takesCode_skip
  | blockComment => exact takesCode_comment
  | slash => exact takesCode_slash
  | dollar => exact takesCode_get (takesCode_ordinaryText ⟨rfl, rfl⟩)
  | number => exact takesCode_number
  | word => exact takesCode_word
  | reference dangling => exact takesCode_reference
  | separator => exact takesCode_ordinaryText ⟨rfl, rfl⟩
  | newline => exact takesCode_modifyGet ⟨rfl, rfl, rfl⟩ lone_nil
  | blank => exact takesCode_get takesCode_skip
  | foreignLetter c => exact takesCode_get (takesCode_fail _ _)
  | other c => exact takesCode_ordinaryText ⟨rfl, rfl⟩
  | hereDoc => exact takesCode_pure lone_nil
  | doubleQuote => exact takesCode_pure lone_nil

end Scan

end Manifest
