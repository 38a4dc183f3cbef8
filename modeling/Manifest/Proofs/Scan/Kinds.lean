import Manifest.Proofs.Scan.Lookback

/-!
# The kinds of tokens

Each rule gives tokens of few kinds. Numbers are given by one rule alone, which checks their shape,
and nothing that is done to tokens later makes another number.

* `takePlain_gives` — the tokens of a rule that stands alone.
* `Runs.validated` — the numbers of a scan have a valid shape, at every depth.
-/

namespace Manifest.Scan

open Text (byteLength)
open Token (Mark)

variable {P : Token → Prop} {x y : Scanner (List Token)} {s s' s₁ : State} {o : Opening} {m : Mark}
  {t : Token} {ts us : List Token} {task : Task} {kind : Token.Kind}

/-! ## Actions -/

/-- Where the scanner succeeds, each of its tokens satisfies `P`. -/
def Yields (P : Token → Prop) (x : Scanner (List Token)) (s : State) : Prop :=
  ∀ ts s', x s = .ok ts s' → ∀ t ∈ ts, P t

/-- Tokens that are given at once. -/
theorem yields_pure (h : ∀ t ∈ ts, P t) : Yields P (pure ts) s := by
  intro us s' hok
  obtain ⟨rfl, rfl⟩ := EStateM.Result.ok.inj hok
  exact h

/-- No tokens. -/
theorem yields_nothing : Yields P (pure []) s := yields_pure (List.forall_mem_nil P)

theorem yields_one (h : P t) : Yields P (pure [t]) s := yields_pure (List.forall_mem_singleton.2 h)

/-- A problem gives none. -/
theorem yields_fail (p : Problem) (offset : Nat) : Yields P (fail p offset) s := fun _ _ => nofun

theorem yields_get {f : State → Scanner (List Token)} (h : Yields P (f s) s) :
    Yields P (get >>= f) s := h

theorem yields_set {f : PUnit → Scanner (List Token)} (h : Yields P (f ⟨⟩) s₁) :
    Yields P (set s₁ >>= f) s := h

/-- A choice gives what either side gives. -/
theorem yields_ite {p : Prop} [Decidable p] (hx : Yields P x s) (hy : Yields P y s) :
    Yields P (if p then x else y) s := by
  split
  · exact hx
  · exact hy

theorem yields_takeMark
    (h : P (s.token (.mark m) .none s.pos (s.pos + byteLength m.spelling.toList))) :
    Yields P (takeMark m) s := yields_one h

theorem yields_takeText {spelling text : List Char}
    (h : P (s.textToken kind text s.pos (s.pos + byteLength spelling))) :
    Yields P (takeText kind spelling text) s := yields_one h

theorem yields_skip {spelling : List Char} : Yields P (skip spelling) s := yields_nothing

/-! ## Rules -/

/-- What a rule may give. -/
def Opening.Gives : Opening → Token → Prop
  | .mark _ | .bracket | .paren | .brace | .closeBrace => fun t => ∃ m, t.kind = .mark m
  | .tagEnd _ => fun t => t.kind.isTemplate
  | .singleQuote => fun t => t.kind = .string
  | .slash => fun t => t.kind = .regex ∨ t.kind = .mark .slash
  | .dollar => fun t => t.kind = .variable
  | .number => fun t => t.kind = .number ∧ Number.fault? t.text.toList = none
  | .word => fun t => t.kind = .name ∨ t.kind = .word ∨ t.kind.isKeyword
  | .reference _ => fun t => t.kind = .reference
  | .separator | .other _ => fun t => t.kind = .other
  | .hereDoc | .doubleQuote | .lineComment | .blockComment | .newline | .blank
  | .foreignLetter _ => fun _ => False

/-- A number is given only when its literal has a valid shape. -/
theorem yields_takeNumber : Yields Opening.number.Gives takeNumber s := by
  refine yields_get ?_
  dsimp only
  cases hfault : Number.fault? (Token.number s.rest) with
  | some rule => exact yields_fail _ _
  | none =>
      refine yields_takeText ⟨rfl, ?_⟩
      show Number.fault? (String.ofList (Token.number s.rest)).toList = none
      rw [String.toList_ofList, hfault]

/-- A word becomes one of the kinds of words. -/
theorem gives_wordToken (s : State) (word : List Char) (start stop : Nat) :
    Opening.word.Gives (wordToken s word start stop) := by
  unfold wordToken
  dsimp only
  split
  next => exact .inr (.inr rfl)
  next kind _ h =>
    rcases reserved?_spec h with ⟨rfl, -⟩ | ⟨w, rfl, -⟩
    · exact .inr (.inr rfl)
    · exact .inr (.inr rfl)
  next =>
    show (if Token.isName word then Token.Kind.name else .word) = .name ∨ _
    split
    · exact .inl rfl
    · exact .inr (.inl rfl)

/-- The tokens of a word. -/
theorem yields_takeWord : Yields Opening.word.Gives takeWord s := by
  refine yields_get ?_
  cases Token.word? s.rest with
  | none => exact yields_fail _ _
  | some word =>
      exact yields_set (yields_ite (yields_one (gives_wordToken s word _ _)) (yields_fail _ _))

theorem yields_takeReference {dangling : Code} :
    Yields (Opening.reference dangling).Gives (takeReference dangling) s := by
  refine yields_get ?_
  cases Token.reference? s.rest with
  | none => exact yields_fail _ _
  | some name => exact yields_set (yields_ite (yields_one rfl) (yields_fail _ _))

/-- A slash is a division or begins a regular expression. -/
theorem yields_takeSlash : Yields Opening.slash.Gives takeSlash s := by
  refine yields_get ?_
  dsimp only
  cases (if s.after.all Token.Kind.allowsRegexAfter then Token.regex?
    (s.rest.drop 1) else none) with
  | some body => exact yields_takeText (.inl rfl)
  | none => exact yields_takeMark (.inr rfl)

/-- A comment gives no token. -/
theorem yields_takeComment : Yields Opening.blockComment.Gives takeComment s := by
  refine yields_get ?_
  cases Text.findOffset (['*', '/'].isPrefixOf ·) (s.pos + 2) (s.rest.drop 2) with
  | some offset => exact yields_set yields_nothing
  | none => exact yields_fail _ _

theorem yields_takeSingleQuoted : Yields Opening.singleQuote.Gives takeSingleQuoted s := by
  refine yields_get ?_
  dsimp only
  cases (Quote.collect .single .singleQuoted (s.pos + 1) (s.rest.drop 1)).run with
  | ok run => exact yields_set (yields_one rfl)
  | error fault => exact yields_set (yields_fail _ _)

/-- The end of a tag gives what closes a value and the text behind it. -/
theorem yields_takeTagEnd {trims : Bool} :
    Yields (Opening.tagEnd trims).Gives (takeTagEnd trims) s := by
  intro ts s' h
  obtain ⟨text, found, rfl, hreads⟩ := takeTagEnd_ok h
  exact List.forall_mem_append.2 ⟨s.isTemplate_valueEnd trims, hreads.isTemplate⟩

/-- A rule that stands alone gives what it may give. -/
theorem takePlain_gives (h : takePlain o s = .ok ts s') : ∀ t ∈ ts, o.Gives t := by
  suffices hyields : Yields o.Gives (takePlain o) s from hyields ts s' h
  cases o with
  | mark m => exact yields_takeMark ⟨_, rfl⟩
  | bracket => exact yields_get (yields_takeMark ⟨_, rfl⟩)
  | paren => exact yields_get (yields_takeMark ⟨_, rfl⟩)
  | brace => exact yields_get (yields_set (yields_takeMark ⟨_, rfl⟩))
  | closeBrace =>
      intro ts s' h
      rw [takePlain, takeCloseBrace_eq] at h
      exact yields_takeMark ⟨_, rfl⟩ ts s' h
  | tagEnd trims => exact yields_takeTagEnd
  | singleQuote => exact yields_takeSingleQuoted
  | lineComment => exact yields_get yields_skip
  | blockComment => exact yields_takeComment
  | slash => exact yields_takeSlash
  | dollar => exact yields_get (yields_takeText rfl)
  | number => exact yields_takeNumber
  | word => exact yields_takeWord
  | reference dangling => exact yields_takeReference
  | separator => exact yields_takeText rfl
  | newline => exact yields_nothing
  | blank => exact yields_get yields_skip
  | foreignLetter c => exact yields_get (yields_fail _ _)
  | other c => exact yields_takeText rfl
  | hereDoc => exact yields_nothing
  | doubleQuote => exact yields_nothing

/-! ## Numbers -/

/-- Each number among the tokens has a valid shape. -/
def Validated (ts : List Token) : Prop :=
  ∀ t ∈ ts, t.kind = .number → Number.fault? t.text.toList = none

/-- Without tokens there is no number. -/
theorem validated_nil : Validated [] := List.forall_mem_nil _

/-- A token that is no number. -/
theorem Validated.cons (ht : t.kind ≠ .number) (h : Validated ts) : Validated (t :: ts) :=
  List.forall_mem_cons.2 ⟨fun heq => absurd heq ht, h⟩

theorem Validated.append (h : Validated ts) (h' : Validated us) : Validated (ts ++ us) :=
  List.forall_mem_append.2 ⟨h, h'⟩

/-- A rule gives other kinds, or a number of a valid shape. -/
theorem Opening.Gives.validated (h : o.Gives t) (ht : t.kind = .number) :
    Number.fault? t.text.toList = none := by
  cases o with
  | number => exact h.2
  | word =>
      rcases h with h | h | h <;> rw [ht] at h <;> exact nomatch h
  | slash => rcases h with h | h <;> exact nomatch ht.symm.trans h
  | tagEnd trims =>
      change t.kind.isTemplate = true at h
      rw [ht] at h
      exact nomatch h
  | mark _ | bracket | paren | brace | closeBrace =>
      obtain ⟨m, hm⟩ := h
      exact nomatch ht.symm.trans hm
  | singleQuote | dollar | reference _ | separator | other _ => exact nomatch ht.symm.trans h
  | hereDoc | doubleQuote | lineComment | blockComment | newline | blank | foreignLetter _ =>
      exact h.elim

/-- What stands for a variable in an interpolation is no number. -/
theorem Validated.asVariable (h : Validated ts) : Validated (asVariable ts) := by
  rcases asVariable_changes ts with heq | ⟨t, us, value, rfl, -, heq⟩
  · rwa [heq]
  · rw [heq]
    exact Validated.cons nofun (List.forall_mem_cons.1 h).2

/-- Fragments are no numbers. -/
theorem fragmentKind_ne_number (first : Bool) : fragmentKind first ≠ .number := by
  cases first <;> exact nofun

/-- Each number among the tokens of a scan has a valid shape. -/
theorem Runs.validated (h : Runs task s ts s') (hgiven : Validated task.given) : Validated ts := by
  induction h with
  | nothing => exact validated_nil
  | quoted h hrun ih => exact ih validated_nil
  | documented h hrun ih => exact ih validated_nil
  | plain h hhereDoc hquote htake => exact fun t ht => (takePlain_gives htake t ht).validated
  | @last q start first =>
      refine .cons ?_ validated_nil
      cases first <;> exact nofun
  | @braces q start first pending s s₁ s₂ s₃ run code rest hrun hstop hcode hrest ihcode ihrest =>
      exact .cons (fragmentKind_ne_number first)
        (.append (ihcode validated_nil) (ihrest validated_nil))
  | @reference q start first pending s s₁ s₂ run name rest hrun hstop hname hrest ih =>
      exact .cons (fragmentKind_ne_number first) (.cons nofun (ih validated_nil))
  | dollar hrun hstop hname hrest ih => exact ih validated_nil
  | ended => exact hgiven
  | closed => exact hgiven.asVariable
  | more hend hstep hcloses hrest ihstep ihrest =>
      exact ihrest (hgiven.append (ihstep validated_nil))
  | hereDoc hfound hbody ih => exact .cons nofun (.cons nofun (ih validated_nil))

/-- Template text has no numbers. -/
theorem takeTemplateText_validated {skipLeading : Bool}
    (h : takeTemplateText skipLeading s = .ok ts s') : Validated ts := by
  obtain ⟨found, hreads⟩ := takeTemplateText_ok h
  intro t ht hnumber
  have htemplate := hreads.isTemplate t ht
  rw [hnumber] at htemplate
  exact nomatch htemplate

end Manifest.Scan
