import Manifest.Proofs.Scan.Progress

/-!
# What a scan was told to report, and what it has reported

The diagnostics of a scan are added to and never read, and the rules that stand alone add nothing to
them. A scan with other diagnostics, which was told something else about escapes, therefore goes the
same way. This is said of two scanners at a state, and follows their text from action to action.

* `Mirrors` — from the image of a state, one scanner does what another one does from the state.
* `State.retold` — the state with other diagnostics.
* `mirrors_takePlain` — the rules that stand alone do the same from there.
* `takePlain_silent` — they report nothing.
-/

namespace Manifest.Scan

open Token (Mark)

section

variable {ε σ α β : Type} {image : σ → σ} {x x' : EStateM ε σ α} {s s₁ : σ}

/-- The result with the image of its state. -/
def mapState (image : σ → σ) : EStateM.Result ε σ α → EStateM.Result ε σ α
  | .ok a s => .ok a (image s)
  | .error e s => .error e (image s)

/-- From the image of the state, `x'` does what `x` does from the state. -/
def Mirrors (image : σ → σ) (x x' : EStateM ε σ α) (s : σ) : Prop :=
  x' (image s) = mapState image (x s)

/-! ## Actions -/

theorem mirrors_pure (a : α) : Mirrors image (pure a : EStateM ε σ α) (pure a) s := rfl

theorem mirrors_get {f f' : σ → EStateM ε σ α} (h : Mirrors image (f s) (f' (image s)) s) :
    Mirrors image (get >>= f) (get >>= f') s := h

theorem mirrors_set {f f' : PUnit → EStateM ε σ α} (h : Mirrors image (f ⟨⟩) (f' ⟨⟩) s₁) :
    Mirrors image (set s₁ >>= f) (set (image s₁) >>= f') s := h

/-- Mirrored rules follow one another. -/
theorem mirrors_bind {f f' : α → EStateM ε σ β} (hx : Mirrors image x x' s)
    (hf : ∀ a s₁, Mirrors image (f a) (f' a) s₁) : Mirrors image (x >>= f) (x' >>= f') s := by
  show EStateM.bind x' f' (image s) = mapState image (EStateM.bind x f s)
  unfold EStateM.bind
  rw [hx]
  cases x s with
  | ok a s₁ => exact hf a s₁
  | error e s₁ => rfl

/-- A choice is mirrored by a choice. -/
theorem mirrors_ite {p : Prop} [Decidable p] {y y' : EStateM ε σ α} (hx : Mirrors image x x' s)
    (hy : Mirrors image y y' s) : Mirrors image (if p then x else y) (if p then x' else y') s := by
  split
  · exact hx
  · exact hy

end

variable {s s' : State} {warns : Bool} {tell : List Diagnostic → List Diagnostic} {ts : List Token}

/-! ## Other diagnostics -/

/-- The state with other diagnostics, told to report unknown escapes or not. -/
def State.retold (warns : Bool) (tell : List Diagnostic → List Diagnostic) (s : State) : State :=
  { s with options := { s.options with warnUnknownEscapes := warns },
           diagnostics := tell s.diagnostics }

@[simp] theorem State.retold_pos : (s.retold warns tell).pos = s.pos := rfl
@[simp] theorem State.retold_rest : (s.retold warns tell).rest = s.rest := rfl

/-- A problem does not depend on what is told. -/
theorem mirrors_fail {α : Type} (p : Problem) (offset : Nat) :
    Mirrors (State.retold warns tell) (fail p offset : Scanner α) (fail p offset) s := rfl

/-! ## Rules -/

theorem mirrors_takeMark (m : Mark) :
    Mirrors (State.retold warns tell) (takeMark m) (takeMark m) s := rfl

theorem mirrors_takeText (kind : Token.Kind) (spelling text : List Char) :
    Mirrors (State.retold warns tell) (takeText kind spelling text)
      (takeText kind spelling text) s := rfl

theorem mirrors_takeComment : Mirrors (State.retold warns tell) takeComment takeComment s := by
  refine mirrors_get ?_
  dsimp only [State.retold_rest, State.retold_pos]
  cases Text.findOffset (['*', '/'].isPrefixOf ·) (s.pos + 2) (s.rest.drop 2) with
  | some offset => exact mirrors_set (mirrors_pure _)
  | none => exact mirrors_fail _ _

theorem mirrors_takeSlash : Mirrors (State.retold warns tell) takeSlash takeSlash s := by
  refine mirrors_get ?_
  have hregex : (if (s.retold warns tell).after.all Token.Kind.allowsRegexAfter
      then Token.regex? ((s.retold warns tell).rest.drop 1) else none) =
        if s.after.all Token.Kind.allowsRegexAfter then Token.regex?
          (s.rest.drop 1) else none := rfl
  dsimp only
  rw [hregex]
  cases (if s.after.all Token.Kind.allowsRegexAfter then Token.regex?
    (s.rest.drop 1) else none) with
  | some body => exact mirrors_takeText _ _ _
  | none => exact mirrors_takeMark _

theorem mirrors_takeNumber : Mirrors (State.retold warns tell) takeNumber takeNumber s := by
  refine mirrors_get ?_
  dsimp only [State.retold_rest, State.retold_pos]
  cases Number.fault? (Token.number s.rest) with
  | some rule => exact mirrors_fail _ _
  | none => exact mirrors_takeText _ _ _

theorem mirrors_takeWord : Mirrors (State.retold warns tell) takeWord takeWord s := by
  refine mirrors_get ?_
  dsimp only [State.retold_rest, State.retold_pos]
  cases Token.word? s.rest with
  | none => exact mirrors_fail _ _
  | some word => exact mirrors_set (mirrors_ite (mirrors_pure _) (mirrors_fail _ _))

theorem mirrors_takeReference (dangling : Manifest.Code) :
    Mirrors (State.retold warns tell) (takeReference dangling) (takeReference dangling) s := by
  refine mirrors_get ?_
  dsimp only [State.retold_rest, State.retold_pos]
  cases Token.reference? s.rest with
  | none => exact mirrors_fail _ _
  | some name => exact mirrors_set (mirrors_ite (mirrors_pure _) (mirrors_fail _ _))

theorem mirrors_takeSingleQuoted :
    Mirrors (State.retold warns tell) takeSingleQuoted takeSingleQuoted s := by
  refine mirrors_get ?_
  dsimp only [State.retold_rest, State.retold_pos]
  cases (Quote.collect .single .singleQuoted (s.pos + 1) (s.rest.drop 1)).run with
  | ok run => exact mirrors_set (mirrors_pure _)
  | error fault => exact mirrors_set (mirrors_fail _ _)

theorem mirrors_takeTemplateText (skipLeading : Bool) :
    Mirrors (State.retold warns tell) (takeTemplateText skipLeading)
      (takeTemplateText skipLeading) s := by
  refine mirrors_get ?_
  dsimp only [State.retold_rest, State.retold_pos]
  cases Template.stretch skipLeading s.pos s.rest with
  | error e => exact mirrors_set (mirrors_fail _ _)
  | ok stretch =>
      dsimp only
      cases stretch.ending with
      | endOfText => exact mirrors_set (mirrors_pure _)
      | code tag => exact mirrors_set (mirrors_pure _)
      | render tag => exact mirrors_set (mirrors_pure _)

theorem mirrors_takeTagEnd (trims : Bool) :
    Mirrors (State.retold warns tell) (takeTagEnd trims) (takeTagEnd trims) s := by
  refine mirrors_get (mirrors_set (mirrors_bind (mirrors_takeTemplateText trims) ?_))
  exact fun text s₁ => mirrors_pure _

/-- The rules that stand alone do not depend on diagnostics. -/
theorem mirrors_takePlain (o : Opening) :
    Mirrors (State.retold warns tell) (takePlain o) (takePlain o) s := by
  cases o with
  | mark m => exact mirrors_takeMark m
  | bracket => exact mirrors_get (mirrors_takeMark _)
  | paren => exact mirrors_get (mirrors_takeMark _)
  | brace => exact mirrors_get (mirrors_set (mirrors_takeMark _))
  | closeBrace => rfl
  | tagEnd trims => exact mirrors_takeTagEnd trims
  | singleQuote => exact mirrors_takeSingleQuoted
  | lineComment => rfl
  | blockComment => exact mirrors_takeComment
  | slash => exact mirrors_takeSlash
  | dollar => exact mirrors_get (mirrors_takeText _ _ _)
  | number => exact mirrors_takeNumber
  | word => exact mirrors_takeWord
  | reference dangling => exact mirrors_takeReference dangling
  | separator => exact mirrors_takeText _ _ _
  | newline => rfl
  | blank => rfl
  | foreignLetter c => exact mirrors_get (mirrors_fail _ _)
  | other c => exact mirrors_takeText _ _ _
  | hereDoc => exact mirrors_pure _
  | doubleQuote => exact mirrors_pure _

/-- The rules that stand alone report nothing: from a state that is told what it has reported
anyway, they do what they do. -/
theorem takePlain_silent {o : Opening} (h : takePlain o s = .ok ts s') :
    s'.diagnostics = s.diagnostics := by
  have hmirrors : Mirrors (State.retold s.options.warnUnknownEscapes fun _ => s.diagnostics)
      (takePlain o) (takePlain o) s := mirrors_takePlain o
  unfold Mirrors at hmirrors
  change takePlain o s = _ at hmirrors
  rw [h] at hmirrors
  obtain ⟨-, hstate⟩ := EStateM.Result.ok.inj hmirrors
  rw [hstate]
  rfl

end Manifest.Scan
