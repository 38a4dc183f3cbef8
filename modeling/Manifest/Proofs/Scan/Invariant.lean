import Manifest.Proofs.Scan.Lookback
import Manifest.Proofs.Scan.Path

/-!
# Invariants of tokens

The tokens of a scan are put together from those of the rules it applies, wherever in nested calls
it applies them, and from those of the bodies of here-docs, which are scanned on their own. What
holds of all of these, and is kept when tokens are put together, holds of the tokens of the scan.

* `TokenInvariant` — what has to be shown of a property.
* `Runs.holds` — the property then holds of the tokens of every scan.
-/

namespace Manifest.Scan

variable {P : State → List Token → Prop} {s s₀ s' : State} {ts : List Token} {events : List Event}
  {task : Task}

/-- The kinds of tokens that no rule of code gives, but for variables and text in single quotes. -/
def isFrame : Token.Kind → Bool
  | .string | .stringStart | .stringMiddle | .stringEnd | .variable | .endOfText => true
  | kind => kind.isTemplate

/-- A property of the tokens of a scan and of the state at the start of its text. It has to hold of
what a rule gives on a path from that state, and of a here-doc if it holds of the tokens of its
body, which is a text of its own. -/
structure TokenInvariant (P : State → List Token → Prop) : Prop where
  nil {s₀ : State} : P s₀ []
  append {s₀ : State} {ts us : List Token} : P s₀ ts → P s₀ us → P s₀ (ts ++ us)
  frame {s₀ : State} {t : Token} : isFrame t.kind → P s₀ [t]
  named {s₀ : State} {t : Token} {value : Token.Value} {ts : List Token} : namesVariable t.kind →
    P s₀ (t :: ts) → P s₀ ({ t with kind := .variable, value } :: ts)
  plain {s₀ s s' : State} {events : List Event} {o : Opening} {ts : List Token} : s₀.Sound →
    Path s₀ events s → opening? s.template.isSome s.rest = some o → o ≠ .hereDoc →
      o ≠ .doubleQuote →
    takePlain o s = .ok ts s' → P s₀ ts
  hereDoc {s₀ s s₁ : State} {events : List Event} {cs : List Char} {found : OpenHereDoc}
    {ts : List Token} : s₀.Sound → Path s₀ events s → s.At ('@' :: '(' :: cs) →
    takeHereDoc s = .ok found s₁ → P (found.bodyState s₁) ts → P s₀ (found.tokens s₁ ++ ts)

/-- A token of a frame in front. -/
theorem TokenInvariant.cons (hP : TokenInvariant P) {t : Token} (ht : isFrame t.kind)
    (h : P s₀ ts) : P s₀ (t :: ts) := hP.append (hP.frame ht) h

/-- Tokens of frames alone. -/
theorem TokenInvariant.frames (hP : TokenInvariant P) (h : ∀ t ∈ ts, isFrame t.kind) : P s₀ ts := by
  induction ts with
  | nil => exact hP.nil
  | cons t ts ih =>
      obtain ⟨ht, hts⟩ := List.forall_mem_cons.1 h
      exact hP.cons ht (ih hts)

/-- Names that become variables. -/
theorem TokenInvariant.asVariable (hP : TokenInvariant P) (h : P s₀ ts) : P s₀ (asVariable ts) := by
  rcases asVariable_changes ts with heq | ⟨t, us, value, rfl, hnames, heq⟩
  · rwa [heq]
  · rw [heq]
    exact hP.named hnames h

/-- The tokens of templates are frames. -/
theorem isFrame_of_isTemplate {kind : Token.Kind} (h : kind.isTemplate) : isFrame kind := by
  unfold isFrame
  split
  all_goals first
    | rfl
    | exact h

/-- The fragments of strings are frames. -/
theorem isFrame_fragmentKind (first : Bool) : isFrame (fragmentKind first) := by
  cases first <;> rfl

/-- The property holds of the tokens of every scan, at every depth. -/
theorem Runs.holds (h : Runs task s ts s') (hP : TokenInvariant P) (hsound : s₀.Sound)
    (hpath : Path s₀ events s) (hready : task.Ready s) (hgiven : P s₀ task.given) : P s₀ ts := by
  induction h generalizing s₀ events with
  | nothing => exact hP.nil
  | quoted h hrun ih => exact ih hsound (hpath.trans (Move.quote h).path) trivial hP.nil
  | documented h hrun ih =>
      obtain ⟨cs, hat, ho⟩ := at_of_opening (hpath.lasts hsound).sound h
      obtain ⟨rest, rfl⟩ := opening?_begins ho
      exact ih hsound hpath ⟨rest, hat⟩ hP.nil
  | plain h hhereDoc hquote htake => exact hP.plain hsound hpath h hhereDoc hquote htake
  | @last q start first pending s s' run hrun hstop =>
      refine hP.frame ?_
      cases first <;> rfl
  | @braces q start first pending s s₁ s₂ s₃ run code rest hrun hstop hcode hrest ihcode ihrest =>
      have hpath₁ := hpath.trans (.silent (.run hrun) (Move.brace).path)
      have hsound₁ := (hpath₁.lasts hsound).sound
      obtain ⟨fs, hpath₂, -⟩ := hcode.walks hsound₁ trivial
      exact hP.cons (isFrame_fragmentKind first) (hP.append (ihcode hsound hpath₁ trivial hP.nil)
        (ihrest hsound (hpath₁.trans hpath₂) trivial hP.nil))
  | @reference q start first pending s s₁ s₂ run name rest hrun hstop hname hrest ih =>
      have hpos : run.next = s₁.pos := by
        obtain ⟨-, ds, rfl⟩ := takeRun_ok hrun
        rfl
      have hpath₁ := hpath.trans (.silent (.run hrun) (Move.name hname).path)
      rw [← hpos] at hpath₁
      exact hP.cons (isFrame_fragmentKind first) (hP.cons rfl (ih hsound hpath₁ trivial hP.nil))
  | dollar hrun hstop hname hrest ih =>
      exact ih hsound (hpath.trans (Move.run hrun).path) trivial hP.nil
  | ended => exact hgiven
  | closed => exact hP.asVariable hgiven
  | @more depth tokens batch ts s s' s'' hend hstep hcloses hrest ihstep ihrest =>
      -- the path goes on with what the step walked, so that the next one starts where it ended
      obtain ⟨fs, hpath₁, -⟩ := hstep.walks (hpath.lasts hsound).sound trivial
      obtain ⟨kind, hkind⟩ := passed_eq s' batch
      rw [hkind] at ihrest
      have hbatch := ihstep hsound hpath trivial hP.nil
      exact ihrest hsound ((hpath.trans hpath₁).trans (Move.passed kind).path) trivial
        (hP.append hgiven hbatch)
  | hereDoc hfound hbody ih =>
      obtain ⟨cs, hat⟩ := hready
      exact hP.hereDoc hsound hpath hat hfound
        (ih (State.sound_start _ rfl rfl) (.nil _) trivial hP.nil)

end Manifest.Scan
