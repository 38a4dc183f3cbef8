import Manifest.Proofs.Scan.Calls
import Manifest.Proofs.Scan.Nesting
import Manifest.Proofs.Scan.Rendered

/-!
# Interpolations that are never closed

The code of an interpolation ends with the text if no brace closes it, and it does so without a
problem. The text around it has to go on from there: where it stands in quotes, its quote is
missing, and where it has none, it is complete.

* `Unclosed` — code that goes on to the end of the text.
* `Unclosed.not_runs` — text in quotes does not run around such code.
* `Unclosed.runs_fragments` — text without quotes runs, and ends behind such code.
-/

namespace Manifest.Scan

variable {q : Quoting} {start : Nat} {first : Bool} {pending : List Char} {run : Quote.Run}
  {depth : Nat} {s s' s₁ : State} {ts : List Token}

/-- The text ends before the brace that leaves `depth` braces open. -/
inductive Unclosed (depth : Nat) : State → Prop
  | ended {s : State} (hend : s.atEnd) : Unclosed depth s
  | more {s s' : State} {batch : List Token} (hend : s.atEnd = false)
      (hstep : Runs .step s batch s') (hcloses : closes depth batch s' = false)
      (hrest : Unclosed depth (s'.passed batch)) : Unclosed depth s

/-- Whether the text is seen to end before the brace, with some fuel. -/
def endsUnclosed (depth : Nat) : Nat → State → Bool
  | 0, _ => false
  | fuel + 1, s =>
      s.atEnd || match step fuel s with
        | .ok batch s' => !closes depth batch s' && endsUnclosed depth fuel (s'.passed batch)
        | .error _ _ => false

/-- Code that is found open at the end is unclosed. -/
theorem unclosed_of_endsUnclosed {fuel : Nat} (h : endsUnclosed depth fuel s) :
    Unclosed depth s := by
  induction fuel generalizing s with
  | zero => exact nomatch h
  | succ fuel ih =>
      cases hend : s.atEnd with
      | true => exact .ended hend
      | false =>
          rw [endsUnclosed, hend, Bool.false_or] at h
          cases hstep : step fuel s with
          | error stop s' =>
              rw [hstep] at h
              exact nomatch h
          | ok batch s' =>
              rw [hstep] at h
              obtain ⟨hcloses, hrest⟩ := Bool.and_eq_true_iff.1 h
              rw [Bool.not_eq_true'] at hcloses
              have hrun : Task.step.run fuel s = .ok batch s' := hstep
              exact .more hend (runs_of_run hrun) hcloses (ih hrest)

/-- The code of an interpolation that is not closed runs to the end of the text. -/
theorem Unclosed.runs (h : Unclosed depth s) (tokens : List Token) :
    ∃ ts s', Runs (.code depth tokens) s ts s' ∧ s'.atEnd := by
  induction h generalizing tokens with
  | ended hend => exact ⟨tokens, _, .ended hend, hend⟩
  | @more s s' batch hend hstep hcloses hrest ih =>
      obtain ⟨ts, s'', hruns, hend'⟩ := ih (tokens ++ batch)
      exact ⟨ts, s'', .more hend hstep hcloses hruns, hend'⟩

/-- A run over unclosed code goes on to the end of the text. -/
theorem Unclosed.atEnd {tokens : List Token} (h : Unclosed depth s)
    (hruns : Runs (.code depth tokens) s ts s') : s'.atEnd := by
  obtain ⟨us, s'', hruns', hend⟩ := h.runs tokens
  obtain ⟨-, rfl⟩ := hruns.unique hruns'
  exact hend

/-- In quotes, no text with an interpolation that is not closed runs. -/
theorem Unclosed.not_runs
    (h : Unclosed s₁.braceDepth { s₁ with braceDepth := s₁.braceDepth + 1 })
    (hrun : takeRun q s = .ok run s₁) (hstop : run.stop = .dollarBrace)
    (hquote : q.mode.quote?.isSome) : ¬ Runs (.fragments q start first pending) s ts s' := by
  intro hruns
  have hbehind := hruns.behind_run hrun
  rw [hstop] at hbehind
  obtain ⟨code, s₂, hcode, rest, s₃, hrest⟩ := hbehind
  rw [(hrest.fragments_of_atEnd (h.atEnd hcode)).1] at hquote
  exact nomatch hquote

/-- At the end of its text, text without quotes has nothing left to say. -/
theorem takeRun_atEnd (hquote : q.mode.quote? = none) (hend : s.atEnd) :
    takeRun q s = .ok ⟨[], .endOfText, s.pos⟩ s := by
  have hcollect : Quote.collect q.mode q.escapes s.pos s.rest = .done .endOfText s.pos := by
    rw [State.rest_of_atEnd hend, Quote.collect, hquote]
    rfl
  rw [takeRun, get_bind, hcollect]
  dsimp only [Quote.Collected.done]
  cases q.warns with
  | true => rfl
  | false => rfl

/-- Without quotes, text with an interpolation that is not closed is complete behind the code of
it. -/
theorem Unclosed.runs_fragments
    (h : Unclosed s₁.braceDepth { s₁ with braceDepth := s₁.braceDepth + 1 })
    (hrun : takeRun q s = .ok run s₁) (hstop : run.stop = .dollarBrace)
    (hquote : q.mode.quote? = none) : ∃ code s',
      Runs (.code s₁.braceDepth []) { s₁ with braceDepth := s₁.braceDepth + 1 } code s' ∧ s'.atEnd ∧
      Runs (.fragments q start first pending) s
        (s₁.textToken (fragmentKind first) (pending ++ run.text) start run.next
          :: code ++ [s'.textToken .stringEnd [] s'.pos s'.pos]) s' := by
  obtain ⟨code, s', hcode, hend⟩ := h.runs []
  refine ⟨code, s', hcode, hend, .braces hrun hstop hcode ?_⟩
  exact .last (takeRun_atEnd hquote hend) (.inr rfl)

/-- Outside of templates, text opens no tag. -/
theorem Runs.openTag (h : Runs (.fragments q start first pending) s ts s') (hsound : s.Sound)
    (hnone : s.template = none) : s'.openTag = s.openTag := by
  obtain ⟨es, hpath, -⟩ := h.walks hsound trivial
  obtain ⟨endings, htour⟩ := hpath.tour
  rcases htour.behind with ⟨-, -, hsame⟩ | ⟨ending, -, hmode, -⟩
  · exact hsame
  · rw [(h.code_of_template hnone (List.forall_mem_nil _)).1] at hmode
    exact nomatch hmode

end Manifest.Scan
