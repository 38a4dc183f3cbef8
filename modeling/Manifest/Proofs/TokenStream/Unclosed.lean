import Manifest.Proofs.Scan.Unclosed
import Manifest.Proofs.TokenStream.Written
import Mathlib.Logic.Relation

/-!
# Texts with interpolations that are never closed

A scan takes one way through its text: what it enters has run when the scan has come to its end. So
a string in double quotes with an interpolation that is not closed is a problem of the whole text,
at whatever depth it stands. Text without quotes is complete where its text ends, also within the
code of an interpolation, and such a text is accepted.

* `Enters`, `Enters.runs` — what a scan comes to, and that it has run once the scan is done.
* `fullscan_unquoted` — text without quotes that runs gives its tokens.
* `fullscan_unclosed` — what becomes of an interpolation that is not closed.
-/

namespace Manifest.TokenStream

open Relation (ReflTransGen)
open Scan (Calls Runs State Task Unclosed takeRun)

variable {s s₀ s' s'' : TokenStream} {task : Task} {state state' : State} {given ts : List Token}

/-! ## The way of a stream -/

/-- A stream whose first tokens were read scans a step, or gives a token. -/
inductive Turn : TokenStream → TokenStream → Prop
  | step {s : TokenStream} {batch : List Token} {state : State} (hqueue : s.queue = [])
      (hend : s.state.atEnd = false) (hruns : Runs .step s.state batch state) :
      Turn s { s with state, queue := batch }
  | token {s : TokenStream} {t : Token} {queue : List Token} (hqueue : s.queue = t :: queue) :
      Turn s { s with queue, state := { s.state with after := some t.kind } }

/-- A stream has one way to go on. -/
theorem Turn.unique (h : Turn s s') (h' : Turn s s'') : s' = s'' := by
  cases h with
  | step hqueue _ hruns =>
      cases h' with
      | step _ _ hruns' =>
          obtain ⟨rfl, rfl⟩ := hruns.unique hruns'
          rfl
      | token hqueue' => exact nomatch hqueue.symm.trans hqueue'
  | token hqueue =>
      cases h' with
      | step hqueue' => exact nomatch hqueue.symm.trans hqueue'
      | token hqueue' =>
          obtain ⟨rfl, rfl⟩ := List.cons.inj (hqueue.symm.trans hqueue')
          rfl

/-- All that has been given was given turn by turn. -/
theorem Given.turns (h : Given s₀ given s) (hstarted : s₀.started) : ReflTransGen Turn s₀ s := by
  induction h with
  | start => exact .refl
  | entry hgiven hfresh =>
      rw [hgiven.started hstarted] at hfresh
      exact nomatch hfresh
  | step _ hqueue hend hruns ih => exact ih.tail (.step hqueue hend hruns)
  | token _ hqueue ih => exact ih.tail (.token hqueue)

/-- A stream that comes to a step has taken it when nothing is left of it. -/
theorem runs_of_turns (h : ReflTransGen Turn s₀ s) (h' : ReflTransGen Turn s₀ s')
    (hqueue : s.queue = []) (hend : s.state.atEnd = false) (hqueue' : s'.queue = [])
    (hend' : s'.state.atEnd) : ∃ batch state, Runs .step s.state batch state := by
  have hunique : Relator.RightUnique Turn := fun _ _ _ => Turn.unique
  have hlast : ∀ s'', ¬ Turn s' s'' := by
    intro s'' hturn
    cases hturn with
    | step _ hmore => exact nomatch hend'.symm.trans hmore
    | token hwaits => exact nomatch hqueue'.symm.trans hwaits
  have hmore : ReflTransGen Turn s s' := by
    rcases ReflTransGen.total_of_right_unique hunique h h' with hmore | hless
    · exact hmore
    · rcases hless.cases_head with rfl | ⟨s'', hturn, -⟩
      · exact .refl
      · exact absurd hturn (hlast s'')
  rcases hmore.cases_head with rfl | ⟨s'', hturn, -⟩
  · exact nomatch hend.symm.trans hend'
  · cases hturn with
    | step _ _ hruns => exact ⟨_, _, hruns⟩
    | token hwaits => exact nomatch hqueue.symm.trans hwaits

/-! ## What a scan enters -/

/-- The scan of a text comes to a task at a state. -/
inductive Enters (s : TokenStream) : Task → State → Prop
  /-- text without quotes, from its start on -/
  | first (hentry : s.entry = .unquoted) :
      Enters s (.fragments ⟨s.state.mode, s.state.escapes, false, s.state.pos⟩ s.state.pos true [])
        s.state
  /-- a step when no token waits -/
  | step {batch given : List Token} {state : State} {s' : TokenStream}
      (hentry : entryTokens (Scan.budget s.state.size) s.entry s.state = .ok batch state)
      (hgiven : Given (s.entered batch state) given s') (hqueue : s'.queue = [])
      (hend : s'.state.atEnd = false) : Enters s .step s'.state
  | call {task task' : Task} {state state' : State} (h : Enters s task state)
      (hcall : Calls task state task' state') : Enters s task' state'

/-- The scan of a manifest comes to a step at the start of the text. -/
theorem enters_manifest (s : TokenStream) {text : List Char} (htext : text ≠ []) (file : String) :
    Enters (s.start (.manifest text file)).2 .step
      (s.reset text (.document (.ofText text file)) .code).state := by
  have hat : (s.reset text (.document (.ofText text file)) .code).state.At text := ⟨[], rfl, rfl⟩
  have hend : (s.reset text (.document (.ofText text file)) .code).state.atEnd = false :=
    Bool.eq_false_iff.2 fun hend => htext (hat.atEnd_iff.1 hend)
  -- nothing is read before the first step
  have hentry : entryTokens (Scan.budget (Text.byteLength text)) .code
      (s.reset text (.document (.ofText text file)) .code).state
        = .ok [] (s.reset text (.document (.ofText text file)) .code).state := rfl
  have henters := Enters.step (s := s.reset text (.document (.ofText text file)) .code) hentry
    .start rfl hend
  rw [start, startText_snd]
  exact henters

/-- A scan that gives its tokens has read the first ones. -/
theorem exists_entry (hsound : s.Sound) (hstarted : s.started = false)
    (hscan : fullscan s = .ok ts s') : ∃ batch state,
      entryTokens (Scan.budget s.state.size) s.entry s.state = .ok batch state := by
  cases hentry : entryTokens (Scan.budget s.state.size) s.entry s.state with
  | ok batch state => exact ⟨batch, state, rfl⟩
  | error stop state =>
      obtain ⟨fuel, hfuel⟩ := hsound.exists_budget
      rw [fullscan, hfuel, fullscanWithin_error (next_error hstarted hentry)] at hscan
      cases hscan

/-- What a scan comes to has run when the scan gives its tokens. -/
theorem Enters.runs (h : Enters s task state) (hsound : s.Sound) (hstarted : s.started = false)
    (hscan : fullscan s = .ok ts s') : ∃ us state', Runs task state us state' := by
  induction h with
  | first hentry =>
      obtain ⟨batch, state', hbatch⟩ := exists_entry hsound hstarted hscan
      rw [hentry] at hbatch
      have hrun : (Task.fragments ⟨s.state.mode, s.state.escapes, false, s.state.pos⟩ s.state.pos
          true []).run (Scan.budget s.state.size) s.state = .ok batch state' := hbatch
      exact ⟨batch, state', Scan.runs_of_run hrun⟩
  | step hentry hgiven hqueue hend =>
      obtain ⟨hsound', heq⟩ := fullscan_eq_entered hsound hstarted hentry
      rw [heq] at hscan
      obtain ⟨body, -, hgiven', hqueue', hend', -⟩ := fullscan_given hsound' hscan
      exact runs_of_turns (hgiven.turns rfl) (hgiven'.turns rfl) hqueue hend hqueue' hend'
  | call _ hcall ih =>
      obtain ⟨us, state', hruns⟩ := ih
      exact hcall.runs hruns

/-! ## Text without quotes -/

theorem quote?_textMode (interpolates : Bool) (escapes : Quote.EscapeSet) :
    (Scan.textMode interpolates escapes).quote? = none := by
  unfold Scan.textMode
  cases interpolates with
  | false => rfl
  | true =>
      cases escapes.allows '$' with
      | true => rfl
      | false => rfl

/-- Text without quotes that runs gives its tokens, and there is nothing else in it. -/
theorem fullscan_unquoted (s : TokenStream) {text : List Char} {source : Option Text.Source}
    {escapes : Quote.EscapeSet} {interpolates : Bool}
    (h : Runs (.fragments ⟨Scan.textMode interpolates escapes, escapes, false, 0⟩ 0 true [])
      (s.start (.unquoted text source escapes interpolates)).2.state ts state') :
    ∃ s', fullscan (s.start (.unquoted text source escapes interpolates)).2
      = .ok (ts ++ [endOf state'.source state'.text]) s' := by
  have hsound := s.start_sound (.unquoted text source escapes interpolates)
  have hentry := h.run_eq (hsound.not_exhausts (.fragments _ _ _ _) trivial)
  obtain ⟨hsound', hscan⟩ := fullscan_eq_entered hsound rfl hentry
  have hend := h.atEnd_of_unquoted hsound.state (quote?_textMode interpolates escapes)
  obtain ⟨s', hwaiting, -⟩ := fullscan_waiting hsound' rfl hend (h.openTag hsound.state rfl)
  exact ⟨s', hscan.trans hwaiting⟩

/-! ## Interpolations that are not closed -/

/-- A stream that was not asked has not started. -/
theorem start_started (s : TokenStream) (input : Input) : (s.start input).2.started = false := by
  obtain ⟨text, source, entry, escapes, mode, heq⟩ := s.start_eq_fresh input
  rw [heq]
  rfl

/-- A scan comes to an interpolation, at whatever depth it stands, and the text ends before the
brace that closes it. If the interpolation stands in quotes, the scan of the whole text ends with a
problem. If it stands in text without quotes, which is the text of the input or the body of a
here-doc, that text is complete: it gives its fragment, the code, and an empty fragment at the
end. -/
theorem fullscan_unclosed (s : TokenStream) (input : Input) {q : Scan.Quoting} {start : Nat}
    {first : Bool} {pending : List Char} {run : Quote.Run} {state₁ : State}
    (h : Enters (s.start input).2 (.fragments q start first pending) state)
    (hrun : takeRun q state = .ok run state₁) (hstop : run.stop = .dollarBrace)
    (hopen : Unclosed state₁.braceDepth { state₁ with braceDepth := state₁.braceDepth + 1 }) :
    (q.mode.quote?.isSome → ∃ d s', fullscan (s.start input).2 = .error (.problem d) s') ∧
    (q.mode.quote? = none → ∃ code state',
      Runs (.code state₁.braceDepth []) { state₁ with braceDepth := state₁.braceDepth + 1 }
        code state' ∧
      state'.atEnd ∧ Runs (.fragments q start first pending) state
        (state₁.textToken (Scan.fragmentKind first) (pending ++ run.text) start run.next
          :: code ++ [state'.textToken .stringEnd [] state'.pos state'.pos]) state') := by
  refine ⟨fun hquote => ?_, fun hquote => hopen.runs_fragments hrun hstop hquote⟩
  rcases s.fullscan_ends input with ⟨ts, s', hscan, -⟩ | hproblem
  · obtain ⟨us, state', hruns⟩ := h.runs (s.start_sound input) (s.start_started input) hscan
    exact absurd hruns (hopen.not_runs hrun hstop hquote)
  · exact hproblem

/-- Text comes to an interpolation, and the text is seen to end before the brace that closes it. -/
def leavesOpen (q : Scan.Quoting) (fuel : Nat) (state : State) : Bool :=
  match takeRun q state with
  | .ok run s₁ => run.stop = .dollarBrace &&
      Scan.endsUnclosed s₁.braceDepth fuel { s₁ with braceDepth := s₁.braceDepth + 1 }
  | .error _ _ => false

/-- Where a check finds a run that leaves code open, there is one. -/
theorem exists_of_leavesOpen {q : Scan.Quoting} {fuel : Nat} (h : leavesOpen q fuel state) :
    ∃ run s₁, takeRun q state = .ok run s₁ ∧ run.stop = .dollarBrace ∧
      Unclosed s₁.braceDepth { s₁ with braceDepth := s₁.braceDepth + 1 } := by
  unfold leavesOpen at h
  split at h
  next run s₁ hrun =>
    obtain ⟨hstop, hends⟩ := Bool.and_eq_true_iff.1 h
    exact ⟨run, s₁, hrun, of_decide_eq_true hstop, Scan.unclosed_of_endsUnclosed hends⟩
  next => exact nomatch h

/-- A string in double quotes with an interpolation that is not closed. -/
def unclosedText : List Char := ['"', '$', '{', 'x']

/-- An interpolation in double quotes without a closing brace. -/
theorem fullscan_unclosed_quoted : ∃ (q : Scan.Quoting) (state state₁ : State) (run : Quote.Run)
    (d : Diagnostic) (s' : TokenStream),
    Enters ((empty .standard).start (.manifest unclosedText "")).2 (.fragments q 0 true []) state ∧
      takeRun q state = .ok run state₁ ∧ run.stop = .dollarBrace ∧
      Unclosed state₁.braceDepth { state₁ with braceDepth := state₁.braceDepth + 1 } ∧
      q.mode.quote?.isSome ∧
      fullscan ((empty .standard).start (.manifest unclosedText "")).2 =
        .error (.problem d) s' := by
  have hstep := enters_manifest (empty .standard) (List.cons_ne_nil '"' ['$', '{', 'x']) ""
  have henters := hstep.call (.quoted (by decide +kernel))
  have hopens : leavesOpen ⟨.double, .doubleQuoted, true, 0⟩ 2
      { ((empty .standard).reset unclosedText
        (.document (.ofText unclosedText "")) .code).state with
        pos := 1 } := by
    decide +kernel
  obtain ⟨run, state₁, hrun, hstop, hopen⟩ := exists_of_leavesOpen hopens
  obtain ⟨d, s', hscan⟩ := (fullscan_unclosed _ _ henters hrun hstop hopen).1 rfl
  exact ⟨_, _, state₁, run, d, s', henters, hrun, hstop, hopen, rfl, hscan⟩

/-- A text without quotes is accepted though an interpolation in it is not closed. -/
theorem fullscan_unclosed_accepted : ¬ ∀ (s : TokenStream) (input : Input) (q : Scan.Quoting)
    (start : Nat) (first : Bool) (pending : List Char) (run : Quote.Run) (state state₁ : State),
    Enters (s.start input).2 (.fragments q start first pending) state →
      takeRun q state = .ok run state₁ → run.stop = .dollarBrace →
        Unclosed state₁.braceDepth { state₁ with braceDepth := state₁.braceDepth + 1 } →
          ∃ d s', fullscan (s.start input).2 = .error (.problem d) s' := by
  intro hclaim
  have hopens : leavesOpen ⟨Scan.textMode true .none, .none, false, 0⟩ 2
      ((empty .standard).start (.unquoted ['$', '{', 'x'] none .none true)).2.state := by
    decide +kernel
  obtain ⟨run, state₁, hrun, hstop, hopen⟩ := exists_of_leavesOpen hopens
  obtain ⟨code, state', -, -, hruns⟩ := hopen.runs_fragments hrun hstop rfl
  obtain ⟨s', hscan⟩ := fullscan_unquoted (empty .standard) hruns
  obtain ⟨d, s'', hproblem⟩ := hclaim (empty .standard) (.unquoted ['$', '{', 'x'] none .none true)
    _ _ _ _ _ _ _ (.first rfl) hrun hstop hopen
  exact nomatch hscan.symm.trans hproblem

end Manifest.TokenStream
