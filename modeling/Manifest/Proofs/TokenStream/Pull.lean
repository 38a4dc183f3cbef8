import Manifest.Proofs.Scan.Fuel
import Manifest.TokenStream

/-!
# Pulling tokens

A pull hands out what waits in the queue, and takes a scan step when nothing waits. It ends with a
token or with a problem: each step that gives no token leaves less ahead of the cursor, and there is
more fuel than that.

* `TokenStream.Sound` — what holds of a stream between two pulls.
* `TokenStream.left` — a bound on the tokens that are left in a stream.
* `Pulls` — how a pull goes; what is true of pulls is shown by induction on it.
* `next_spec` — everything that a pull can do.
-/

namespace Manifest.TokenStream

open Scan (State Stop Inner Runs Exhausts)

variable {s s' : TokenStream} {t : Token} {queue batch : List Token} {state : State}
  {stepFuel fuel : Nat}

/-! ## One unit of fuel -/

/-- A token that waits is pulled first. -/
theorem pull_queued (h : s.queue = t :: queue) : pull stepFuel (fuel + 1) s
    = .ok t { s with queue, state := { s.state with after := some t.kind } } := by
  obtain ⟨state, _, entry, started⟩ := s
  obtain rfl := h
  rfl

/-- At the end of the text the end is pulled. -/
theorem pull_atEnd (h : s.queue = []) (hend : s.state.atEnd) :
    pull stepFuel (fuel + 1) s = endToken s := by
  obtain ⟨state, _, entry, started⟩ := s
  obtain rfl := h
  show (if state.atEnd then endToken else _) _ = _
  rw [if_pos hend]

/-- Where nothing waits, a step is taken. -/
theorem pull_scan (h : s.queue = []) (hend : s.state.atEnd = false) : pull stepFuel (fuel + 1) s
    = EStateM.bind (scanning (Scan.step stepFuel))
      (fun batch => do enqueue batch; pull stepFuel fuel) s := by
  obtain ⟨_, _, entry, started⟩ := s
  obtain rfl := h
  show (if State.atEnd _ then endToken else _) _ = _
  rw [if_neg (by rw [hend]; exact Bool.false_ne_true)]
  rfl

/-- Before it a step is taken. -/
theorem pull_step (h : s.queue = []) (hend : s.state.atEnd = false)
    (hstep : Scan.step stepFuel s.state = .ok batch state) :
    pull stepFuel (fuel + 1) s = pull stepFuel fuel { s with state, queue := batch } := by
  rw [pull_scan h hend, EStateM.bind, scanning, hstep]
  obtain ⟨_, _, entry, started⟩ := s
  obtain rfl := h
  rfl

/-- A step that fails is an error. -/
theorem pull_error {stop : Stop} (h : s.queue = []) (hend : s.state.atEnd = false)
    (hstep : Scan.step stepFuel s.state = .error stop state) :
    pull stepFuel (fuel + 1) s = .error stop { s with state } := by
  rw [pull_scan h hend, EStateM.bind, scanning, hstep]

/-- How a pull goes, for each unit of its fuel. -/
inductive Pulls (stepFuel : Nat) : Nat → TokenStream → EStateM.Result Stop TokenStream Token → Prop
  | exhausted (s : TokenStream) : Pulls stepFuel 0 s (.error .exhausted s)
  | queued {fuel : Nat} {s : TokenStream} {t : Token} {queue : List Token}
      (hqueue : s.queue = t :: queue) : Pulls stepFuel (fuel + 1) s
        (.ok t { s with queue, state := { s.state with after := some t.kind } })
  | ended {fuel : Nat} {s : TokenStream} (hqueue : s.queue = []) (hend : s.state.atEnd) :
      Pulls stepFuel (fuel + 1) s (endToken s)
  | failed {fuel : Nat} {s : TokenStream} {stop : Stop} {state : State} (hqueue : s.queue = [])
      (hend : s.state.atEnd = false) (hstep : Scan.step stepFuel s.state = .error stop state) :
      Pulls stepFuel (fuel + 1) s (.error stop { s with state })
  | step {fuel : Nat} {s : TokenStream} {batch : List Token} {state : State}
      {r : EStateM.Result Stop TokenStream Token} (hqueue : s.queue = [])
      (hend : s.state.atEnd = false) (hruns : Runs .step s.state batch state)
      (hrest : Pulls stepFuel fuel { s with state, queue := batch } r) :
      Pulls stepFuel (fuel + 1) s r

/-- These are all the ways to pull. -/
theorem pulls_pull (stepFuel fuel : Nat) (s : TokenStream) :
    Pulls stepFuel fuel s (pull stepFuel fuel s) := by
  induction fuel generalizing s with
  | zero => exact .exhausted s
  | succ fuel ih =>
      cases hqueue : s.queue with
      | cons t queue =>
          rw [pull_queued hqueue]
          exact .queued hqueue
      | nil =>
          cases hend : s.state.atEnd with
          | true =>
              rw [pull_atEnd hqueue hend]
              exact .ended hqueue hend
          | false =>
              cases hstep : Scan.step stepFuel s.state with
              | error stop state =>
                  rw [pull_error hqueue hend hstep]
                  exact .failed hqueue hend hstep
              | ok batch state =>
                  rw [pull_step hqueue hend hstep]
                  exact .step hqueue hend (Scan.runs_of_run hstep) (ih _)

/-- A stream that was started is pulled from. -/
theorem next_started (h : s.started) :
    next s = pull (Scan.budget s.state.size) (Scan.budget s.state.size) s := by
  obtain ⟨state, queue, entry, _⟩ := s
  obtain rfl := h
  rfl

/-- At first the tokens of the entry wait. -/
theorem next_entry (h : s.started = false)
    (hentry : entryTokens (Scan.budget s.state.size) s.entry s.state = .ok batch state) :
    next s = pull (Scan.budget s.state.size) (Scan.budget s.state.size)
      { s with state, queue := s.queue ++ batch, started := true } := by
  obtain ⟨_, queue, entry, _⟩ := s
  obtain rfl := h
  show EStateM.bind (scanning (entryTokens _ entry)) _ _ = _
  rw [EStateM.bind, scanning, hentry]
  rfl

/-- The first step fails if the entry does. -/
theorem next_error {stop : Stop} (h : s.started = false)
    (hentry : entryTokens (Scan.budget s.state.size) s.entry s.state = .error stop state) :
    next s = .error stop { s with state, started := true } := by
  obtain ⟨_, queue, entry, _⟩ := s
  obtain rfl := h
  show EStateM.bind (scanning (entryTokens _ entry)) _ _ = _
  rw [EStateM.bind, scanning, hentry]

/-! ## Between two pulls -/

/-- A bound on the tokens that are left. The first tokens of a text may be two more than there is
ahead of its start. -/
def left (s : TokenStream) : Nat :=
  s.queue.length + s.state.ahead + if s.started then 0 else 3

/-- What holds of a stream between two pulls. -/
structure Sound (s : TokenStream) : Prop where
  state : s.state.Sound
  queue : Inner s.queue
  left_lt : s.left < Scan.budget s.state.size

/-- A stream over the same text that has no more left than a sound one. -/
theorem Sound.of_le (h : s.Sound) (hkeeps : s.state.Keeps s'.state) (hqueue : Inner s'.queue)
    (hleft : s'.left ≤ s.left) : s'.Sound := by
  refine ⟨hkeeps.sound, hqueue, ?_⟩
  rw [State.size, hkeeps.text]
  exact Nat.lt_of_le_of_lt hleft h.left_lt

/-- A step has fuel enough at any place of the text. -/
theorem Sound.not_exhausts (h : s.Sound) (task : Scan.Task) (hready : task.Ready s.state) :
    ¬ Exhausts (task.run (Scan.budget s.state.size)) s.state := by
  refine Scan.enough _ task s.state h.state hready ?_
  have hbudget := s.state.ahead_le_budget
  cases task <;> (dsimp only [Scan.Task.need]; omega)

/-- Where the fuel is enough an error is a problem. -/
theorem exists_problem {α : Type} {x : Scan.Scanner α} {stop : Stop} (h : ¬ Exhausts x s.state)
    (hx : x s.state = .error stop state) : ∃ d, stop = .problem d := by
  cases stop with
  | problem d => exact ⟨d, rfl⟩
  | exhausted => exact absurd ⟨state, hx⟩ h

/-- What a pull can do. -/
inductive Pulled (s : TokenStream) : EStateM.Result Stop TokenStream Token → Prop
  | token {t : Token} {s' : TokenStream} (hinner : t.kind ≠ .endOfText) (hsound : s'.Sound)
      (htext : s'.state.text = s.state.text) (hleft : s'.left < s.left) : Pulled s (.ok t s')
  | ended {s' : TokenStream} (htext : s'.state.text = s.state.text) (hqueue : s'.queue = [])
      (hend : s'.state.atEnd) :
      Pulled s (.ok (s'.state.token .endOfText .none s'.state.size s'.state.size) s')
  | problem (d : Diagnostic) (s' : TokenStream) : Pulled s (.error (.problem d) s')

/-- A pull from where the stream has come to is a pull from the stream. -/
theorem Pulled.of_le {r : EStateM.Result Stop TokenStream Token} (h : Pulled s' r)
    (htext : s'.state.text = s.state.text) (hleft : s'.left ≤ s.left) : Pulled s r := by
  cases h with
  | token hinner hsound htext' hleft' =>
      exact .token hinner hsound (htext'.trans htext) (Nat.lt_of_lt_of_le hleft' hleft)
  | ended htext' hqueue hend => exact .ended (htext'.trans htext) hqueue hend
  | problem d s' => exact .problem d s'

/-- The end is pulled as it should be. -/
theorem endToken_spec (hqueue : s.queue = []) (hend : s.state.atEnd) : Pulled s (endToken s) := by
  unfold endToken
  cases s.state.openTag with
  | some tag => exact .problem _ s
  | none => exact .ended rfl hqueue hend

/-- A token that waits is given, and less is left. -/
theorem Sound.give (hsound : s.Sound) (hqueue : s.queue = t :: queue) : t.kind ≠ .endOfText ∧
    Sound { s with queue, state := { s.state with after := some t.kind } } ∧
      left { s with queue, state := { s.state with after := some t.kind } } < s.left := by
  obtain ⟨ht, hinner⟩ := List.forall_mem_cons.1 (hqueue ▸ hsound.queue)
  have hahead : State.ahead { s.state with after := some t.kind } = s.state.ahead :=
    State.ahead_congr rfl rfl rfl
  have hleft : left { s with queue, state := { s.state with after := some t.kind } } < s.left := by
    show queue.length + State.ahead { s.state with after := some t.kind }
      + (if s.started then 0 else 3) < s.left
    rw [left, hqueue, hahead, List.length_cons]
    omega
  refine ⟨ht, hsound.of_le ?_ hinner (Nat.le_of_lt hleft), hleft⟩
  exact ⟨hsound.state.congr rfl rfl rfl, rfl⟩

/-- A step leaves less ahead of the cursor, and no more tokens than it has moved on. -/
theorem Sound.step (hsound : s.Sound) (hqueue : s.queue = []) (hend : s.state.atEnd = false)
    (hruns : Runs .step s.state batch state) :
    s.state.Keeps state ∧ Inner batch ∧ state.ahead < s.state.ahead ∧
      left { s with state, queue := batch } ≤ s.left := by
  obtain ⟨hkeeps, hlength, hlt⟩ := hruns.advances hsound.state trivial
  refine ⟨hkeeps, hruns.inner hsound.state trivial Scan.inner_nil, hlt hend, ?_⟩
  show batch.length + state.ahead + (if s.started then 0 else 3) ≤ s.left
  rw [left, hqueue, List.length_nil, Nat.zero_add]
  exact Nat.add_le_add_right hlength _

/-- A pull gives a token, the end of the text or a problem. -/
theorem pull_spec (hsound : s.Sound) (hstarted : s.started)
    (hstep : Scan.budget s.state.size = stepFuel)
    (hfuel : s.state.ahead < fuel) : Pulled s (pull stepFuel fuel s) := by
  have hpulls := pulls_pull stepFuel fuel s
  generalize pull stepFuel fuel s = r at hpulls ⊢
  induction hpulls with
  | exhausted s => exact absurd hfuel (Nat.not_lt_zero _)
  | queued hqueue =>
      obtain ⟨ht, hsound', hleft⟩ := hsound.give hqueue
      exact .token ht hsound' rfl hleft
  | ended hqueue hend => exact endToken_spec hqueue hend
  | failed hqueue hend hbatch =>
      subst hstep
      obtain ⟨d, rfl⟩ := exists_problem (hsound.not_exhausts .step trivial) hbatch
      exact .problem d _
  | step hqueue hend hruns hrest ih =>
      -- a step without tokens has moved on, so that the fuel is still enough
      obtain ⟨hkeeps, hinner, hlt, hleft⟩ := hsound.step hqueue hend hruns
      refine (ih (hsound.of_le hkeeps hinner hleft) hstarted ?_ ?_).of_le hkeeps.text hleft
      · exact (congrArg (fun text => Scan.budget (Text.byteLength text)) hkeeps.text).trans hstep
      · exact Nat.lt_of_lt_of_le hlt (Nat.le_of_lt_succ hfuel)

/-! ## The first tokens -/

theorem entryTokens_unquoted_eq (fuel : Nat) (state : State) : entryTokens fuel .unquoted state
    = (Scan.Task.fragments ⟨state.mode, state.escapes, false, state.pos⟩ state.pos true []).run
      fuel state := rfl

/-- Text without quotes is read at once. -/
theorem entryTokens_unquoted {state' : State}
    (h : entryTokens fuel .unquoted state = .ok batch state') :
    ∃ q, Runs (.fragments q state.pos true []) state batch state' := by
  rw [entryTokens_unquoted_eq] at h
  exact ⟨_, Scan.runs_of_run h⟩

theorem entryTokens_template_eq (fuel : Nat) (state : State) : entryTokens fuel .template state
    = EStateM.bind (Scan.takeTemplateText false)
      (fun text => pure (state.token .templateStart .none 0 0 :: text))
      { state with template := some .text } := rfl

/-- What the scan of the first tokens of a text can do: it gives tokens, two more than it moves on
at most, or a problem. -/
inductive Entered (s : TokenStream) : EStateM.Result Stop State (List Token) → Prop
  | tokens {batch : List Token} {state : State} (hkeeps : s.state.Keeps state)
      (hinner : Inner batch) (hlength : batch.length + state.ahead ≤ s.state.ahead + 2) :
      Entered s (.ok batch state)
  | problem (d : Diagnostic) (state : State) : Entered s (.error (.problem d) state)

/-- In code nothing waits at first. -/
theorem entered_code (hsound : s.Sound) :
    Entered s (entryTokens (Scan.budget s.state.size) .code s.state) := by
  refine .tokens ⟨hsound.state, rfl⟩ Scan.inner_nil ?_
  rw [List.length_nil, Nat.zero_add]
  exact Nat.le_add_right _ 2

/-- Text without quotes is scanned at once. -/
theorem entered_unquoted (hsound : s.Sound) :
    Entered s (entryTokens (Scan.budget s.state.size) .unquoted s.state) := by
  rw [entryTokens_unquoted_eq]
  cases hbatch : Scan.Task.run _ (.fragments _ s.state.pos true []) s.state with
  | error stop state =>
      obtain ⟨d, rfl⟩ := exists_problem (hsound.not_exhausts (.fragments _ _ _ _) trivial) hbatch
      exact .problem d state
  | ok batch state =>
      have hruns := Scan.runs_of_run hbatch
      obtain ⟨hkeeps, hlength, -⟩ := hruns.advances hsound.state trivial
      exact .tokens hkeeps (hruns.inner hsound.state trivial Scan.inner_nil)
        (Nat.le_succ_of_le hlength)

/-- The first text of a template is scanned at once. -/
theorem entered_template (hsound : s.Sound) :
    Entered s (entryTokens (Scan.budget s.state.size) .template s.state) := by
  obtain ⟨cs, hat⟩ := s.state.at_of_boundary hsound.state.cursor
  have hat' : State.At { s.state with template := some .text } cs := hat
  rw [entryTokens_template_eq, EStateM.bind]
  cases htext : Scan.takeTemplateText false { s.state with template := some .text } with
  | error stop state =>
      cases stop with
      | problem d => exact .problem d state
      | exhausted => exact absurd htext (Scan.unfueled_takeTemplateText false _ _)
  | ok text state =>
      obtain ⟨ds, rest, rfl, hmove, hlength, hplain⟩ := Scan.takeTemplateText_spec hat' htext
      have hahead := hmove.ahead hat'
      have hsame : State.ahead { s.state with template := some .text } = s.state.ahead :=
        State.ahead_congr rfl rfl rfl
      refine .tokens ⟨?_, hmove.text⟩ (.cons nofun hplain.inner) ?_
      · exact hmove.sound (hsound.state.congr rfl rfl rfl) hat'
      · rw [List.length_cons]
        omega

/-- Whatever is scanned at once does as entries should. -/
theorem entryTokens_spec (hsound : s.Sound) :
    Entered s (entryTokens (Scan.budget s.state.size) s.entry s.state) := by
  cases s.entry with
  | code => exact entered_code hsound
  | unquoted => exact entered_unquoted hsound
  | template => exact entered_template hsound

/-- The first tokens of a text are no more than what was left of the stream. -/
theorem Sound.enter (hsound : s.Sound) (hstarted : s.started = false) (hkeeps : s.state.Keeps state)
    (hinner : Inner batch) (hlength : batch.length + state.ahead ≤ s.state.ahead + 2) :
    Sound { s with state, queue := s.queue ++ batch, started := true } ∧
      left { s with state, queue := s.queue ++ batch, started := true } ≤ s.left := by
  have hleft : left { s with state, queue := s.queue ++ batch, started := true } ≤ s.left := by
    show (s.queue ++ batch).length + state.ahead + 0 ≤ s.left
    rw [left, hstarted, List.length_append]
    show s.queue.length + batch.length + state.ahead + 0 ≤ s.queue.length + s.state.ahead + 3
    omega
  exact ⟨hsound.of_le hkeeps (hsound.queue.append hinner) hleft, hleft⟩

/-- A pull from a sound stream gives a token, the end of the text or a problem. -/
theorem next_spec (hsound : s.Sound) : Pulled s (next s) := by
  have hbudget := s.state.ahead_le_budget
  cases hstarted : s.started with
  | true =>
      rw [next_started hstarted]
      exact pull_spec hsound hstarted rfl (by omega)
  | false =>
      have hentered := entryTokens_spec hsound
      generalize hentry : entryTokens (Scan.budget s.state.size) s.entry s.state = r at hentered
      cases hentered with
      | problem d state =>
          rw [next_error hstarted hentry]
          exact .problem d _
      | @tokens batch state hkeeps hinner hlength =>
          obtain ⟨hsound', hleft⟩ := hsound.enter hstarted hkeeps hinner hlength
          rw [next_entry hstarted hentry]
          refine (pull_spec hsound' rfl ?_ ?_).of_le hkeeps.text hleft
          · exact congrArg (fun text => Scan.budget (Text.byteLength text)) hkeeps.text
          · show state.ahead < Scan.budget s.state.size
            omega

end Manifest.TokenStream
