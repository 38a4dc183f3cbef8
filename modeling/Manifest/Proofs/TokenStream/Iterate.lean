import Manifest.Proofs.TokenStream.Fullscan
import Mathlib.Logic.Function.Iterate

/-!
# Iterating over a stream

An iterator gives what pulls give, up to the end of the text or the first problem, and nothing after
that. It knows that it has come to an end from what the stream keeps anyway, above all from the kind
of the last token: this is the end of the text only behind the last call, as every other token that
is given has a kind of its own.

* `outcome`, `behind` — a pull that may meet a problem, and the stream that goes on after it.
* `pulled`, `called` — one of a series of pulls, and one of a series of calls of an iterator.
* `iterate_fullscan` — a whole series of calls, for every text.
-/

namespace Manifest.TokenStream

open Scan (Stop)

variable {s s' : TokenStream} {t : Token} {stepFuel fuel k : Nat}

/-! ## Series of pulls and of calls -/

/-- What a pull gives. -/
def outcome (s : TokenStream) : Except Stop Token :=
  match next s with
  | .ok t _ => .ok t
  | .error stop _ => .error stop

/-- The stream behind a pull; it goes on behind a problem, too. -/
def behind (s : TokenStream) : TokenStream :=
  match next s with
  | .ok _ s' => s'
  | .error _ s' => s'

/-- What a pull gives after `k` others. -/
def pulled (k : Nat) (s : TokenStream) : Except Stop Token := (behind^[k] s).outcome

/-- What an iterator gives after `k` other calls. -/
def called (k : Nat) (s : TokenStream) : Option (Except Stop Token) :=
  ((fun s => s.iterate.2)^[k] s).iterate.1

/-- A token is the outcome, and the stream goes on behind it. -/
theorem outcome_ok (h : next s = .ok t s') : s.outcome = .ok t ∧ s.behind = s' := by
  unfold outcome behind
  rw [h]
  exact ⟨rfl, rfl⟩

/-- An error is the outcome. -/
theorem outcome_error {stop : Stop} (h : next s = .error stop s') :
    s.outcome = .error stop ∧ s.behind = s' := by
  unfold outcome behind
  rw [h]
  exact ⟨rfl, rfl⟩

theorem pulled_succ (k : Nat) (s : TokenStream) : pulled (k + 1) s = pulled k s.behind := rfl

theorem called_succ (k : Nat) (s : TokenStream) : called (k + 1) s = called k s.iterate.2 := rfl

/-! ## What a pull leaves behind -/

/-- The last token that was given is the one that the stream remembers, unless it marks the end of
the text. -/
def Remembers (t : Token) (s : TokenStream) : Prop :=
  t.kind = .endOfText ∨ s.state.after = some t.kind

/-- A pull leaves the stream started and remembers its token. -/
theorem pull_behind (hstarted : s.started) : match pull stepFuel fuel s with
    | .ok t s' => s'.started ∧ Remembers t s'
    | .error _ s' => s'.started := by
  have hpulls := pulls_pull stepFuel fuel s
  generalize pull stepFuel fuel s = r at hpulls ⊢
  induction hpulls with
  | exhausted s => exact hstarted
  | queued hqueue => exact ⟨hstarted, .inr rfl⟩
  | @ended fuel s hqueue hend =>
      rw [endToken]
      cases s.state.openTag with
      | some tag => exact hstarted
      | none => exact ⟨hstarted, .inl rfl⟩
  | failed hqueue hend hbatch => exact hstarted
  | step hqueue hend hruns hrest ih => exact ih hstarted

/-- The next token leaves the stream started and is remembered. -/
theorem next_behind (s : TokenStream) : match next s with
    | .ok t s' => s'.started ∧ Remembers t s'
    | .error _ s' => s'.started := by
  cases hstarted : s.started with
  | true =>
      rw [next_started hstarted]
      exact pull_behind hstarted
  | false =>
      cases hentry : entryTokens (Scan.budget s.state.size) s.entry s.state with
      | error stop state => rw [next_error hstarted hentry]
      | ok batch state =>
          rw [next_entry hstarted hentry]
          exact pull_behind rfl

/-! ## One call -/

/-- The end of the text was not given yet. -/
def Unended (s : TokenStream) : Prop := s.state.after ≠ some .endOfText

/-- What has not ended is not finished. -/
theorem Unended.not_isFinished (h : s.Unended) : s.isFinished = false := by
  rw [isFinished, decide_eq_false h, Bool.and_false]

/-- Nothing is to be had from an iterator that has come to its end, however often it is called. -/
theorem called_of_isFinished (h : s.isFinished) (k : Nat) : called k s = none := by
  have hcall : s.iterate = (none, s) := by rw [iterate, if_pos h]
  induction k with
  | zero =>
      show s.iterate.1 = none
      rw [hcall]
  | succ k ih =>
      rw [called_succ, hcall]
      exact ih

/-- A finished stream stays finished. -/
theorem isFinished_finished (h : s.started) : s.finished.isFinished := by
  have hend : s.finished.state.atEnd := decide_eq_true (Nat.le_refl _)
  rw [isFinished, hend]
  show (s.started && true && true && decide _) = true
  rw [h]
  rfl

/-- An iterator gives the problem of a pull, and nothing after it. -/
theorem iterate_problem {stop : Stop} (hunended : s.Unended) (h : next s = .error stop s')
    (k : Nat) :
    called k s = [Except.error stop][k]? := by
  have hcall : s.iterate = (some (.error stop), s'.finished) := by
    rw [iterate, hunended.not_isFinished, if_neg Bool.false_ne_true, h]
  have hstarted := next_behind s
  rw [h] at hstarted
  cases k with
  | zero => exact congrArg Prod.fst hcall
  | succ k =>
      rw [called_succ, hcall]
      exact called_of_isFinished (isFinished_finished hstarted) k

/-- An iterator gives the end of the text once. -/
theorem iterate_last (hunended : s.Unended) (h : next s = .ok t s') (ht : t.kind = .endOfText)
    (hqueue : s'.queue = []) (hend : s'.state.atEnd) (k : Nat) :
    called k s = ([t].map Except.ok)[k]? := by
  have hcall : s.iterate = (some (.ok t), { s' with state := { s'.state with
      after := some .endOfText } }) := by
    rw [iterate, hunended.not_isFinished, if_neg Bool.false_ne_true, h]
    dsimp only
    rw [if_pos ht]
  have hstarted := next_behind s
  rw [h] at hstarted
  cases k with
  | zero => exact congrArg Prod.fst hcall
  | succ k =>
      rw [called_succ, hcall]
      refine called_of_isFinished ?_ k
      show (s'.started && s'.queue.isEmpty && s'.state.atEnd && _) = true
      rw [hstarted.1, hqueue, hend]
      rfl

/-- An iterator gives any other token, and goes on where the pull has led. -/
theorem iterate_token (hunended : s.Unended) (h : next s = .ok t s') (ht : t.kind ≠ .endOfText) :
    s.iterate = (some (.ok t), s') := by
  rw [iterate, hunended.not_isFinished, if_neg Bool.false_ne_true, h]
  dsimp only
  rw [if_neg ht]

/-- Where a pull gives any other token, the end of the text is still to come. -/
theorem unended_of_next (h : next s = .ok t s') (ht : t.kind ≠ .endOfText) : s'.Unended := by
  have hbehind := next_behind s
  rw [h] at hbehind
  rcases hbehind.2 with hlast | hafter
  · exact absurd hlast ht
  · rw [Unended, hafter]
    exact fun heq => ht (Option.some.inj heq)

/-! ## Whole series -/

/-- What pulls and calls of an iterator give from the stream on, when a scan of the rest of its text
has this result: where it succeeds, a call gives each of the tokens; where it meets a problem, pulls
give some tokens and then the problem, and calls give the same. Nothing follows in either case. -/
def Agrees (s : TokenStream) : EStateM.Result Stop TokenStream (List Token) → Prop
  | .ok ts _ => ∀ k, called k s = (ts.map Except.ok)[k]?
  | .error stop _ => ∃ (d : Diagnostic) (ts : List Token), stop = .problem d ∧
      (∀ k ≤ ts.length, some (pulled k s) = (ts.map Except.ok ++ [.error stop])[k]?) ∧
      ∀ k, called k s = (ts.map Except.ok ++ [.error stop])[k]?

/-- An error ends the calls and the scan. -/
theorem agrees_problem {d : Diagnostic} (hunended : s.Unended)
    (h : next s = .error (.problem d) s') :
    Agrees s (.error (.problem d) s') := by
  refine ⟨d, [], rfl, ?_, iterate_problem hunended h⟩
  intro k hk
  obtain rfl := Nat.le_zero.1 hk
  exact congrArg some (outcome_error h).1

/-- A token that is given stands before what is given behind it. -/
theorem Agrees.token {scan : Pull (List Token)} (hunended : s.Unended) (h : next s = .ok t s')
    (ht : t.kind ≠ .endOfText) (hrest : Agrees s' (scan s')) :
    Agrees s (EStateM.map (t :: ·) scan s') := by
  have hcall := iterate_token hunended h ht
  obtain ⟨houtcome, hbehind⟩ := outcome_ok h
  rw [EStateM.map]
  cases hscan : scan s' with
  | ok ts s'' =>
      rw [hscan] at hrest
      intro k
      cases k with
      | zero => exact congrArg Prod.fst hcall
      | succ k =>
          rw [called_succ, hcall]
          exact hrest k
  | error stop s'' =>
      rw [hscan] at hrest
      obtain ⟨d, ts, hstop, hpulled, hcalled⟩ := hrest
      refine ⟨d, t :: ts, hstop, ?_, ?_⟩
      · intro k hk
        cases k with
        | zero => exact congrArg some houtcome
        | succ k =>
            rw [pulled_succ, hbehind]
            exact hpulled k (Nat.le_of_succ_le_succ hk)
      · intro k
        cases k with
        | zero => exact congrArg Prod.fst hcall
        | succ k =>
            rw [called_succ, hcall]
            exact hcalled k

/-- An iterator agrees with a scan whose fuel is enough. -/
theorem agrees_fullscanWithin (hsound : s.Sound) (hunended : s.Unended) (hfuel : s.left < fuel) :
    Agrees s (fullscanWithin fuel s) := by
  induction fuel generalizing s with
  | zero => exact absurd hfuel (Nat.not_lt_zero _)
  | succ fuel ih =>
      have hpulled := next_spec hsound
      generalize hnext : next s = r at hpulled
      cases hpulled with
      | problem d s' =>
          rw [fullscanWithin_error hnext]
          exact agrees_problem hunended hnext
      | ended htext hqueue hend =>
          rw [fullscanWithin_last hnext rfl]
          exact iterate_last hunended hnext rfl hqueue hend
      | @token t s' hinner hsound' htext hleft =>
          -- each token leaves fewer of them, and none of them marks the end
          have hrest := ih hsound' (unended_of_next hnext hinner)
            (Nat.lt_of_lt_of_le hleft (Nat.le_of_lt_succ hfuel))
          rw [fullscanWithin_more hnext hinner]
          exact hrest.token hunended hnext hinner

/-- At the start of a text its end was not given. -/
theorem unended_start (s : TokenStream) (input : Input) : (s.start input).2.Unended := by
  obtain ⟨text, source, entry, escapes, mode, heq⟩ := s.start_eq_fresh input
  rw [heq]
  exact nofun

/-- An iterator agrees with pulls, on every text. Where a scan of the whole text succeeds, the calls
give its tokens, the one at the end of the text included, and nothing after that. Where it meets a
problem, the calls give the tokens that pulls give before, the problem, and nothing after that. -/
theorem iterate_fullscan (s : TokenStream) (input : Input) :
    match fullscan (s.start input).2 with
    | .ok ts _ => ∀ k, called k (s.start input).2 = (ts.map Except.ok)[k]?
    | .error stop _ => ∃ (d : Diagnostic) (ts : List Token), stop = .problem d ∧
        (∀ k ≤ ts.length,
          some (pulled k (s.start input).2) = (ts.map Except.ok ++ [.error stop])[k]?) ∧
        ∀ k, called k (s.start input).2 = (ts.map Except.ok ++ [.error stop])[k]? := by
  have hsound := s.start_sound input
  have hagrees : Agrees (s.start input).2 (fullscan (s.start input).2) :=
    agrees_fullscanWithin hsound (s.unended_start input) hsound.left_lt
  generalize fullscan (s.start input).2 = r at hagrees ⊢
  cases r with
  | ok ts s' => exact hagrees
  | error stop s' => exact hagrees

end Manifest.TokenStream
