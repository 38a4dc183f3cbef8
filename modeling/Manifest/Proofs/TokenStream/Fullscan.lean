import Manifest.Proofs.TokenStream.Pull

/-!
# Scans of whole texts

Every scan of a text comes to an end: what is left of the stream decreases with each token, and
there is more fuel than that, though the cursor may go back after a line feed.

* `start_sound` — a stream at the start of a text is sound, whatever it scanned before.
* `fullscan_spec` — everything that a scan of the rest of a text can do.
* `fullscan_ends` — the scan of a text reaches its end or a problem.
-/

namespace Manifest.TokenStream

open Scan (State Stop Inner)

variable {s s' : TokenStream} {t : Token} {fuel : Nat}

/-! ## One unit of fuel -/

/-- The scan ends with the end of the text. -/
theorem fullscanWithin_last (h : next s = .ok t s') (ht : t.kind = .endOfText) :
    fullscanWithin (fuel + 1) s = .ok [t] s' := by
  show EStateM.bind next _ s = _
  rw [EStateM.bind, h]
  dsimp only
  rw [if_pos ht]
  rfl

/-- The scan goes on behind any token but the end of the text. -/
theorem fullscanWithin_more (h : next s = .ok t s') (ht : t.kind ≠ .endOfText) :
    fullscanWithin (fuel + 1) s = EStateM.map (t :: ·) (fullscanWithin fuel) s' := by
  show EStateM.bind next _ s = _
  rw [EStateM.bind, h]
  dsimp only
  rw [if_neg ht]
  rfl

/-- The scan fails with the first error. -/
theorem fullscanWithin_error {stop : Stop} (h : next s = .error stop s') :
    fullscanWithin (fuel + 1) s = .error stop s' := by
  show EStateM.bind next _ s = _
  rw [EStateM.bind, h]

/-! ## The start of a text -/

/-- A stream that is started again is sound. -/
theorem reset_sound (s : TokenStream) (text : List Char) (source : Text.Source) (entry : Entry) :
    (s.reset text source entry).Sound := by
  refine ⟨State.sound_start _ rfl rfl, Scan.inner_nil, ?_⟩
  have hbudget := (s.reset text source entry).state.ahead_le_budget
  show 0 + (s.reset text source entry).state.ahead + 3 < _
  omega

/-- Checking bytes changes nothing. -/
theorem checked_snd (s : TokenStream) (bytes : List UInt8) : (s.checked bytes).2 = s := by
  unfold checked
  split
  · rfl
  · rfl

theorem startText_snd (s : TokenStream) (text : List Char) (file : String) (entry : Entry) :
    (s.startText text file entry).2 = s.reset text (.document (.ofText text file)) entry :=
  checked_snd _ _

/-- The stream at the start of a text that is collected in some way. -/
def fresh (s : TokenStream) (text : List Char) (source : Text.Source) (entry : Entry)
    (escapes : Quote.EscapeSet) (mode : Quote.Mode) : TokenStream :=
  { s.reset text source entry with
    state := { (s.reset text source entry).state with escapes, mode } }

/-- Starting again keeps escapes and mode of the state, at most. -/
theorem reset_eq_fresh (s : TokenStream) (text : List Char) (source : Text.Source) (entry : Entry) :
    ∃ escapes mode, s.reset text source entry = s.fresh text source entry escapes mode :=
  ⟨_, _, rfl⟩

/-- Whatever a stream is started on, it is at the start of a text, also when its bytes are none that
can be scanned. -/
theorem start_eq_fresh (s : TokenStream) (input : Input) : ∃ text source entry escapes mode,
    (s.start input).2 = s.fresh text source entry escapes mode := by
  have hreset : ∀ {s' : TokenStream} {text source entry}, s' = s.reset text source entry →
      ∃ text source entry escapes mode, s' = s.fresh text source entry escapes mode := by
    rintro _ text source entry rfl
    exact ⟨text, source, entry, s.reset_eq_fresh text source entry⟩
  cases input with
  | manifest text file => exact hreset (s.startText_snd text file .code)
  | template text file => exact hreset (s.startText_snd text file .template)
  | bytes bytes file =>
      have hchecked := checked_snd (s.startText [] file .code).2 bytes
      rw [startText_snd] at hchecked
      rw [start, startText_snd]
      generalize (s.reset [] (.document (.ofText [] file)) .code).checked bytes =
        checked at hchecked
      obtain ⟨result, s₁⟩ := checked
      obtain rfl : s₁ = _ := hchecked
      cases result with
      | error d => exact hreset rfl
      | ok _ =>
          dsimp only
          split
          · exact hreset (startText_snd _ _ _ _)
          · exact hreset rfl
  | unquoted text source escapes interpolates => exact ⟨_, _, _, _, _, rfl⟩

/-- A stream is sound once it is started. -/
theorem start_sound (s : TokenStream) (input : Input) : (s.start input).2.Sound := by
  obtain ⟨text, source, entry, escapes, mode, heq⟩ := s.start_eq_fresh input
  have hreset := s.reset_sound text source entry
  rw [heq]
  exact ⟨hreset.state.congr rfl rfl rfl, hreset.queue, hreset.left_lt⟩

/-! ## Scans -/

/-- What a scan of the rest of a text can do. -/
inductive Scanned (s : TokenStream) : EStateM.Result Stop TokenStream (List Token) → Prop
  | ended {ts : List Token} {s' : TokenStream} (hinner : Inner ts)
      (htext : s'.state.text = s.state.text) (hqueue : s'.queue = []) (hend : s'.state.atEnd) :
      Scanned s (.ok (ts ++ [s'.state.token .endOfText .none s'.state.size s'.state.size]) s')
  | problem (d : Diagnostic) (s' : TokenStream) : Scanned s (.error (.problem d) s')

/-- With more fuel than tokens are left, a scan comes to an end. -/
theorem fullscanWithin_spec (hsound : s.Sound) (hfuel : s.left < fuel) :
    Scanned s (fullscanWithin fuel s) := by
  induction fuel generalizing s with
  | zero => exact absurd hfuel (Nat.not_lt_zero _)
  | succ fuel ih =>
      have hpulled := next_spec hsound
      generalize hnext : next s = r at hpulled
      cases hpulled with
      | problem d s' =>
          rw [fullscanWithin_error hnext]
          exact .problem d s'
      | ended htext hqueue hend =>
          rw [fullscanWithin_last hnext rfl]
          exact .ended Scan.inner_nil htext hqueue hend
      | @token t s' hinner hsound' htext hleft =>
          -- each token leaves fewer of them
          rw [fullscanWithin_more hnext hinner, EStateM.map]
          have hscanned := ih hsound' (Nat.lt_of_lt_of_le hleft (Nat.le_of_lt_succ hfuel))
          generalize fullscanWithin fuel s' = r at hscanned
          cases hscanned with
          | ended hrest htext' hqueue hend =>
              exact .ended (.cons hinner hrest) (htext'.trans htext) hqueue hend
          | problem d s' => exact .problem d s'

/-- The scan of the rest of a text comes to an end. -/
theorem fullscan_spec (hsound : s.Sound) : Scanned s (fullscan s) :=
  fullscanWithin_spec hsound hsound.left_lt

/-- The scan of a text ends with the token at the end of the text, behind which nothing waits, or
with a problem; its fuel depends on nothing but the length of the text, and is enough. -/
theorem fullscan_ends (s : TokenStream) (input : Input) :
    (∃ ts s', fullscan (s.start input).2
        = .ok (ts ++ [s'.state.token .endOfText .none s'.state.size s'.state.size]) s' ∧
      (∀ t ∈ ts, t.kind ≠ .endOfText) ∧ s'.state.text = (s.start input).2.state.text ∧
      s'.queue = [] ∧ s'.state.atEnd) ∨
    ∃ d s', fullscan (s.start input).2 = .error (.problem d) s' := by
  have hscanned := fullscan_spec (s.start_sound input)
  generalize hscan : fullscan (s.start input).2 = r at hscanned
  cases hscanned with
  | ended hinner htext hqueue hend => exact .inl ⟨_, _, rfl, hinner, htext, hqueue, hend⟩
  | problem d s' => exact .inr ⟨d, s', rfl⟩

end Manifest.TokenStream
