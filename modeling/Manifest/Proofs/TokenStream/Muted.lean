import Manifest.Proofs.Scan.Muted
import Manifest.Proofs.TokenStream.Iterate

/-!
# Streams that keep quiet about escapes

A stream that reports no unknown escapes is the muted image of one that does, at the start of a text
and behind every pull, also when pulls go on behind a problem.

* `mirrors_next` — a pull from the image gives what a pull from the stream gives.
* `pulls_unwarned` — two streams that differ in what they report give the same, pull by pull.
-/

namespace Manifest.TokenStream

open Scan (Mirrors Mutes State mapState mirrors_bind mirrors_get mirrors_pure mirrors_set)

variable {s : TokenStream} {stepFuel fuel : Nat}

/-- The stream without unknown escapes. -/
def muted (s : TokenStream) : TokenStream := { s with state := s.state.muted }

/-! ## Starting -/

/-- Bytes are checked alike. -/
theorem checked_muted (s : TokenStream) (bytes : List UInt8) :
    s.muted.checked bytes = ((s.checked bytes).1, (s.checked bytes).2.muted) := by
  unfold checked
  cases markProblem? bytes with
  | some p => rfl
  | none => rfl

/-- A text is started alike. -/
theorem startText_muted (s : TokenStream) (text : List Char) (file : String) (entry : Entry) :
    s.muted.startText text file entry =
      ((s.startText text file entry).1, (s.startText text file entry).2.muted) :=
  checked_muted (s.reset text (.document (.ofText text file)) entry) _

/-- A text is started with the same result. -/
theorem start_muted (s : TokenStream) (input : Input) :
    s.muted.start input = ((s.start input).1, (s.start input).2.muted) := by
  cases input with
  | manifest text file => exact s.startText_muted text file .code
  | template text file => exact s.startText_muted text file .template
  | bytes bytes file =>
      have hempty : (s.muted.startText [] file .code).2 = (s.startText [] file .code).2.muted :=
        congrArg Prod.snd (s.startText_muted [] file .code)
      dsimp only [start]
      rw [hempty, checked_muted]
      rcases (s.startText [] file .code).2.checked bytes with ⟨_ | _, s'⟩
      · rfl
      · rcases Text.decodeUtf8 bytes with ⟨text, _ | _⟩
        · rfl
        · exact s'.startText_muted text file .code
  | unquoted text source escapes interpolates => rfl

/-! ## Pulling -/

/-- Scanning is mirrored if its rule is. -/
theorem mirrors_scanning {α : Type} {x x' : Scan.Scanner α} (h : Mutes x x' s.state) :
    Mirrors muted (scanning x) (scanning x') s := by
  show scanning x' s.muted = mapState muted (scanning x s)
  unfold scanning
  have hstate : x' s.muted.state = mapState State.muted (x s.state) := h
  rw [hstate]
  cases x s.state with
  | ok a state => rfl
  | error e state => rfl

/-- The first tokens do not depend on warnings. -/
theorem mutes_entryTokens (entry : Entry) (state : State) :
    Mutes (entryTokens fuel entry) (entryTokens fuel entry) state := by
  cases entry with
  | code => exact mirrors_pure _
  | unquoted => exact mirrors_get (Scan.mutes_run fuel (.fragments _ _ true []) state)
  | template =>
      refine mirrors_get (mirrors_set (mirrors_bind (Scan.mirrors_takeTemplateText false) ?_))
      exact fun text state => mirrors_pure _

/-- The end does not depend on warnings. -/
theorem mirrors_endToken : Mirrors muted endToken endToken s := by
  show endToken s.muted = mapState muted (endToken s)
  unfold endToken
  have htag : s.muted.state.openTag = s.state.openTag := rfl
  rw [htag]
  cases s.state.openTag with
  | some tag => rfl
  | none => rfl

/-- A pull does not depend on warnings. -/
theorem mirrors_pull : Mirrors muted (pull stepFuel fuel) (pull stepFuel fuel) s := by
  induction fuel generalizing s with
  | zero => rfl
  | succ fuel ih =>
      unfold pull
      refine mirrors_get ?_
      have hqueue : s.muted.queue = s.queue := rfl
      dsimp only
      rw [hqueue]
      cases s.queue with
      | cons t queue => exact mirrors_set (mirrors_pure _)
      | nil =>
          refine Scan.mirrors_ite mirrors_endToken ?_
          refine mirrors_bind (mirrors_scanning (Scan.mutes_run stepFuel .step s.state)) ?_
          exact fun batch s₁ => mirrors_bind rfl fun _ s₂ => ih

/-- A pull gives the same when unknown escapes are not reported. -/
theorem mirrors_next : Mirrors muted next next s := by
  cases hstarted : s.started with
  | true =>
      show next s.muted = mapState muted (next s)
      rw [next_started hstarted, next_started (s := s.muted) hstarted]
      exact mirrors_pull
  | false =>
      have hentry : entryTokens (Scan.budget s.state.size) s.entry s.muted.state =
          mapState State.muted (entryTokens (Scan.budget s.state.size) s.entry s.state) :=
        mutes_entryTokens s.entry s.state
      show next s.muted = mapState muted (next s)
      cases hfirst : entryTokens (Scan.budget s.state.size) s.entry s.state with
      | ok batch state =>
          rw [hfirst] at hentry
          rw [next_entry hstarted hfirst, next_entry (s := s.muted) hstarted hentry]
          exact mirrors_pull (s := { s with state, queue := s.queue ++ batch, started := true })
      | error stop state =>
          rw [hfirst] at hentry
          rw [next_error hstarted hfirst, next_error (s := s.muted) hstarted hentry]
          rfl

/-- The outcome is the same. -/
theorem outcome_muted (s : TokenStream) : s.muted.outcome = s.outcome := by
  have hnext : next s.muted = mapState muted (next s) := mirrors_next
  unfold outcome
  rw [hnext]
  cases next s with
  | ok t s' => rfl
  | error stop s' => rfl

/-- The streams stay images behind every pull. -/
theorem muted_behind : Function.Semiconj muted behind behind := by
  intro s
  have hnext : next s.muted = mapState muted (next s) := mirrors_next
  unfold behind
  rw [hnext]
  cases next s with
  | ok t s' => rfl
  | error stop s' => rfl

/-- What is reported does not change what is given. Of two streams that start on a text in any mode,
one reports unknown escapes and one does not. A pull gives the same token or the same problem from
both, after any number of pulls, and the diagnostics of the one are then those of the other without
the unknown escapes. -/
theorem pulls_unwarned (tasks : Bool) (input : Input) (k : Nat) :
    ((empty ⟨tasks, false⟩).start input).1 = ((empty ⟨tasks, true⟩).start input).1 ∧
    pulled k ((empty ⟨tasks, false⟩).start input).2 =
      pulled k ((empty ⟨tasks, true⟩).start input).2 ∧
    (behind^[k] ((empty ⟨tasks, false⟩).start input).2).state.diagnostics =
      (behind^[k] ((empty ⟨tasks, true⟩).start input).2).state.diagnostics.filter
        (·.code ≠ .unknownEscape) := by
  have hstart : (empty ⟨tasks, false⟩).start input = _ := (empty ⟨tasks, true⟩).start_muted input
  rw [hstart]
  have hbehind := muted_behind.iterate_right k ((empty ⟨tasks, true⟩).start input).2
  refine ⟨rfl, ?_, ?_⟩
  · unfold pulled
    rw [← hbehind]
    exact outcome_muted _
  · rw [← hbehind]
    rfl

end Manifest.TokenStream
