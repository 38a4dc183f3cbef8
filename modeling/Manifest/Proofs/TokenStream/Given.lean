import Manifest.Proofs.TokenStream.Fullscan

/-!
# What a stream has given

A stream hands out the tokens that wait in it, and scans further when none waits. `Given` follows it
from its start without its fuel: what holds of the tokens that a stream gives, and of those that
wait, is proved by induction on it.

* `Given` — the tokens that a stream has given, and the stream as it is then.
* `fullscan_given` — a scan of a whole text ends when nothing waits and nothing is left of the text.
* `scanAll_given` — the same for all tokens of a manifest.
-/

namespace Manifest.TokenStream

open Scan (State Runs)
open Text (Source byteLength)

variable {s₀ s s' : TokenStream} {given ts : List Token} {t : Token} {stepFuel fuel : Nat}

/-- From its start on, the stream has given the tokens. -/
inductive Given (s₀ : TokenStream) : List Token → TokenStream → Prop
  | start : Given s₀ [] s₀
  /-- the first tokens of a text -/
  | entry {given batch : List Token} {s : TokenStream} {state : State} (h : Given s₀ given s)
      (hstarted : s.started = false)
      (hentry : entryTokens (Scan.budget s.state.size) s.entry s.state = .ok batch state) :
      Given s₀ given { s with state, queue := s.queue ++ batch, started := true }
  /-- a step when no token waits -/
  | step {given batch : List Token} {s : TokenStream} {state : State} (h : Given s₀ given s)
      (hqueue : s.queue = []) (hend : s.state.atEnd = false)
      (hruns : Runs .step s.state batch state) : Given s₀ given { s with state, queue := batch }
  /-- the first token that waits -/
  | token {given queue : List Token} {s : TokenStream} {t : Token} (h : Given s₀ given s)
      (hqueue : s.queue = t :: queue) :
      Given s₀ (given ++ [t]) { s with queue, state := { s.state with after := some t.kind } }

/-- The token at the end of a text. -/
def endOf (source : Source) (text : List Char) : Token :=
  ⟨.endOfText, .none, .point (byteLength text), source⟩

/-- The token at the end. -/
theorem token_endOfText (s : State) :
    s.token .endOfText .none s.size s.size = endOf s.source s.text := by
  show (⟨.endOfText, .none, ⟨_, max _ _⟩, _⟩ : Token) = _
  rw [Nat.max_self]
  rfl

/-- Where no tag is open the end is given. -/
theorem endToken_closed (h : s.state.openTag = none) :
    endToken s = .ok (endOf s.state.source s.state.text) s := by
  rw [endToken, h]
  dsimp only
  rw [token_endOfText]

/-- The end is given only where no tag is open. -/
theorem endToken_ok (h : endToken s = .ok t s') :
    t = endOf s.state.source s.state.text ∧ s' = s ∧ s.state.openTag = none := by
  unfold endToken at h
  split at h
  next => exact nomatch h
  next hopenTag =>
    obtain ⟨rfl, rfl⟩ := EStateM.Result.ok.inj h
    exact ⟨token_endOfText _, rfl, hopenTag⟩

/-- A sound stream stays sound. -/
theorem Given.sound (h : Given s₀ given s) (hsound : s₀.Sound) : s.Sound := by
  induction h with
  | start => exact hsound
  | entry _ hstarted hentry ih =>
      have hentered := entryTokens_spec ih
      rw [hentry] at hentered
      cases hentered with
      | tokens hkeeps hinner hlength => exact (ih.enter hstarted hkeeps hinner hlength).1
  | step _ hqueue hend hruns ih =>
      obtain ⟨hkeeps, hinner, -, hleft⟩ := ih.step hqueue hend hruns
      exact ih.of_le hkeeps hinner hleft
  | token _ hqueue ih => exact (ih.give hqueue).2.1

/-- The first tokens of a text are read once. -/
theorem Given.started (h : Given s₀ given s) (hstarted : s₀.started) : s.started := by
  induction h with
  | start => exact hstarted
  | entry => rfl
  | step _ _ _ _ ih => exact ih
  | token _ _ ih => exact ih

/-- A token was given, or the one at the end of the text, where no token waits and no template tag
is open. -/
def Gave (s₀ : TokenStream) (given : List Token) (t : Token) (s : TokenStream) : Prop :=
  t.kind ≠ .endOfText ∧ Given s₀ (given ++ [t]) s ∨
    t = endOf s.state.source s.state.text ∧ Given s₀ given s ∧ s.queue = [] ∧ s.state.atEnd ∧
      s.state.openTag = none

/-- A token that is pulled is given next. -/
theorem pull_gave (hsound : s₀.Sound) (hgiven : Given s₀ given s)
    (h : pull stepFuel fuel s = .ok t s') : Gave s₀ given t s' := by
  have hpulls := pulls_pull stepFuel fuel s
  generalize pull stepFuel fuel s = r at hpulls h
  induction hpulls with
  | exhausted s => exact nomatch h
  | queued hqueue =>
      obtain ⟨rfl, rfl⟩ := EStateM.Result.ok.inj h
      exact .inl ⟨((hgiven.sound hsound).give hqueue).1, hgiven.token hqueue⟩
  | ended hqueue hend =>
      obtain ⟨rfl, rfl, hopenTag⟩ := endToken_ok h
      exact .inr ⟨rfl, hgiven, hqueue, hend, hopenTag⟩
  | failed hqueue hend hbatch => exact nomatch h
  | step hqueue hend hruns hrest ih => exact ih (hgiven.step hqueue hend hruns) h

/-- The next token is given. -/
theorem next_gave (hsound : s₀.Sound) (hgiven : Given s₀ given s) (h : next s = .ok t s') :
    Gave s₀ given t s' := by
  cases hstarted : s.started with
  | true =>
      rw [next_started hstarted] at h
      exact pull_gave hsound hgiven h
  | false =>
      cases hentry : entryTokens (Scan.budget s.state.size) s.entry s.state with
      | error stop state =>
          rw [next_error hstarted hentry] at h
          exact nomatch h
      | ok batch state =>
          rw [next_entry hstarted hentry] at h
          exact pull_gave hsound (hgiven.entry hstarted hentry) h

/-- A scan of the rest of a text ends when nothing waits and nothing is left. -/
theorem fullscanWithin_given (hsound : s₀.Sound) (hgiven : Given s₀ given s)
    (h : fullscanWithin fuel s = .ok ts s') :
    ∃ body, ts = body ++ [endOf s'.state.source s'.state.text] ∧ Given s₀ (given ++ body) s' ∧
      s'.queue = [] ∧ s'.state.atEnd ∧ s'.state.openTag = none := by
  induction fuel generalizing s given ts with
  | zero => exact nomatch h
  | succ fuel ih =>
      cases hnext : next s with
      | error stop s₁ =>
          rw [fullscanWithin_error hnext] at h
          exact nomatch h
      | ok t s₁ =>
          rcases next_gave hsound hgiven hnext with ⟨ht, hgiven'⟩ | ⟨rfl, hgiven', hended⟩
          · rw [fullscanWithin_more hnext ht, EStateM.map] at h
            split at h
            next rest s₂ hrest =>
              obtain ⟨rfl, rfl⟩ := EStateM.Result.ok.inj h
              obtain ⟨body, rfl, hlast, hended⟩ := ih hgiven' hrest
              rw [List.append_assoc] at hlast
              exact ⟨t :: body, rfl, hlast, hended⟩
            next => exact nomatch h
          · rw [fullscanWithin_last hnext rfl] at h
            obtain ⟨rfl, rfl⟩ := EStateM.Result.ok.inj h
            rw [← List.append_nil given] at hgiven'
            exact ⟨[], rfl, hgiven', hended⟩

/-- A whole scan gives all tokens up to the end. -/
theorem fullscan_given (hsound : s.Sound) (h : fullscan s = .ok ts s') :
    ∃ body, ts = body ++ [endOf s'.state.source s'.state.text] ∧ Given s body s' ∧
      s'.queue = [] ∧ s'.state.atEnd ∧ s'.state.openTag = none :=
  fullscanWithin_given hsound .start h

/-- The stream once the first tokens of its text wait. -/
def entered (s : TokenStream) (batch : List Token) (state : State) : TokenStream :=
  { s with state, queue := s.queue ++ batch, started := true }

/-- A scan goes on from what the first pull leaves. -/
theorem fullscanWithin_congr (h : next s = next s₀) :
    fullscanWithin (fuel + 1) s = fullscanWithin (fuel + 1) s₀ := by
  show EStateM.bind next _ s = EStateM.bind next _ s₀
  rw [EStateM.bind, EStateM.bind, h]

theorem Sound.exists_budget (h : s.Sound) : ∃ fuel, Scan.budget s.state.size = fuel + 1 :=
  Nat.exists_eq_succ_of_ne_zero (Nat.ne_zero_of_lt h.left_lt)

/-- A scan of a whole text is one of the stream in which its first tokens wait. -/
theorem fullscan_eq_entered {batch : List Token} {state : State} (hsound : s.Sound)
    (hstarted : s.started = false)
    (hentry : entryTokens (Scan.budget s.state.size) s.entry s.state = .ok batch state) :
    (s.entered batch state).Sound ∧ fullscan s = fullscan (s.entered batch state) := by
  obtain ⟨fuel, hfuel⟩ := hsound.exists_budget
  have hspec := entryTokens_spec hsound
  rw [hentry] at hspec
  cases hspec with
  | tokens hkeeps hinner hlength =>
      have hsize : (s.entered batch state).state.size = s.state.size :=
        congrArg byteLength hkeeps.text
      have hnext : next s = next (s.entered batch state) := by
        rw [next_entry hstarted hentry, next_started rfl, hsize]
        rfl
      refine ⟨(hsound.enter hstarted hkeeps hinner hlength).1, ?_⟩
      rw [fullscan, fullscan, hsize, hfuel, fullscanWithin_congr hnext]

/-- A scan of a whole text begins with its first tokens, and is one of the stream in which they
wait. -/
theorem fullscan_entered (hsound : s.Sound) (hstarted : s.started = false)
    (h : fullscan s = .ok ts s') : ∃ batch state,
      entryTokens (Scan.budget s.state.size) s.entry s.state = .ok batch state ∧
      (s.entered batch state).Sound ∧ fullscan (s.entered batch state) = .ok ts s' := by
  cases hentry : entryTokens (Scan.budget s.state.size) s.entry s.state with
  | error stop state =>
      obtain ⟨fuel, hfuel⟩ := hsound.exists_budget
      rw [fullscan, hfuel, fullscanWithin_error (next_error hstarted hentry)] at h
      exact nomatch h
  | ok batch state =>
      obtain ⟨hsound', hentered⟩ := fullscan_eq_entered hsound hstarted hentry
      exact ⟨batch, state, rfl, hsound', hentered ▸ h⟩

/-- At the end of the text, a scan gives what waits, and then the end. -/
theorem fullscanWithin_drain (hsound : s.Sound) (hstarted : s.started) (hend : s.state.atEnd)
    (hfuel : s.queue.length < fuel) :
    ∃ after, fullscanWithin fuel s = EStateM.map (s.queue ++ [·]) endToken
      { s with queue := [], state := { s.state with after } } := by
  generalize hqueue : s.queue = queue at hfuel
  -- each token that waits is pulled without a step
  induction queue generalizing s fuel with
  | nil =>
      obtain ⟨fuel, rfl⟩ := Nat.exists_eq_succ_of_ne_zero (Nat.ne_zero_of_lt hfuel)
      obtain ⟨stepFuel, hbudget⟩ := hsound.exists_budget
      have hnext : next s = endToken s := by
        rw [next_started hstarted, hbudget, pull_atEnd hqueue hend]
      refine ⟨s.state.after, ?_⟩
      rw [← hqueue]
      show _ = EStateM.map _ endToken s
      cases htoken : endToken s with
      | error stop s' =>
          rw [fullscanWithin_error (hnext.trans htoken), EStateM.map, htoken]
      | ok t s' =>
          obtain ⟨rfl, rfl, -⟩ := endToken_ok htoken
          rw [fullscanWithin_last (hnext.trans htoken) rfl, EStateM.map, htoken, hqueue]
          rfl
  | cons t queue ih =>
      obtain ⟨stepFuel, hbudget⟩ := hsound.exists_budget
      obtain ⟨ht, hsound', -⟩ := hsound.give hqueue
      obtain ⟨fuel, rfl⟩ := Nat.exists_eq_succ_of_ne_zero (Nat.ne_zero_of_lt hfuel)
      obtain ⟨after, hrest⟩ := ih hsound' hstarted hend rfl (Nat.lt_of_succ_lt_succ hfuel)
      have hnext : next s =
          .ok t { s with queue, state := { s.state with after := some t.kind } } := by
        rw [next_started hstarted, hbudget, pull_queued hqueue]
      have hmap : ∀ (x : Pull Token) (s : TokenStream),
          EStateM.map (t :: ·) (EStateM.map (queue ++ [·]) x) s
            = EStateM.map (t :: queue ++ [·]) x s := by
        intro x s
        unfold EStateM.map
        cases x s <;> rfl
      refine ⟨after, Eq.trans ?_ (hmap endToken _)⟩
      rw [fullscanWithin_more hnext ht, EStateM.map, hrest]
      rfl

/-- What waits at the end of the text is given, and then the end. -/
theorem fullscan_drain (hsound : s.Sound) (hstarted : s.started) (hend : s.state.atEnd) :
    ∃ after, fullscan s = EStateM.map (s.queue ++ [·]) endToken
      { s with queue := [], state := { s.state with after } } := by
  have hleft := hsound.left_lt
  rw [left] at hleft
  exact fullscanWithin_drain hsound hstarted hend (by omega)

/-- All tokens of an input are those of a scan from its start. -/
theorem fullscan_of_scanAll {options : Scan.Options} {input : Input}
    (h : scanAll options input = .ok ts) :
    ∃ s', fullscan ((empty options).start input).2 = .ok ts s' := by
  unfold scanAll at h
  split at h
  next => exact nomatch h
  next s hstart =>
    rw [hstart]
    dsimp only
    split at h
    next tokens s' hscan =>
      obtain rfl := Except.ok.inj h
      exact ⟨s', hscan⟩
    next => exact nomatch h

/-- What is checked of all tokens of an input shows that there are such tokens. -/
theorem exists_ok_of_any {ε α : Type} {r : Except ε α} {p : α → Bool} (h : r.toOption.any p) :
    ∃ a, r = .ok a ∧ p a := by
  cases r with
  | error e => exact nomatch h
  | ok a => exact ⟨a, rfl, h⟩

/-- The stream at the start of a manifest. -/
def ofManifest (options : Scan.Options) (text : List Char) (file : String) : TokenStream :=
  (empty options).reset text (.document (.ofText text file)) .code

/-- All tokens of a manifest are given from its start on, and then the one at the end of the
text. -/
theorem scanAll_given {options : Scan.Options} {text : List Char} {file : String}
    (h : scanAll options (.manifest text file) = .ok ts) :
    ∃ body s, ts = body ++ [endOf s.state.source s.state.text] ∧
      Given (ofManifest options text file) body s ∧ s.queue = [] ∧ s.state.atEnd := by
  obtain ⟨s', hscan⟩ := fullscan_of_scanAll h
  rw [start, startText_snd] at hscan
  obtain ⟨body, hts, hgiven, hqueue, hend, -⟩ := fullscan_given (reset_sound _ _ _ _) hscan
  exact ⟨body, s', hts, hgiven, hqueue, hend⟩

end Manifest.TokenStream
