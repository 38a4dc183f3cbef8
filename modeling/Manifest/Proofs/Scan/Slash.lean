import Manifest.Proofs.Scan.Progress
import Manifest.Proofs.Token.Regex

/-!
# Slashes

At a slash that begins no comment, a step gives one token: a regular expression where the token
before allows one and a slash on the line closes it, and a division otherwise. Nothing but the
cursor changes, so that behind a division the rest of the line is code.

* `takeSlash_eq` — what the rule for slashes does.
* `step_slash` — what a step does at a slash.
-/

namespace Manifest.Scan

open Quote (Closes finalBackslashes)
open Text (byteLength byteLength_append)

variable {s : State} {cs : List Char}

/-- A regular expression from the cursor on, with a pattern. -/
def State.regexTo (s : State) (pattern : List Char) (stop : Nat) : Token :=
  ⟨.regex, .text (String.ofList pattern), ⟨s.pos, stop⟩, s.source⟩

/-- A division at the cursor. -/
def State.division (s : State) : Token := ⟨.mark .slash, .none, ⟨s.pos, s.pos + 1⟩, s.source⟩

theorem byteLength_slashes (body : List Char) :
    byteLength ('/' :: body ++ ['/']) = byteLength body + 2 := by
  rw [byteLength_append]
  show 1 + byteLength body + 1 = _
  omega

/-- What the rule for slashes does. -/
theorem takeSlash_eq (hat : s.At ('/' :: cs)) : takeSlash s =
    match if s.after.all Token.Kind.allowsRegexAfter then Token.regex? cs else none with
    | some body => .ok [s.regexTo (Token.regexPattern body) (s.pos + (byteLength body + 2))]
        { s with pos := s.pos + (byteLength body + 2) }
    | none => .ok [s.division] { s with pos := s.pos + 1 } := by
  rw [takeSlash, get_bind, hat.rest, List.drop_succ_cons, List.drop_zero]
  cases if s.after.all Token.Kind.allowsRegexAfter then Token.regex? cs else none with
  | some body =>
      show takeText .regex ('/' :: body ++ ['/']) (Token.regexPattern body) s = .ok _ _
      have hrange : s.textToken .regex (Token.regexPattern body) s.pos
        (s.pos + (byteLength body + 2))
          = s.regexTo (Token.regexPattern body) (s.pos + (byteLength body + 2)) := by
        rw [State.textToken, State.token, Nat.max_eq_left (Nat.le_add_right _ _)]
        rfl
      rw [← hrange, ← byteLength_slashes]
      rfl
  | none =>
      show takeMark .slash s = .ok _ _
      have hrange : s.token (.mark .slash) .none s.pos (s.pos + 1) = s.division := by
        rw [State.token, Nat.max_eq_left (Nat.le_add_right _ _)]
        rfl
      rw [← hrange]
      rfl

/-- At a slash that begins no comment a step is the rule for slashes. -/
theorem step_takeSlash (hat : s.At ('/' :: cs)) (hstar : cs.head? ≠ some '*') (fuel : Nat) :
    step (fuel + 1) s = takeSlash s := by
  have hopening : opening? s.template.isSome ('/' :: cs) = some .slash := by
    rw [opening?]
    rintro ds rfl
    exact hstar rfl
  exact step_plain (o := .slash) (by rw [hat.rest, hopening]) nofun nofun

/-- At a slash that begins no comment, a step gives a regular expression just when the token before
allows one and a slash on the line stands behind an even number of backslashes. It goes up to the
first such slash; the text between the slashes is made of pieces without slashes that are joined by
a backslash and a slash each, and the token says the pieces joined by the slashes alone. Otherwise
the step gives a division over the slash, and what stands behind it is left to be scanned. -/
theorem step_slash {s : State} {cs : List Char} (hat : s.At ('/' :: cs))
    (hstar : cs.head? ≠ some '*')
    (fuel : Nat) :
    let regex := s.after.all Token.Kind.allowsRegexAfter ∧ ∃ before after,
      cs = before ++ '/' :: after ∧ '\n' ∉ before ∧ Even (finalBackslashes before)
    (regex ∧ ∃ body rest piece pieces, Closes '/' cs body rest ∧ '\n' ∉ body ∧
        (∀ p ∈ piece :: pieces, '/' ∉ p) ∧ body = ['\\', '/'].intercalate (piece :: pieces) ∧
        Token.regexPattern body = ['/'].intercalate (piece :: pieces) ∧
        step (fuel + 1) s = .ok
          [s.regexTo (Token.regexPattern body) (s.pos + (byteLength body + 2))]
          { s with pos := s.pos + (byteLength body + 2) } ∧
        State.At { s with pos := s.pos + (byteLength body + 2) } rest) ∨
      (¬ regex ∧ step (fuel + 1) s = .ok [s.division] { s with pos := s.pos + 1 } ∧
        State.At { s with pos := s.pos + 1 } cs) := by
  intro regex
  have hbehind : State.At { s with pos := s.pos + 1 } cs := (s.moves_pos ['/']).at hat
  rw [step_takeSlash hat hstar, takeSlash_eq hat]
  -- what was taken last decides first, then whether the line has a closing slash
  by_cases hallows : s.after.all Token.Kind.allowsRegexAfter
  · rw [if_pos hallows]
    cases hread : Token.regex? cs with
    | none =>
        refine .inr ⟨?_, rfl, hbehind⟩
        rintro ⟨-, hslash⟩
        rw [← Token.regex?_isSome_iff, hread] at hslash
        exact nomatch hslash
    | some body =>
        obtain ⟨hline, rest, hcloses⟩ := Token.regex?_eq_some_iff.1 hread
        obtain ⟨piece, pieces, hpieces, hbody, hpattern⟩ := Token.regexPattern_eq
          fun before after hsplit =>
            Token.getLast?_of_not_even (hcloses.unclosed before after hsplit)
        have hregex : regex := ⟨hallows, body, rest, hcloses.split, hline, hcloses.even⟩
        refine .inl ⟨hregex, body, rest, piece, pieces, hcloses, hline, hpieces, hbody, hpattern,
          rfl, ?_⟩
        have htext : '/' :: cs = ('/' :: body ++ ['/']) ++ rest := by
          rw [hcloses.split]
          simp
        rw [← byteLength_slashes]
        exact (s.moves_pos _).at (htext ▸ hat)
  · rw [if_neg hallows]
    exact .inr ⟨fun h => hallows h.1, rfl, hbehind⟩

/-- The text `/a\/\\/b/`: a protected slash, then one behind two backslashes. -/
theorem step_slash_protected :
    let s := State.start .standard
      (.document (.ofText ['/', 'a', '\\', '/', '\\', '\\', '/', 'b', '/'] ""))
      ['/', 'a', '\\', '/', '\\', '\\', '/', 'b', '/']
    s.At ['/', 'a', '\\', '/', '\\', '\\', '/', 'b', '/'] ∧
      ['a', '\\', '/', '\\', '\\', '/', 'b', '/'].head? ≠ some '*' ∧
      step 1 s = .ok [s.regexTo ['a', '/', '\\', '\\'] 7] { s with pos := 7 } := by
  intro s
  have hat : s.At ['/', 'a', '\\', '/', '\\', '\\', '/', 'b', '/'] := ⟨[], rfl, rfl⟩
  have hstar : ['a', '\\', '/', '\\', '\\', '/', 'b', '/'].head? ≠ some '*' := by decide
  have hcloses : Closes '/' ['a', '\\', '/', '\\', '\\', '/', 'b', '/'] ['a', '\\', '/', '\\', '\\']
      ['b', '/'] :=
    (((Quote.closes_nil '/' ['b', '/']).prepend (Quote.passed_pair (by decide) '\\')).prepend
      (Quote.passed_pair (by decide) '/')).prepend
        (Quote.passed_single (c := 'a') (by decide) (by decide))
  refine ⟨hat, hstar, ?_⟩
  rcases step_slash hat hstar 0 with
    ⟨-, body, rest, piece, pieces, hfound, -, -, -, -, hstep, -⟩ | ⟨hnone, -⟩
  · obtain ⟨rfl, -⟩ := hfound.unique hcloses
    exact hstep
  · exact absurd ⟨rfl, _, _, hcloses.split, by decide, hcloses.even⟩ hnone

end Manifest.Scan
