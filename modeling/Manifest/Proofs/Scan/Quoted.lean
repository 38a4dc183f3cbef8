import Manifest.Proofs.Quote.Closing
import Manifest.Proofs.Quote.Written
import Manifest.Proofs.Scan.Progress
import Manifest.Proofs.Text.Survey

/-!
# Quoted texts

A step over text in quotes goes up to the quote that closes it, gives one token, and changes nothing
but the cursor. Text in single quotes that is not closed is a problem at its first quote.

* `fragments_whole` — text that is one run gives one token.
* `step_singleQuoted` — what a step does at a single quote.
* `step_written` — a text that is written in double quotes is read back.
-/

namespace Manifest.Scan

open Quote (Closes Unclosed Writes unprotect)
open Text (byteLength columnAt lineAt)

variable {s : State} {cs ds rest : List Char} {q : Quoting} {run : Quote.Run}

/-- A token with a text of its own over a range of the text. -/
def State.stringOver (s : State) (text : List Char) (start stop : Nat) : Token :=
  ⟨.string, .text (String.ofList text), ⟨start, stop⟩, s.source⟩

/-- A string token over a range in order. -/
theorem State.textToken_string {start stop : Nat} (s : State) (text : List Char)
    (h : start ≤ stop) :
    s.textToken .string text start stop = s.stringOver text start stop := by
  show (⟨_, _, ⟨start, max stop start⟩, _⟩ : Token) = _
  rw [Nat.max_eq_left h]
  rfl

/-! ## Text in single quotes -/

/-- What the rule for single quotes does. -/
theorem takeSingleQuoted_eq (hat : s.At ('\'' :: cs)) : takeSingleQuoted s =
    match (Quote.collect .single .singleQuoted (s.pos + 1) cs).run with
    | .ok run => .ok [s.textToken .string run.text s.pos run.next] { s with pos := run.next }
    | .error _ => .error (s.stop (.unclosedQuote '\'' (preview cs)) s.pos)
      { s with pos := s.pos + 1 } := by
  rw [takeSingleQuoted, get_bind, hat.rest, List.drop_succ_cons, List.drop_zero]
  cases (Quote.collect .single .singleQuoted (s.pos + 1) cs).run with
  | ok run => rfl
  | error fault => rfl

/-- At a single quote a step is the rule for single quotes. -/
theorem step_takeSingleQuoted (hat : s.At ('\'' :: cs)) (fuel : Nat) :
    step (fuel + 1) s = takeSingleQuoted s :=
  step_plain (o := .singleQuote) (by rw [hat.rest]; rfl) nofun nofun

/-- At a single quote, a step goes up to the first quote behind an even number of backslashes. Its
one token says what stands before that quote, with one backslash for each pair and without the one
before a protected quote. If there is no such quote, the step fails, with the position of the quote
that is open: in a document, its line and column there. So a text that is written in single quotes
is read back. -/
theorem step_singleQuoted {s : State} {r : List Char} (hat : s.At ('\'' :: r)) (fuel : Nat) :
    ((Unclosed '\'' r ∧ ∃ d, step (fuel + 1) s = .error (.problem d) { s with pos := s.pos + 1 } ∧
        d.code.id = "E0101" ∧ d.severity = .error ∧
        d.position = some
          ⟨s.source.file, s.source.line s.pos, s.source.column s.pos, ⟨s.pos, s.pos⟩⟩ ∧
        ∀ file, s.source = .document (.ofText s.text file) →
          d.position = some ⟨file, lineAt s.text s.pos, columnAt s.text s.pos, ⟨s.pos, s.pos⟩⟩) ∨
      ∃ body rest, Closes '\'' r body rest ∧ step (fuel + 1) s
        = .ok [s.stringOver (unprotect body) s.pos (s.pos + (byteLength body + 2))]
            { s with pos := s.pos + (byteLength body + 2) }) ∧
    ∀ text rest, '\'' :: r = Quote.singleQuoted text ++ rest → step (fuel + 1) s
      = .ok [s.stringOver text s.pos (s.pos + byteLength (Quote.singleQuoted text))]
          { s with pos := s.pos + byteLength (Quote.singleQuoted text) } := by
  rw [step_takeSingleQuoted hat, takeSingleQuoted_eq hat]
  constructor
  · rcases Quote.collect_closes r (s.pos + 1) with ⟨hopen, hrun⟩ | ⟨body, rest, hcloses, hrun⟩
    · rw [hrun]
      have hcode : Code.unclosedQuote.id = "E0101" := by decide
      refine .inl ⟨hopen, _, rfl, hcode, rfl, rfl, ?_⟩
      intro file hsource
      rw [← Text.positionAt_ofText, ← hsource]
      rfl
    · have hnext : s.pos + 1 + byteLength body + 1 = s.pos + (byteLength body + 2) := by omega
      rw [hnext] at hrun
      refine .inr ⟨body, rest, hcloses, ?_⟩
      rw [hrun]
      dsimp only
      rw [s.textToken_string _ (Nat.le_add_right _ _)]
  · intro text rest h
    rw [Quote.singleQuoted_append] at h
    have hsize : s.pos + 1 + byteLength (text.flatMap Quote.escapeQuote) + 1
        = s.pos + byteLength (Quote.singleQuoted text) := by
      rw [Quote.byteLength_singleQuoted]
      omega
    rw [(List.cons.inj h).2, Quote.collect_singleQuoted, hsize]
    dsimp only
    rw [s.textToken_string _ (Nat.le_add_right _ _)]

/-- The start of a document. -/
def startOf (text : List Char) : State := .start .standard (.document (.ofText text "f")) text

/-- The second quote of `'a\\'b'` stands behind two backslashes. On the second line of a document,
the quote of `'a\'` is left open in the second column. -/
theorem step_singleQuoted_pair :
    let closed := startOf ['\'', 'a', '\\', '\\', '\'', 'b', '\'']
    let unclosed := { startOf ['\n', ' ', '\'', 'a', '\\', '\''] with pos := 2 }
    (closed.At ['\'', 'a', '\\', '\\', '\'', 'b', '\''] ∧
      step 1 closed = .ok [closed.stringOver ['a', '\\'] 0 5] { closed with pos := 5 }) ∧
    unclosed.At ['\'', 'a', '\\', '\''] ∧
      ∃ d, step 1 unclosed = .error (.problem d) { unclosed with pos := 3 } ∧ d.code.id = "E0101" ∧
        d.position = some ⟨"f", 2, 2, ⟨2, 2⟩⟩ := by
  intro closed unclosed
  have hclosedAt : closed.At ['\'', 'a', '\\', '\\', '\'', 'b', '\''] := ⟨[], rfl, rfl⟩
  have hunclosedAt : unclosed.At ['\'', 'a', '\\', '\''] := ⟨['\n', ' '], rfl, rfl⟩
  have hcloses : Closes '\'' ['a', '\\', '\\', '\'', 'b', '\''] ['a', '\\', '\\'] ['b', '\''] :=
    ((Quote.closes_nil '\'' ['b', '\'']).prepend (Quote.passed_pair (by decide) '\\')).prepend
      (Quote.passed_single (c := 'a') (by decide) (by decide))
  have hopen : Unclosed '\'' ['a', '\\', '\''] :=
    ((Quote.unclosed_nil '\'').prepend (Quote.passed_pair (by decide) '\'')).prepend
      (Quote.passed_single (c := 'a') (by decide) (by decide))
  refine ⟨⟨hclosedAt, ?_⟩, hunclosedAt, ?_⟩
  · rcases (step_singleQuoted hclosedAt 0).1 with ⟨hfalse, -⟩ | ⟨body, rest, hfound, hstep⟩
    · exact absurd hfalse hcloses.not_unclosed
    · obtain ⟨rfl, -⟩ := hfound.unique hcloses
      exact hstep
  · rcases (step_singleQuoted hunclosedAt 0).1 with
      ⟨-, d, hstep, hcode, -, -, hposition⟩ | ⟨_, _, hfalse, -⟩
    · exact ⟨d, hstep, hcode, (hposition "f" rfl).trans (by decide +kernel)⟩
    · exact absurd hopen hfalse.not_unclosed

/-! ## Text that is one run -/

/-- A run without anything to report moves the cursor, and does nothing else. -/
theorem takeRun_of_collect (hat : s.At cs)
    (h : (Quote.collect q.mode q.escapes s.pos cs).run = .ok run)
    (hquiet : q.warns → (Quote.collect q.mode q.escapes s.pos cs).unknown = []) :
    takeRun q s = .ok run { s with pos := run.next } := by
  rw [takeRun, get_bind, hat.rest]
  dsimp only
  rw [foldl_report, h]
  cases hwarns : q.warns with
  | true =>
      rw [hquiet hwarns, if_pos rfl]
      show EStateM.Result.ok run { s with pos := run.next, diagnostics := s.diagnostics ++ [] } = _
      rw [List.append_nil]
  | false => rfl

/-- Text that is one run gives one token. -/
theorem fragments_whole {start : Nat} (hat : s.At cs)
    (h : (Quote.collect q.mode q.escapes s.pos cs).run = .ok run)
    (hquiet : q.warns → (Quote.collect q.mode q.escapes s.pos cs).unknown = [])
    (hstop : run.stop = .quote ∨ run.stop = .endOfText) (hstart : start ≤ run.next) (fuel : Nat) :
    fragments (fuel + 1) q start true [] s
      = .ok [s.stringOver run.text start run.next] { s with pos := run.next } := by
  have hlast : afterRun fuel q start true [] run { s with pos := run.next }
      = .ok [s.stringOver run.text start run.next] { s with pos := run.next } := by
    rw [afterRun, get_bind, ← s.textToken_string run.text hstart]
    rcases hstop with hstop | hstop <;> rw [hstop] <;> rfl
  rw [fragments_succ]
  show EStateM.bind (takeRun q) _ s = _
  rw [EStateM.bind, takeRun_of_collect hat h hquiet]
  exact hlast

/-- A text that is written in double quotes, with any escapes, is read back. -/
theorem step_written (h : Writes (fun _ => True) (some '"') cs ds)
    (hat : s.At (Quote.doubleQuoted ds ++ rest)) (fuel : Nat) : step (fuel + 2) s
      = .ok [s.stringOver cs s.pos (s.pos + byteLength (Quote.doubleQuoted ds))]
          { s with pos := s.pos + byteLength (Quote.doubleQuoted ds) } := by
  have hopening : opening? s.template.isSome s.rest = some .doubleQuote := by
    rw [hat.rest]
    rfl
  rw [Quote.doubleQuoted, List.cons_append, List.append_assoc] at hat
  have hat₁ : State.At { s with pos := s.pos + 1 } (ds ++ '"' :: rest) := (s.moves_pos ['"']).at hat
  have hnext : s.pos + 1 + byteLength ds + 1 = s.pos + byteLength (Quote.doubleQuoted ds) := by
    rw [Quote.byteLength_doubleQuoted]
    omega
  have hcollect : Quote.collect .double .doubleQuoted (s.pos + 1) (ds ++ '"' :: rest)
      = ⟨[], .ok ⟨cs, .quote, s.pos + byteLength (Quote.doubleQuoted ds)⟩⟩ := by
    have hquote : Quote.collect .double .doubleQuoted (s.pos + 1 + byteLength ds) ('"' :: rest)
        = .done .quote (s.pos + byteLength (Quote.doubleQuoted ds)) := by
      have hclosing : Quote.Mode.double.quote? = some '"' := rfl
      rw [Quote.collect, if_pos hclosing, hnext]
      · exact fun h => absurd h (by decide)
      · exact fun _ h => absurd h (by decide)
      · exact fun _ _ h => absurd h (by decide)
    have hwrites : Writes (Quote.EscapeSet.doubleQuoted.allows ·) Quote.Mode.double.quote? cs ds :=
      h.between_quotes
    rw [hwrites.collect (by decide), hquote]
    show (⟨[], .ok ⟨cs ++ [], _, _⟩⟩ : Quote.Collected) = _
    rw [List.append_nil]
  rw [step_doubleQuote hopening]
  exact fragments_whole (q := s.quoting) hat₁ (congrArg Quote.Collected.run hcollect)
    (fun _ => congrArg Quote.Collected.unknown hcollect) (.inl rfl) (Nat.le_add_right _ _) fuel

end Manifest.Scan
