import Manifest.Proofs.Scan.Quoted
import Manifest.Proofs.TokenStream.Given
import Manifest.Proofs.TokenStream.Rendering

/-!
# Texts that are one string

Text without quotes is one string if nothing in it stops a run, and so is a manifest that is nothing
but a string. What the string says is written with escapes, and scanning undoes them.

* `GivesString` — a scan gives one string and has nothing to report.
* `givesString_unquoted` — text without quotes that is one run.
* `gives_written` — a text is read back, however its characters are written.
-/

namespace Manifest.TokenStream

open Number (HexNumeral)
open Quote (EscapeSet Writes doubleQuoted)
open Scan (State)
open Text (Source byteLength)

variable {s : TokenStream} {t : Token} {state : State} {batch : List Token} {cs ds : List Char}

/-- A scan of the input gives one string over its text, which says `cs`, and has nothing to
report. -/
def GivesString (s : TokenStream) (input : Input) (source : Source) (text cs : List Char) : Prop :=
  (s.start input).1 = .ok () ∧ ∃ s', fullscan (s.start input).2
      = .ok [⟨.string, .text (String.ofList cs), ⟨0, byteLength text⟩, source⟩, endOf source text]
        s' ∧
    s'.state.diagnostics = []

/-- At the end of the text, the tokens that wait are the last ones. -/
theorem fullscan_waiting (hsound : s.Sound) (hstarted : s.started) (hend : s.state.atEnd)
    (hopenTag : s.state.openTag = none) :
    ∃ s', fullscan s = .ok (s.queue ++ [endOf s.state.source s.state.text]) s' ∧
      s'.state.diagnostics = s.state.diagnostics := by
  obtain ⟨after, hscan⟩ := fullscan_drain hsound hstarted hend
  have htoken := endToken_closed
    (s := { s with queue := [], state := { s.state with after } }) hopenTag
  refine ⟨{ s with queue := [], state := { s.state with after } }, ?_, rfl⟩
  rw [hscan, EStateM.map, htoken]

/-- When no token waits, a scan is one of the stream in which those of the next step wait. -/
theorem fullscan_eq_stepped (hsound : s.Sound) (hstarted : s.started) (hqueue : s.queue = [])
    (hend : s.state.atEnd = false)
    (hstep : Scan.step (Scan.budget s.state.size) s.state = .ok (t :: batch) state) :
    Sound { s with state, queue := t :: batch } ∧
      fullscan s = fullscan { s with state, queue := t :: batch } := by
  have hrun : Scan.Task.step.run (Scan.budget s.state.size) s.state = .ok (t :: batch) state :=
    hstep
  obtain ⟨hkeeps, hinner, -, hleft⟩ := hsound.step hqueue hend (Scan.runs_of_run hrun)
  have hsize : state.size = s.state.size := congrArg byteLength hkeeps.text
  obtain ⟨fuel, hfuel⟩ := exists_budget s.state.size
  have hnext : next s = next { s with state, queue := t :: batch } := by
    have hpull : pull _ (fuel + 3) s = pull _ (fuel + 2) { s with state, queue := t :: batch } :=
      pull_step hqueue hend hstep
    rw [next_started hstarted, next_started (s := { s with state, queue := t :: batch }) hstarted,
      hsize, hfuel] at *
    rw [hpull, pull_queued rfl, pull_queued rfl]
  refine ⟨hsound.of_le hkeeps hinner hleft, ?_⟩
  rw [fullscan, fullscan, hsize, hfuel, fullscanWithin_congr hnext]

/-- A manifest that is one step to the end of the text, and that step gives a token. -/
theorem fullscan_of_step (s : TokenStream) {text : List Char} {source : Source} (htext : text ≠ [])
    (hstep : Scan.step (Scan.budget (byteLength text)) (s.reset text source .code).state
      = .ok [t] state) (hend : state.atEnd) (hopenTag : state.openTag = none) :
    ∃ s', fullscan (s.reset text source .code) = .ok [t, endOf state.source state.text] s' ∧
      s'.state.diagnostics = state.diagnostics := by
  have hat : (s.reset text source .code).state.At text := ⟨[], rfl, rfl⟩
  have hbefore : (s.reset text source .code).state.atEnd = false :=
    Bool.eq_false_iff.2 fun hend => htext (hat.atEnd_iff.1 hend)
  -- nothing is scanned before the first pull
  have hentry : entryTokens (Scan.budget (byteLength text)) .code (s.reset text source .code).state
      = .ok [] (s.reset text source .code).state := rfl
  obtain ⟨hsound, hentered⟩ := fullscan_eq_entered (s.reset_sound text source .code) rfl hentry
  obtain ⟨hsound', hstepped⟩ := fullscan_eq_stepped hsound rfl rfl hbefore hstep
  rw [hentered, hstepped]
  exact fullscan_waiting hsound' rfl hend hopenTag

/-- Text without quotes that is one run gives one string. -/
theorem givesString_unquoted (s : TokenStream) {text : List Char} (source : Option Source)
    {set : EscapeSet} {interpolates : Bool}
    (h : (Quote.collect (Scan.textMode interpolates set) set 0 text).run
      = .ok ⟨cs, .endOfText, byteLength text⟩) :
    GivesString s (.unquoted text source set interpolates)
      (source.getD (.document (.ofText text ""))) text cs := by
  refine ⟨rfl, ?_⟩
  have hsound := s.start_sound (.unquoted text source set interpolates)
  have hat : (s.start (.unquoted text source set interpolates)).2.state.At text := ⟨[], rfl, rfl⟩
  obtain ⟨fuel, hfuel⟩ := hsound.exists_budget
  have hentry := Scan.fragments_whole
    (q := ⟨Scan.textMode interpolates set, set, false, 0⟩) hat h nofun (.inr rfl)
      (Nat.zero_le _) fuel
  rw [← hfuel] at hentry
  obtain ⟨hsound', hscan⟩ := fullscan_eq_entered hsound rfl hentry
  rw [hscan]
  exact fullscan_waiting hsound' rfl (decide_eq_true (Nat.le_refl _)) rfl

/-- A manifest that is nothing but a written string gives that string. -/
theorem givesString_manifest (s : TokenStream) (h : Writes (fun _ => True) (some '"') cs ds)
    (file : String) : GivesString s (.manifest (doubleQuoted ds) file)
      (.document (.ofText (doubleQuoted ds) file)) (doubleQuoted ds) cs := by
  have hmark : markProblem? (Text.encodeUtf8 ((doubleQuoted ds).take 1)) = none :=
    markProblem?_eq_none ⟨'"', _, rfl, by decide⟩
  rw [GivesString, start, startText, checked, hmark]
  refine ⟨rfl, ?_⟩
  obtain ⟨fuel, hfuel⟩ := exists_budget (byteLength (doubleQuoted ds))
  have hat : State.At (s.reset (doubleQuoted ds) (.document (.ofText (doubleQuoted ds) file))
      .code).state (doubleQuoted ds ++ []) := ⟨[], (List.append_nil _).symm, rfl⟩
  have hstep := Scan.step_written h hat (fuel + 1)
  rw [← hfuel] at hstep
  have hpos : 0 + byteLength (doubleQuoted ds) = byteLength (doubleQuoted ds) := Nat.zero_add _
  rw [← hpos]
  exact fullscan_of_step s (List.cons_ne_nil _ _) hstep
    (decide_eq_true (Nat.le_of_eq hpos.symm)) rfl

/-! ## Written texts -/

/-- Text without quotes that is written is read back. Where a dollar sign begins an interpolation,
an escape has to protect it. -/
theorem givesString_written (s : TokenStream) {set : EscapeSet} {interpolates : Bool}
    (hdollar : interpolates → set.allows '$') (h : Writes (set.allows ·) none cs ds)
    (source : Option Source) :
    GivesString s (.unquoted ds source set interpolates)
      (source.getD (.document (.ofText ds ""))) ds cs := by
  have hmode : (Scan.textMode interpolates set).quote? = none ∧
      Scan.textMode interpolates set ≠ .rawText := by
    unfold Scan.textMode
    cases interpolates with
    | false => exact ⟨rfl, nofun⟩
    | true =>
        rw [hdollar rfl]
        exact ⟨rfl, nofun⟩
  obtain ⟨hquote, hraw⟩ := hmode
  rw [← hquote] at h
  have hcollect := h.collect hraw 0 []
  have hend : Quote.collect (Scan.textMode interpolates set) set (0 + byteLength ds) []
      = .done .endOfText (0 + byteLength ds) := by
    rw [Quote.collect, hquote]
    rfl
  rw [List.append_nil, hend, Nat.zero_add] at hcollect
  refine givesString_unquoted s source ?_
  rw [hcollect]
  show Except.ok (⟨cs ++ [], _, _⟩ : Quote.Run) = _
  rw [List.append_nil]

/-- However the characters of a text are written, and wherever its lines are continued, it is read
back: in double quotes, where all escapes have a meaning, at any place of code and in a manifest of
its own; and without quotes, with the escapes of any set. -/
theorem written_readBack (s : TokenStream) (cs ds : List Char) :
    (Writes (fun _ => True) (some '"') cs ds →
      (∀ (state : State) (rest : List Char) (fuel : Nat), state.At (doubleQuoted ds ++ rest) →
        Scan.step (fuel + 2) state
          = .ok [state.stringOver cs state.pos (state.pos + byteLength (doubleQuoted ds))]
              { state with pos := state.pos + byteLength (doubleQuoted ds) }) ∧
      ∀ file, GivesString s (.manifest (doubleQuoted ds) file)
        (.document (.ofText (doubleQuoted ds) file)) (doubleQuoted ds) cs) ∧
    ∀ (set : EscapeSet) (source : Option Source) (interpolates : Bool),
      (interpolates → set.allows '$') → Writes (set.allows ·) none cs ds →
        GivesString s (.unquoted ds source set interpolates)
          (source.getD (.document (.ofText ds ""))) ds cs := by
  refine ⟨fun h => ⟨?_, s.givesString_manifest h⟩, ?_⟩
  · exact fun state rest fuel hat => Scan.step_written h hat fuel
  · exact fun set source interpolates hdollar h => s.givesString_written hdollar h source

/-- The characters `é`, a tab, `😀` and `a`: by four digits, by a letter, by five digits in braces,
and on a line of its own. -/
theorem written_readBack_mixed : ∃ ds : List Char,
    ds = ['\\', 'u', '0', '0', 'E', '9', '\\', 't', '\\', 'u', '{', '1', 'f', '6', '0', '0', '}',
      '\\', '\n', 'a'] ∧
    Writes (fun _ => True) (some '"') ['é', '\t', '😀', 'a'] ds ∧
    GivesString (empty .standard) (.manifest (doubleQuoted ds) "")
      (.document (.ofText (doubleQuoted ds) "")) (doubleQuoted ds) ['é', '\t', '😀', 'a'] ∧
    EscapeSet.unquoted.allows '$' ∧
    Writes (EscapeSet.unquoted.allows ·) none ['é', '\t', '😀', 'a'] ds ∧
    GivesString (empty .standard) (.unquoted ds none .unquoted true) (.document (.ofText ds "")) ds
      ['é', '\t', '😀', 'a'] := by
  have hwrites : ∀ (allowed : Char → Prop) (quote? : Option Char), allowed 'u' → allowed 't' →
      allowed '\n' → quote? ≠ some 'a' → Writes allowed quote? ['é', '\t', '😀', 'a']
        (['\\', 'u', '0', '0', 'E', '9'] ++ (['\\', 't'] ++
          (('\\' :: 'u' :: '{' :: ['1', 'f', '6', '0', '0'] ++ ['}']) ++
            (['\\', '\n'] ++ (['a'] ++ []))))) := by
    intro allowed quote? hunicode htab hbreak hquote
    have hsmall : HexNumeral 'é'.toNat ['0', '0', 'E', '9'] := ⟨2, by decide⟩
    have hlarge : HexNumeral '😀'.toNat ['1', 'f', '6', '0', '0'] := ⟨0, by decide⟩
    exact .char (.four hunicode rfl hsmall) (.char (.short htab (by decide))
      (.char (.braces hunicode (by decide) hlarge) (.continued hbreak (.inl rfl)
        (.char (.raw (by decide) (by decide) hquote) .nil))))
  have hquoted := hwrites (fun _ => True) (some '"') trivial trivial trivial (by decide)
  have hplain := hwrites (EscapeSet.unquoted.allows ·) none rfl rfl rfl nofun
  refine ⟨_, rfl, hquoted, ?_, rfl, hplain, ?_⟩
  · exact ((written_readBack _ _ _).1 hquoted).2 ""
  · exact (written_readBack _ _ _).2 .unquoted none true (fun _ => rfl) hplain

end Manifest.TokenStream
