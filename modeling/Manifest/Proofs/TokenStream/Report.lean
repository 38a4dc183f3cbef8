import Manifest.Proofs.Scan.Report
import Manifest.Proofs.TokenStream.Given

/-!
# What is reported of a manifest

The diagnostics of a stream over a manifest are the issues of the tokens that it has scanned, in
their order: those of suspect formats in headers of here-docs, and, where they are to be reported,
those of escapes without a meaning in double quotes. A format is suspect when it has an empty
segment, but also when there is none.

* `Given.reporting` — the tokens that were given, and those that wait, have been reported.
* `fullscan_reports` — the diagnostics of a whole manifest.
* `fullscan_suspects` — a here-doc without a format is reported for an empty segment of it.
-/

namespace Manifest.TokenStream

open Scan (Reported State)
open Text (Source)

variable {source : Source} {warns : Bool} {s₀ s s' : TokenStream} {given ts : List Token}

/-! ## Tokens that were given -/

/-- The tokens that were given, and those that wait, have been reported. -/
structure Reporting (source : Source) (warns : Bool) (given : List Token) (s : TokenStream) :
    Prop where
  entry : s.entry = .code
  inCode : s.state.InCode source
  options : s.state.options.warnUnknownEscapes = warns
  reported : Reported warns .start [] (given ++ s.queue) .start s.state

/-- What has been given is what has been reported on. -/
theorem Given.reporting (h : Given s₀ given s) (hstart : Reporting source warns [] s₀) :
    Reporting source warns given s := by
  induction h with
  | start => exact hstart
  | entry _ _ hbatch ih =>
      rw [ih.entry] at hbatch
      obtain ⟨rfl, rfl⟩ := EStateM.Result.ok.inj hbatch
      rw [List.append_nil]
      exact ⟨ih.entry, ih.inCode, ih.options, ih.reported⟩
  | step _ hqueue _ hruns ih =>
      have hgiven := ih.reported
      rw [hqueue, List.append_nil] at hgiven
      refine ⟨ih.entry, (hruns.inCode ih.inCode trivial (List.forall_mem_nil _)).1, ?_, ?_⟩
      · rw [hruns.options ih.inCode.sound trivial, ih.options]
      · exact hgiven.append (hruns.reports ih.inCode trivial ih.options _ rfl)
  | token _ hqueue ih =>
      have hgiven := ih.reported
      rw [hqueue, List.append_cons] at hgiven
      exact ⟨ih.entry, ih.inCode.congr rfl rfl rfl rfl rfl, ih.options, hgiven.behind,
        hgiven.diagnostics⟩

/-! ## Whole manifests -/

/-- The token at the end of a text has no issue. -/
theorem issues_endOf (body : List Token) (last : Source) (text : List Char) :
    Scan.issues HereDoc.isSuspect warns (body ++ [endOf last text])
      = Scan.issues HereDoc.isSuspect warns body := by
  have hend : Scan.Dull (endOf last text) := ⟨rfl, rfl, by rintro ⟨⟩⟩
  rw [Scan.issues, Scan.issuesFrom_append, Scan.issuesFrom, Scan.issuesFrom, hend.issues]
  exact List.append_nil _

/-- The diagnostics of a scan are the issues of its tokens. -/
theorem diagnostics_fullscan (s : TokenStream) (text : List Char) (file : String)
    (h : fullscan (s.start (.manifest text file)).2 = .ok ts s') :
    s'.state.diagnostics
      = Scan.issues HereDoc.isSuspect s.state.options.warnUnknownEscapes ts := by
  have hsound := s.start_sound (.manifest text file)
  rw [start, startText_snd] at h hsound
  obtain ⟨body, rfl, hgiven, hqueue, -⟩ := fullscan_given hsound h
  have hstart : Reporting (.document (.ofText text file)) s.state.options.warnUnknownEscapes []
      (s.reset text (.document (.ofText text file)) .code) :=
    ⟨rfl, ⟨State.sound_start _ rfl rfl, rfl, rfl, rfl⟩, rfl, rfl, rfl⟩
  obtain ⟨-, -, -, hreported⟩ := hgiven.reporting hstart
  rw [hqueue, List.append_nil] at hreported
  rw [issues_endOf]
  exact hreported.diagnostics

/-- The diagnostics of a manifest are the issues of its tokens, in their order and no others: one
for each here-doc whose format has an empty segment or is not given, and, where these are to be
reported, one for each escape without a meaning in a string in double quotes. Where all here-docs
give a format, only one with an empty segment is reported. -/
theorem fullscan_reports (s : TokenStream) (text : List Char) (file : String)
    (h : fullscan (s.start (.manifest text file)).2 = .ok ts s') :
    s'.state.diagnostics
      = Scan.issues HereDoc.isSuspect s.state.options.warnUnknownEscapes ts ∧
    ((∀ t ∈ ts, t.kind = .hereDoc → t.text ≠ "") → s'.state.diagnostics
      = Scan.issues HereDoc.hasGap s.state.options.warnUnknownEscapes ts) := by
  have hissues := diagnostics_fullscan s text file h
  refine ⟨hissues, fun hformats => hissues.trans (Scan.issuesFrom_congr fun t ht hkind => ?_)⟩
  have hformat : t.text.toList.isEmpty = false := by
    rw [List.isEmpty_eq_false_iff, Ne, String.toList_eq_nil_iff]
    exact hformats t ht hkind
  rw [HereDoc.isSuspect, HereDoc.hasGap, hformat]
  rfl

/-- A string with an escape without a meaning, and a here-doc with an empty segment in its
format. -/
def reportedText : List Char :=
  ['"', '\\', 'q', '$', '{', 'x', '}', '"', '@', '(', 'A', ':', 'a', '+', '+', 'b', ')', '\n', 'A']

/-- An unknown escape in a string, and a header with an empty segment. -/
theorem fullscan_reports_two : ∃ (ts : List Token) (s' : TokenStream),
    fullscan ((empty .standard).start (.manifest reportedText "")).2 = .ok ts s' ∧
      (∀ t ∈ ts, t.kind = .hereDoc → t.text ≠ "") ∧
      s'.state.diagnostics.map (·.code) = [.unknownEscape, .emptyFormatSegment] ∧
      s'.state.diagnostics = Scan.issues HereDoc.hasGap true ts := by
  have hscan : (scanAll .standard (.manifest reportedText "")).toOption.any fun ts =>
      decide ((∀ t ∈ ts, t.kind = .hereDoc → t.text ≠ "") ∧
        (Scan.issues HereDoc.hasGap true ts).map (·.code)
          = [.unknownEscape, .emptyFormatSegment]) := by
    decide +kernel
  obtain ⟨ts, hall, hchecked⟩ := exists_ok_of_any hscan
  obtain ⟨hformats, hcodes⟩ := of_decide_eq_true hchecked
  obtain ⟨s', h⟩ := fullscan_of_scanAll hall
  have hreports := (fullscan_reports _ _ _ h).2 hformats
  exact ⟨ts, s', h, hformats, by rw [hreports]; exact hcodes, hreports⟩

/-- A here-doc without a format and without a text. -/
def formatlessText : List Char := ['@', '(', 'A', ')', '\n', 'A']

/-- A here-doc without a format is reported for an empty segment of it. -/
theorem fullscan_suspects : ¬ ∀ (s s' : TokenStream) (text : List Char) (file : String)
    (ts : List Token), fullscan (s.start (.manifest text file)).2 = .ok ts s' →
      s'.state.diagnostics
        = Scan.issues HereDoc.hasGap s.state.options.warnUnknownEscapes ts := by
  intro hclaim
  have hscan : (scanAll .standard (.manifest formatlessText "")).toOption.any fun ts =>
      decide (Scan.issues HereDoc.isSuspect true ts ≠ Scan.issues HereDoc.hasGap true ts) := by
    decide +kernel
  obtain ⟨ts, hall, hdiffer⟩ := exists_ok_of_any hscan
  obtain ⟨s', h⟩ := fullscan_of_scanAll hall
  have hissues := diagnostics_fullscan _ _ _ h
  exact of_decide_eq_true hdiffer (hissues.symm.trans (hclaim _ s' _ _ ts h))

end Manifest.TokenStream
