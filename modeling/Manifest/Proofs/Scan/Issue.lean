import Manifest.Proofs.Quote.Unknown
import Manifest.Proofs.Scan.Layout
import Manifest.Proofs.Scan.Path
import Manifest.Proofs.Token.Nesting

/-!
# The issues of a text, told from its tokens

A text may have issues that do not stop a scan: a format with an empty segment in the header of a
here-doc, and escapes without a meaning in the strings in double quotes. Both are told from tokens
alone. A string belongs to the quotes that it begins with, and so do its fragments behind code; the
text of a here-doc, which may begin with a quote too, stands behind the body.

* `HereDoc.hasGap` — a format that is given has an empty segment.
* `issues` — the diagnostics of these issues, in the order of the tokens.
* `Dull` — tokens that have no issue and are no part of a string with interpolations.
* `Surroundings.behind_fragment`, `Surroundings.issues_fragment` — the fragments of strings.
-/

namespace Manifest

/-- A format that is given has an empty segment. -/
def HereDoc.hasGap (format : List Char) : Bool :=
  !format.isEmpty && (HereDoc.segments format).any List.isEmpty

namespace Scan

open Text (Source)
open Token (Kind)

/-! ## Issues -/

/-- What the tokens before a token tell about quotes. -/
structure Surroundings where
  /-- the text of a here-doc begins -/
  lifted : Bool
  /-- of each open string, the innermost one first: it stands in double quotes -/
  quoted : List Bool

namespace Surroundings

/-- Before the first token. -/
def start : Surroundings := ⟨false, []⟩

/-- Behind a token. -/
def behind (c : Surroundings) (t : Token) : Surroundings :=
  match t.kind with
  | .hereDocBody => { c with lifted := true }
  | .stringStart => ⟨false, (!c.lifted) :: c.quoted⟩
  | .stringEnd => ⟨false, c.quoted.tail⟩
  | _ => { c with lifted := false }

/-- Behind some tokens. -/
def after (c : Surroundings) (ts : List Token) : Surroundings := ts.foldl behind c

/-- The token is a string in double quotes, or a fragment of one. -/
def isQuoted (c : Surroundings) (t : Token) : Bool :=
  match t.kind with
  | .string => !c.lifted && t.sourceText.toList.head? = some '"'
  | .stringStart => !c.lifted
  | .stringMiddle | .stringEnd => c.quoted.head? = some true
  | _ => false

end Surroundings

/-- The issues of a token: that of a here-doc whose format is suspect, and the escapes without a
meaning in double quotes, where these are to be reported. -/
def Surroundings.issues (suspect : List Char → Bool) (warns : Bool) (c : Surroundings) (t : Token) :
    List Diagnostic :=
  if t.kind = .hereDoc then
    if suspect t.text.toList then
      [Problem.emptyFormatSegment.located (t.source.positionAt t.range.start)]
    else []
  else if warns && c.isQuoted t then
    escapeIssues t.source (Quote.unknownEscapes t.range.start t.sourceText.toList)
  else []

/-- The issues of tokens in their surroundings. -/
def issuesFrom (suspect : List Char → Bool) (warns : Bool) :
    Surroundings → List Token → List Diagnostic
  | _, [] => []
  | c, t :: ts => c.issues suspect warns t ++ issuesFrom suspect warns (c.behind t) ts

/-- The issues of a text, by its tokens. -/
def issues (suspect : List Char → Bool) (warns : Bool) (ts : List Token) : List Diagnostic :=
  issuesFrom suspect warns .start ts

variable {suspect suspect' : List Char → Bool} {warns dq first : Bool} {c : Surroundings}
  {ts us : List Token} {t : Token} {source : Source} {outer : List Bool} {ds : List Char} {o : Nat}

/-! ## Here-docs -/

/-- A header is suspect by its format. -/
theorem Surroundings.issues_hereDoc (ht : t.kind = .hereDoc) : c.issues suspect warns t =
    if suspect t.text.toList then
      [Problem.emptyFormatSegment.located (t.source.positionAt t.range.start)]
    else [] := if_pos ht

/-- The body itself has no issue; that of its text is found in the tokens behind it. -/
theorem Surroundings.issues_body (ht : t.kind = .hereDocBody) : c.issues suspect warns t = [] := by
  simp [issues, isQuoted, ht]

/-! ## Lists of tokens -/

/-- Surroundings change token by token. -/
theorem Surroundings.after_append (c : Surroundings) (ts us : List Token) :
    c.after (ts ++ us) = (c.after ts).after us := List.foldl_append

/-- The issues of tokens in a row, each in its surroundings. -/
theorem issuesFrom_append : issuesFrom suspect warns c (ts ++ us)
    = issuesFrom suspect warns c ts ++ issuesFrom suspect warns (c.after ts) us := by
  induction ts generalizing c with
  | nil => rfl
  | cons t ts ih =>
      rw [List.cons_append, issuesFrom, ih, issuesFrom, List.append_assoc]
      rfl

/-- Only the formats of here-docs matter. -/
theorem issuesFrom_congr
    (h : ∀ t ∈ ts, t.kind = .hereDoc → suspect t.text.toList = suspect' t.text.toList) :
    issuesFrom suspect warns c ts = issuesFrom suspect' warns c ts := by
  induction ts generalizing c with
  | nil => rfl
  | cons t ts ih =>
      obtain ⟨ht, hts⟩ := List.forall_mem_cons.1 h
      have hissues : c.issues suspect warns t = c.issues suspect' warns t := by
        unfold Surroundings.issues
        split
        next hkind => rw [ht hkind]
        next => rfl
      rw [issuesFrom, issuesFrom, hissues, ih hts]

/-! ## Tokens without issues -/

/-- The token has no issue, and is no part of a here-doc or of a string with interpolations. -/
structure Dull (t : Token) : Prop where
  hereDoc : ofHereDoc t.kind = false
  string : t.kind.stringRole = .inert
  quotes : t.kind = .string → t.sourceText.toList.head? ≠ some '"'

/-- A dull token is no fragment. -/
theorem Dull.no_fragment (h : Dull t) :
    t.kind ≠ .stringStart ∧ t.kind ≠ .stringMiddle ∧ t.kind ≠ .stringEnd := by
  have hrole := h.string
  refine ⟨?_, ?_, ?_⟩
  all_goals
    intro hkind
    rw [hkind] at hrole
    exact nomatch hrole

theorem Dull.behind (h : Dull t) (hc : c.lifted = false) : c.behind t = c := by
  obtain ⟨hstart, hmiddle, hend⟩ := h.no_fragment
  have hsame : ({ c with lifted := false } : Surroundings) = c := by
    obtain ⟨lifted, quoted⟩ := c
    obtain rfl := hc
    rfl
  unfold Surroundings.behind
  split
  next heq => exact absurd heq (ne_of_ofHereDoc h.hereDoc).2
  next heq => exact absurd heq hstart
  next heq => exact absurd heq hend
  next => exact hsame

/-- A dull token has no issues. -/
theorem Dull.issues (h : Dull t) : c.issues suspect warns t = [] := by
  obtain ⟨hstart, hmiddle, hend⟩ := h.no_fragment
  have hquoted : c.isQuoted t = false := by
    unfold Surroundings.isQuoted
    split
    next heq => rw [decide_eq_false (h.quotes heq), Bool.and_false]
    next heq => exact absurd heq hstart
    next heq => exact absurd heq hmiddle
    next heq => exact absurd heq hend
    next => rfl
  rw [Surroundings.issues, if_neg (ne_of_ofHereDoc h.hereDoc).1, hquoted, Bool.and_false,
    if_neg Bool.false_ne_true]

/-- Dull tokens leave the surroundings as they are. -/
theorem after_dull (h : ∀ t ∈ ts, Dull t) (hc : c.lifted = false) : c.after ts = c := by
  induction ts with
  | nil => rfl
  | cons t ts ih =>
      obtain ⟨ht, hts⟩ := List.forall_mem_cons.1 h
      show (c.behind t).after ts = c
      rw [ht.behind hc, ih hts]

/-- Dull tokens have no issues. -/
theorem issuesFrom_dull (h : ∀ t ∈ ts, Dull t) (hc : c.lifted = false) :
    issuesFrom suspect warns c ts = [] := by
  induction ts with
  | nil => rfl
  | cons t ts ih =>
      obtain ⟨ht, hts⟩ := List.forall_mem_cons.1 h
      rw [issuesFrom, ht.behind hc, ht.issues, ih hts]
      rfl

/-- What stands for a variable has no issue. -/
theorem dull_of_namesVariable (h : namesVariable t.kind) : Dull t := by
  obtain ⟨kind, value, range, source⟩ := t
  cases kind with
  | number => exact ⟨rfl, rfl, nofun⟩
  | name => exact ⟨rfl, rfl, nofun⟩
  | word => exact ⟨rfl, rfl, nofun⟩
  | keyword w => exact ⟨rfl, rfl, nofun⟩
  | boolean => exact ⟨rfl, rfl, nofun⟩
  | _ => exact nomatch h

/-- A token that becomes a variable has no issue, and nor has the variable. -/
theorem asVariable_dull (ts : List Token) : asVariable ts = ts ∨
    ∃ t u us, ts = t :: us ∧ asVariable ts = u :: us ∧ Dull t ∧ Dull u := by
  rcases asVariable_changes ts with heq | ⟨t, us, value, hts, hnames, heq⟩
  · exact .inl heq
  · exact .inr ⟨t, _, us, hts, heq, dull_of_namesVariable hnames, rfl, rfl, nofun⟩

theorem after_asVariable (hc : c.lifted = false) : c.after (asVariable ts) = c.after ts := by
  rcases asVariable_dull ts with heq | ⟨t, u, us, rfl, heq, ht, hu⟩
  · rw [heq]
  · rw [heq]
    show (c.behind u).after us = (c.behind t).after us
    rw [hu.behind hc, ht.behind hc]

/-- Names that become variables have the same issues. -/
theorem issuesFrom_asVariable (hc : c.lifted = false) :
    issuesFrom suspect warns c (asVariable ts) = issuesFrom suspect warns c ts := by
  rcases asVariable_dull ts with heq | ⟨t, u, us, rfl, heq, ht, hu⟩
  · rw [heq]
  · rw [heq, issuesFrom, issuesFrom, hu.behind hc, hu.issues, ht.behind hc, ht.issues]

/-! ## Fragments -/

/-- Before a fragment of a string, or of the text of a here-doc, inside others. -/
def Surroundings.inside (dq first : Bool) (outer : List Bool) : Surroundings :=
  if first then ⟨!dq, outer⟩ else ⟨false, dq :: outer⟩

/-- The escapes without a meaning in a token, if it is in double quotes and they are reported. -/
def fragmentIssues (on : Bool) (t : Token) : List Diagnostic :=
  if on then escapeIssues t.source (Quote.unknownEscapes t.range.start t.sourceText.toList) else []

/-- A fragment before others. -/
theorem Surroundings.behind_fragment (ht : t.kind = fragmentKind first) :
    (inside dq first outer).behind t = inside dq false outer := by
  cases first with
  | true =>
      have hkind : t.kind = .stringStart := ht
      simp [behind, inside, hkind]
  | false =>
      have hkind : t.kind = .stringMiddle := ht
      simp [behind, inside, hkind]

/-- The issues of a fragment are its unknown escapes, where warnings are wanted. -/
theorem Surroundings.issues_fragment (ht : t.kind = fragmentKind first) :
    (inside dq first outer).issues suspect warns t = fragmentIssues (warns && dq) t := by
  cases first with
  | true =>
      have hkind : t.kind = .stringStart := ht
      simp [issues, fragmentIssues, isQuoted, inside, hkind]
  | false =>
      have hkind : t.kind = .stringMiddle := ht
      simp [issues, fragmentIssues, isQuoted, inside, hkind]

/-- The last fragment. -/
theorem Surroundings.behind_last (ht : t.kind = if first then .string else .stringEnd) :
    (inside dq first outer).behind t = ⟨false, outer⟩ := by
  cases first with
  | true =>
      have hkind : t.kind = .string := ht
      simp [behind, inside, hkind]
  | false =>
      have hkind : t.kind = .stringEnd := ht
      simp [behind, inside, hkind]

/-- A string without interpolations begins with its quotes. -/
theorem Surroundings.issues_last (ht : t.kind = if first then .string else .stringEnd)
    (hquote : dq → first → t.sourceText.toList.head? = some '"') :
    (inside dq first outer).issues suspect warns t = fragmentIssues (warns && dq) t := by
  cases first with
  | true =>
      have hkind : t.kind = .string := ht
      cases dq with
      | true => simp [issues, fragmentIssues, isQuoted, inside, hkind, hquote rfl rfl]
      | false => simp [issues, fragmentIssues, isQuoted, inside, hkind]
  | false =>
      have hkind : t.kind = .stringEnd := ht
      simp [issues, fragmentIssues, isQuoted, inside, hkind]

/-- The escapes in a fragment are those of the text that it covers. -/
theorem fragmentIssues_eq {on : Bool} {front rest : List Char} {found : List (Nat × Char)}
    (hover : Over source (Text.byteLength front) ds t) (htext : source.text = front ++ ds ++ rest)
    (hfound : on → Quote.unknownEscapes (Text.byteLength front) ds = found) :
    fragmentIssues on t = if on then escapeIssues source found else [] := by
  cases on with
  | false => rfl
  | true =>
      rw [fragmentIssues, hover.sourceText htext, String.toList_ofList, hover.source, hover.range,
        hfound rfl]

end Scan

end Manifest
