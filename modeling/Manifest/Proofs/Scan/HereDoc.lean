import Manifest.Proofs.HereDoc.Body
import Manifest.Proofs.Scan.Cursor

/-!
# What a here-doc is read from

A here-doc that is found has a header between parentheses, the lines of a body and an end line,
which is the first one of its tag. Nothing else of the text matters to it.

* `NextLine` — where a body begins that follows no other.
* `OpenHereDoc.ReadFrom` — the parts of the text that a here-doc was read from.
* `takeHereDoc_spec` — a here-doc that is found was read from such parts.
-/

namespace Manifest.Scan

open Text (Boundary byteLength byteLength_append)

variable {s s' : State} {found : OpenHereDoc} {raw : List (List Char)} {line : List Char}
  {ending : HereDoc.EndLine} {next start r : Nat}

/-! ## The header -/

/-- The text up to the first parenthesis, where there is one. -/
theorem exists_of_takeWhile_ne {cs : List Char} (h : (cs.takeWhile (· ≠ ')')).length ≠ cs.length) :
    ∃ rest, cs = cs.takeWhile (· ≠ ')') ++ ')' :: rest := by
  have hsplit := List.takeWhile_append_dropWhile (p := (· ≠ ')')) (l := cs)
  have hhead := List.head?_dropWhile_not (fun c => decide (c ≠ ')')) cs
  cases hdrop : cs.dropWhile (· ≠ ')') with
  | nil =>
      rw [hdrop, List.append_nil] at hsplit
      exact absurd (congrArg List.length hsplit) h
  | cons c rest =>
      rw [hdrop] at hhead hsplit
      have hc : c = ')' := by simpa using hhead
      rw [hc] at hsplit
      exact ⟨rest, hsplit.symm⟩

/-- The state when the format of a header was reported, if that has an empty segment. -/
def State.judging (s : State) (header : HereDoc.Header) : State :=
  if header.hasEmptySegment then s.report .emptyFormatSegment s.pos else s

/-- Judging a header only adds diagnostics. -/
theorem State.exists_judging (s : State) (header : HereDoc.Header) :
    ∃ ds, s.judging header = { s with diagnostics := ds } := by
  unfold State.judging
  split
  · exact ⟨_, rfl⟩
  · exact ⟨_, rfl⟩

/-- The header of a here-doc takes its opening, its text and the parenthesis that closes it. -/
theorem takeHeader_ok {header : HereDoc.Header} {next : Nat}
    (h : takeHeader s = .ok (header, next) s') :
    (∃ spelling rest, s.rest.drop 2 = spelling ++ ')' :: rest ∧
      HereDoc.Header.parse spelling = .ok header ∧ next = s.pos + 3 + byteLength spelling) ∧
      s' = s.judging header := by
  unfold takeHeader at h
  rw [get_bind] at h
  dsimp only at h
  split at h
  next => exact nomatch h
  next hlength =>
    obtain ⟨rest, hrest⟩ := exists_of_takeWhile_ne hlength
    cases hparse : HereDoc.Header.parse ((s.rest.drop 2).takeWhile (· ≠ ')')) with
    | error rule =>
        rw [hparse] at h
        exact nomatch h
    | ok header' =>
        rw [hparse] at h
        dsimp only at h
        split at h
        next hempty =>
          obtain ⟨heq, rfl⟩ := EStateM.Result.ok.inj h
          obtain ⟨rfl, rfl⟩ := Prod.mk.inj heq
          exact ⟨⟨_, rest, hrest, hparse, rfl⟩, (if_pos hempty).symm⟩
        next hempty =>
          obtain ⟨heq, rfl⟩ := EStateM.Result.ok.inj h
          obtain ⟨rfl, rfl⟩ := Prod.mk.inj heq
          exact ⟨⟨_, rest, hrest, hparse, rfl⟩, (if_neg hempty).symm⟩

/-! ## Where the body begins -/

/-- The next line after an offset begins at another. -/
def NextLine (text : List Char) (offset start : Nat) : Prop :=
  ∃ front line rest, text = front ++ line ++ '\n' :: rest ∧ '\n' ∉ line ∧
    offset = byteLength front ∧ start = byteLength (front ++ line ++ ['\n'])

/-- Without an earlier body, a body begins on the next line. -/
theorem nextLine_of_bodyStart? (hresume : s.resume = none) (hnext : Boundary s.text next)
    (h : bodyStart? s next = some start) : NextLine s.text next start := by
  unfold bodyStart? at h
  rw [hresume] at h
  obtain ⟨offset, hfind, rfl⟩ := Option.map_eq_some_iff.1 h
  obtain ⟨front, rest, htext, rfl⟩ := hnext
  rw [htext, Text.dropBytes_byteLength] at hfind
  obtain ⟨line, after, rfl, rfl, hfeed, hmin⟩ := Text.findOffset_spec hfind
  obtain ⟨after, rfl⟩ := List.isPrefixOf_iff_prefix.1 hfeed
  refine ⟨front, line, after, ?_, ?_, rfl, ?_⟩
  · rw [htext, List.append_assoc]
    rfl
  · intro hmem
    obtain ⟨ds, es, rfl⟩ := List.append_of_mem hmem
    exact Bool.noConfusion (hmin ds ('\n' :: es) rfl (List.cons_ne_nil _ _))
  · rw [byteLength_append, byteLength_append]
    rfl

/-- Behind an earlier body, a body begins where that has ended. -/
theorem eq_of_bodyStart? (hresume : s.resume = some r) (h : bodyStart? s next = some start) :
    start = r := by
  unfold bodyStart? at h
  rw [hresume] at h
  exact (Option.some.inj h).symm

/-! ## All of it -/

/-- What a here-doc was read from: the lines of its body, its end line, and what that asks for. -/
structure OpenHereDoc.ReadFrom (h : OpenHereDoc) (s : State) (raw : List (List Char))
    (line : List Char) (ending : HereDoc.EndLine) : Prop where
  header : ∃ spelling rest, s.rest.drop 2 = spelling ++ ')' :: rest ∧
    HereDoc.Header.parse spelling = .ok h.header ∧ h.next = s.pos + 3 + byteLength spelling
  start : bodyStart? s h.next = some h.bodyStart
  lines : ∃ more, HereDoc.linesOf (Text.dropBytes s.text h.bodyStart) = raw ++ line :: more
  /-- no line of the body is an end line -/
  body_lines : ∀ other ∈ raw, HereDoc.EndLine.ofLine? (HereDoc.dropFeed other) h.header.tag = none
  end_line : HereDoc.EndLine.ofLine? (HereDoc.dropFeed line) h.header.tag = some ending
  endLine : h.endLine = h.bodyStart + byteLength raw.flatten
  bodyStop : h.bodyStop = h.endLine + byteLength line
  body : h.body = ⟨(HereDoc.shapeBody ending raw).map String.ofList,
    .ofText (HereDoc.shapeBody ending raw).flatten s.source.file (s.source.line h.bodyStart - 1)
      (s.source.charOffset h.bodyStart) ending.margin⟩

/-- A here-doc that is found was read from its header, its lines and its end line, and has reported
its format. -/
theorem takeHereDoc_spec (h : takeHereDoc s = .ok found s') :
    (∃ raw line ending, found.ReadFrom s raw line ending) ∧ s' = s.judging found.header := by
  unfold takeHereDoc at h
  obtain ⟨⟨header, next⟩, s₁, hheader, h⟩ := bind_eq_ok h
  obtain ⟨hspelling, hjudging⟩ := takeHeader_ok hheader
  obtain ⟨ds, hds⟩ := s.exists_judging header
  obtain rfl := hjudging.trans hds
  dsimp only at h
  rw [get_bind] at h
  dsimp only at h
  cases hstart : bodyStart? { s with diagnostics := ds } next with
  | none =>
      rw [hstart] at h
      exact nomatch h
  | some start =>
      rw [hstart] at h
      dsimp only at h
      cases hbody : HereDoc.takeBody header.tag (HereDoc.linesOf (Text.dropBytes s.text start)) with
      | none =>
          rw [hbody] at h
          exact nomatch h
      | some result =>
          obtain ⟨raw, ending, length⟩ := result
          rw [hbody] at h
          obtain ⟨rfl, rfl⟩ := EStateM.Result.ok.inj h
          obtain ⟨line, more, hlines, rfl, hend, hraw⟩ := HereDoc.takeBody_spec hbody
          exact ⟨⟨raw, line, ending, hspelling, hstart, ⟨more, hlines⟩, hraw, hend, rfl, rfl, rfl⟩,
            hjudging⟩

/-- A here-doc is read from the lines behind the cursor, and only diagnostics are added. -/
theorem takeHereDoc_read (h : takeHereDoc s = .ok found s') :
    (∃ raw line ending, found.ReadFrom s raw line ending) ∧ ∃ ds, s' =
      { s with diagnostics := ds } := by
  obtain ⟨hread, rfl⟩ := takeHereDoc_spec h
  exact ⟨hread, s.exists_judging found.header⟩

/-- The lines of a here-doc are those of its body as the end line asks for them. -/
theorem OpenHereDoc.ReadFrom.lines_eq (h : found.ReadFrom s raw line ending) :
    found.body.lines.map String.toList = HereDoc.shapeBody ending raw := by
  rw [h.body, List.map_map]
  exact List.map_id'' (fun _ => String.toList_ofList) _

end Manifest.Scan
