import Manifest.Proofs.Scan.Run
import Mathlib.Data.List.Infix

/-!
# What tokens take up

The body of a here-doc is read when its header is met, and the scan leaves it out when it reaches
the line feed behind the header. Only a line feed that is reached in code does that: a string, a
comment or the header of another here-doc that takes the line feed leads into the body, and what
stands there is read again.

* `footprint` — the part of a text that a token takes up.
* `Heeds` — what a token must leave alone, and what must stand behind a header.
* `Clear` — what was taken up before the cursor, and how far the bodies reach that are left out.
-/

namespace Manifest.Scan

open HereDoc (linesOf)
open Text (Boundary Document Range byteLength byteLength_append dropBytes)

variable {s : State} {cs ds line rest text : List Char} {ts us : List Token} {t : Token}
  {d : Document} {waited : Nat → Prop} {used : List Range} {pos next offset start stop : Nat}
  {resume : Option Nat}

/-! ## The line of a header -/

/-- What is left of the line of an offset. -/
def restOfLine (text : List Char) (offset : Nat) : List Char :=
  (dropBytes text offset).takeWhile (· ≠ '\n')

/-- The offset of the line feed that ends the line of an offset. -/
def lineFeed (text : List Char) (offset : Nat) : Nat :=
  offset + byteLength (restOfLine text offset)

/-- At the offset stands the rest of a line, and the line feed that ends it. -/
def BeforeFeed (text : List Char) (offset : Nat) (line : List Char) : Prop :=
  ∃ front rest, text = front ++ (line ++ '\n' :: rest) ∧ '\n' ∉ line ∧ offset = byteLength front

/-- A comment begins on the line and does not end on it. -/
def LeavesComment (line : List Char) : Prop :=
  ∃ front back, line = front ++ '/' :: '*' :: back ∧ ¬ ['*', '/'] <:+: back

/-- A line leaves a comment open if one is opened on it and not closed behind that. -/
theorem leavesComment_iff : LeavesComment line ↔
    ∃ cs ∈ line.tails, ['/', '*'] <+: cs ∧ ¬ ['*', '/'] <:+: cs.drop 2 := by
  constructor
  · rintro ⟨front, back, rfl, hback⟩
    exact ⟨_, (List.mem_tails _ _).2 (List.suffix_append _ _), ⟨back, rfl⟩, hback⟩
  · rintro ⟨cs, hmem, ⟨back, rfl⟩, hback⟩
    obtain ⟨front, rfl⟩ := (List.mem_tails _ _).1 hmem
    exact ⟨front, back, rfl, hback⟩

instance : DecidablePred LeavesComment := fun _ => decidable_of_iff _ leavesComment_iff.symm

/-- Text in front closes no comment. -/
theorem LeavesComment.prepend (h : LeavesComment line) (ds : List Char) :
    LeavesComment (ds ++ line) := by
  obtain ⟨front, back, rfl, hback⟩ := h
  exact ⟨ds ++ front, back, (List.append_assoc _ _ _).symm, hback⟩

/-- What stands before the line feed is the rest of the line. -/
theorem BeforeFeed.restOfLine_eq (h : BeforeFeed text offset line) :
    restOfLine text offset = line := by
  obtain ⟨front, rest, rfl, hfeed, rfl⟩ := h
  have hline : ∀ c ∈ line, decide (c ≠ '\n') = true := fun c hc =>
    decide_eq_true (ne_of_mem_of_not_mem hc hfeed)
  rw [restOfLine, Text.dropBytes_byteLength, List.takeWhile_append_of_pos hline,
    List.takeWhile_cons_of_neg (by decide), List.append_nil]

/-- The line feed stands behind it. -/
theorem BeforeFeed.lineFeed_eq (h : BeforeFeed text offset line) :
    lineFeed text offset = offset + byteLength line := by
  rw [lineFeed, h.restOfLine_eq]

/-- Further on in the line, less of it is left. -/
theorem BeforeFeed.advance (h : BeforeFeed text pos line) (hnext : Boundary text next)
    (hpos : pos ≤ next) (hline : next ≤ pos + byteLength line) :
    ∃ ds rest, line = ds ++ rest ∧ next = pos + byteLength ds ∧ BeforeFeed text next rest := by
  obtain ⟨front, after, htext, hfeed, rfl⟩ := h
  obtain ⟨front', after', htext', rfl⟩ := hnext
  obtain ⟨ds, rfl⟩ : front <+: front' :=
    Text.prefix_of_byteLength_le ⟨_, htext.symm⟩ ⟨_, htext'.symm⟩ hpos
  rw [byteLength_append] at hline ⊢
  have hsame : line ++ '\n' :: after = ds ++ after' := by
    rw [htext, List.append_assoc, List.append_cancel_left_eq] at htext'
    exact htext'
  obtain ⟨rest, rfl⟩ : ds <+: line :=
    Text.prefix_of_byteLength_le ⟨_, hsame.symm⟩ ⟨_, rfl⟩ (by omega)
  refine ⟨ds, rest, rfl, rfl, front ++ ds, after, ?_, ?_, (byteLength_append front ds).symm⟩
  · rw [htext]
    simp only [List.append_assoc]
  · exact fun hmem => hfeed (List.mem_append_right ds hmem)

/-- The rest of the line stands at the cursor. -/
theorem BeforeFeed.at (h : BeforeFeed s.text s.pos line) (hat : s.At cs) :
    ∃ rest, cs = line ++ '\n' :: rest ∧ '\n' ∉ line := by
  obtain ⟨front, rest, htext, hfeed, hpos⟩ := h
  obtain ⟨front', htext', hpos'⟩ := hat
  rw [htext'] at htext
  obtain rfl := Text.eq_of_byteLength_eq htext (hpos'.symm.trans hpos)
  exact ⟨rest, List.append_cancel_left htext, hfeed⟩

/-- Text without a line feed ends on the line on which it begins. -/
theorem prefix_of_not_mem (h : ds ++ rest = line ++ '\n' :: cs) (hds : '\n' ∉ ds) :
    ds <+: line := by
  rcases List.prefix_or_prefix_of_prefix ⟨rest, h⟩ (List.prefix_append line ('\n' :: cs)) with
    hfront | ⟨es, rfl⟩
  · exact hfront
  · rw [List.append_assoc, List.append_cancel_left_eq] at h
    cases es with
    | nil => rw [List.append_nil]
    | cons e es =>
        obtain rfl := (List.cons.inj h).1
        exact absurd (List.mem_append_right line List.mem_cons_self) hds

/-- A comment ends on the line on which it begins, if the line leaves none open. -/
theorem blockComment_within {body : List Char} (hbody : ¬ ['*', '/'] <:+: body ++ ['*'])
    (h : '/' :: '*' :: body ++ ['*', '/'] ++ rest = line ++ '\n' :: cs)
    (hline : ¬ LeavesComment line) : '/' :: '*' :: body ++ ['*', '/'] <+: line := by
  have hopen : ['/', '*'] ++ (body ++ ['*', '/'] ++ rest) = line ++ '\n' :: cs := by
    rw [← h]
    simp only [List.append_assoc, List.cons_append, List.nil_append]
  obtain ⟨back, rfl⟩ := prefix_of_not_mem hopen (by decide)
  obtain ⟨front, after, hclose⟩ : ['*', '/'] <:+: back :=
    Classical.byContradiction fun hback => hline ⟨[], back, rfl, hback⟩
  have hback : body ++ ['*', '/'] ++ rest = front ++ ['*', '/'] ++ (after ++ '\n' :: cs) := by
    rw [← hclose] at h
    simpa only [List.append_assoc, List.cons_append, List.nil_append, List.cons.injEq,
      true_and] using h
  -- the end of the comment is not behind the one that is found on the line
  have hle : body.length ≤ front.length := by
    refine Nat.le_of_not_lt fun hlt => ?_
    have hfront : front ++ ['*', '/'] <+: body ++ ['*'] := by
      refine List.prefix_of_prefix_length_le ⟨_, hback.symm⟩ ⟨'/' :: rest, ?_⟩ ?_
      · simp only [List.append_assoc, List.cons_append, List.nil_append]
      · simp only [List.length_append, List.length_cons, List.length_nil]
        omega
    exact hbody ((List.suffix_append front ['*', '/']).isInfix.trans hfront.isInfix)
  have hwithin : body ++ ['*', '/'] <+: front ++ ['*', '/'] := by
    refine List.prefix_of_prefix_length_le ⟨_, hback⟩ ⟨_, rfl⟩ ?_
    simp only [List.length_append, List.length_cons, List.length_nil]
    omega
  rw [← hclose]
  exact (List.prefix_append_right_inj ['/', '*']).2 (hwithin.trans (List.prefix_append _ after))

/-! ## What a token takes up -/

/-- The end of the line that begins at an offset. -/
def lineEnd (text : List Char) (offset : Nat) : Nat :=
  offset + byteLength ((linesOf (dropBytes text offset)).headD [])

/-- The part of a text that a token takes up; the body of a here-doc comes with its end line. -/
def footprint (text : List Char) (t : Token) : Range :=
  if t.kind = .hereDocBody then ⟨t.range.start, lineEnd text t.range.stop⟩ else t.range

/-- One of the ranges ends before the other one begins. -/
def Apart (p q : Range) : Prop := p.stop ≤ q.start ∨ q.stop ≤ p.start

/-- What the tokens of a document take up of it. The bodies of here-docs are scanned as texts of
their own, and their tokens refer to these. -/
def footprints (d : Document) (ts : List Token) : List Range :=
  (ts.filter (·.source = .document d)).map (footprint d.text)

/-- The token leaves the line feeds alone that bodies wait for. Behind a header such a line feed
ends the line, and no comment that begins on the line takes it. -/
structure Heeds (d : Document) (waited : Nat → Prop) (t : Token) : Prop where
  reads : t.source = .document d → t.kind ≠ .hereDocBody →
    ∀ n, waited n → t.range.stop ≤ n ∨ n < t.range.start
  waits : t.source = .document d → t.kind = .hereDoc →
    waited (lineFeed d.text t.range.stop) ∧ ¬ LeavesComment (restOfLine d.text t.range.stop)

/-- Tokens in a row leave their footprints in a row. -/
theorem footprints_append (d : Document) (ts us : List Token) :
    footprints d (ts ++ us) = footprints d ts ++ footprints d us := by
  rw [footprints, List.filter_append, List.map_append]
  rfl

theorem footprints_cons (h : t.source = .document d) (ts : List Token) :
    footprints d (t :: ts) = footprint d.text t :: footprints d ts := by
  rw [footprints, List.filter_cons, if_pos (decide_eq_true h)]
  rfl

/-- Tokens of other sources leave none. -/
theorem footprints_eq_nil (h : ∀ t ∈ ts, t.source ≠ .document d) : footprints d ts = [] := by
  rw [footprints, List.filter_eq_nil_iff.2 fun t ht => by simpa using h t ht]
  rfl

/-- A token leaves its range. -/
theorem footprint_of_ne (h : t.kind ≠ .hereDocBody) : footprint text t = t.range := if_neg h

/-- The body of a here-doc leaves its end line as well. -/
theorem footprint_of_eq (h : t.kind = .hereDocBody) :
    footprint text t = ⟨t.range.start, lineEnd text t.range.stop⟩ := if_pos h

/-! The first token of an interpolation may become a variable; it stays where it is. -/

/-- A token that can stand for a variable is no part of a here-doc. -/
theorem ne_of_namesVariable {kind : Token.Kind} (h : namesVariable kind) :
    kind ≠ .hereDoc ∧ kind ≠ .hereDocBody := by
  constructor
  · rintro rfl
    exact nomatch h
  · rintro rfl
    exact nomatch h

/-- Names that become variables leave the same footprints. -/
theorem footprints_asVariable (ts : List Token) :
    footprints d (asVariable ts) = footprints d ts := by
  rcases asVariable_changes ts with heq | ⟨t, us, value, rfl, hnames, heq⟩
  · rw [heq]
  · have hvariable : Token.Kind.variable ≠ .hereDocBody := nofun
    have hsame : footprint d.text { t with kind := .variable, value } = footprint d.text t :=
      (footprint_of_ne hvariable).trans (footprint_of_ne (ne_of_namesVariable hnames).2).symm
    rw [heq, footprints, footprints, List.filter_cons, List.filter_cons]
    split
    · rw [List.map_cons, List.map_cons, hsame]
    · rfl

theorem heeds_of_asVariable (h : ∀ t ∈ asVariable ts, Heeds d waited t) :
    ∀ t ∈ ts, Heeds d waited t := by
  rcases asVariable_changes ts with heq | ⟨t, us, value, rfl, hnames, heq⟩
  · rwa [heq] at h
  · rw [heq] at h
    obtain ⟨hvariable, hus⟩ := List.forall_mem_cons.1 h
    have ht : Heeds d waited t := ⟨fun hsource _ => hvariable.reads hsource nofun,
      fun _ hkind => absurd hkind (ne_of_namesVariable hnames).1⟩
    exact List.forall_mem_cons.2 ⟨ht, hus⟩

/-! ## What was taken up before the cursor -/

/-- Nothing was taken up twice. It stands before the cursor, or, when a line feed leads behind
bodies, between that line feed and the end of the bodies; the line feed is waited for, and no
comment is open there. -/
inductive Clear (text : List Char) (waited : Nat → Prop) (used : List Range) :
    Nat → Option Nat → Prop
  | free {pos : Nat} (hused : used.Pairwise Apart) (hbefore : ∀ u ∈ used, u.stop ≤ pos) :
      Clear text waited used pos none
  | pending {pos stop : Nat} {line : List Char} (hused : used.Pairwise Apart)
      (hline : BeforeFeed text pos line) (hwaited : waited (pos + byteLength line))
      (hcomment : ¬ LeavesComment line) (hstop : pos + byteLength line < stop)
      (hbefore : ∀ u ∈ used, u.stop ≤ pos ∨ pos + byteLength line < u.start ∧ u.stop ≤ stop) :
      Clear text waited used pos (some stop)

/-- A further range apart from the others. -/
theorem pairwise_concat {r : Range} (h : used.Pairwise Apart) (hr : ∀ u ∈ used, Apart u r) :
    (used ++ [r]).Pairwise Apart := by
  rw [List.pairwise_append]
  refine ⟨h, List.pairwise_singleton _ _, ?_⟩
  intro u hu q hq
  rw [List.mem_singleton.1 hq]
  exact hr u hu

/-- Footprints so far are apart. -/
theorem Clear.pairwise (h : Clear text waited used pos resume) : used.Pairwise Apart := by
  cases h with
  | free hused => exact hused
  | pending hused => exact hused

/-- At the end of the text no line feed is waited for. -/
theorem Clear.of_atEnd (h : Clear text waited used pos resume) (hend : byteLength text ≤ pos) :
    ∀ u ∈ used, u.stop ≤ pos := by
  cases h with
  | free _ hbefore => exact hbefore
  | pending _ hline =>
      obtain ⟨front, rest, rfl, -, rfl⟩ := hline
      rw [byteLength_append, byteLength_append] at hend
      have hfeed := Text.byteLength_pos (List.cons_ne_nil '\n' rest)
      omega

/-- The cursor moves on, within the line when bodies are waiting. -/
theorem Clear.skip (h : Clear text waited used pos resume) (hpos : pos ≤ next)
    (hnext : Boundary text next)
      (hwithin : ∀ line, BeforeFeed text pos line → ¬ LeavesComment line →
      next ≤ pos + byteLength line) : Clear text waited used next resume := by
  cases h with
  | free hused hbefore => exact .free hused fun u hu => Nat.le_trans (hbefore u hu) hpos
  | pending hused hline hwaited hcomment hstop hbefore =>
      have hle := hwithin _ hline hcomment
      obtain ⟨ds, rest, rfl, rfl, hrest⟩ := hline.advance hnext hpos hle
      rw [byteLength_append, ← Nat.add_assoc] at hwaited hstop hbefore
      refine .pending hused hrest hwaited (fun h => hcomment (h.prepend ds)) hstop ?_
      intro u hu
      exact (hbefore u hu).imp_left fun hle => Nat.le_trans hle hpos

/-- The cursor moves over a token that leaves the line feeds alone that are waited for. -/
theorem Clear.read (h : Clear text waited used pos resume) (hpos : pos ≤ next)
    (hnext : Boundary text next) (hheeds : ∀ n, waited n → next ≤ n ∨ n < pos) :
    Clear text waited (used ++ [⟨pos, next⟩]) next resume := by
  cases h with
  | free hused hbefore =>
      refine .free (pairwise_concat hused fun u hu => .inl (hbefore u hu)) ?_
      rw [List.forall_mem_append, List.forall_mem_singleton]
      exact ⟨fun u hu => Nat.le_trans (hbefore u hu) hpos, Nat.le_refl next⟩
  | @pending stop line hused hline hwaited hcomment hstop hbefore =>
      have hle : next ≤ pos + byteLength line := by
        rcases hheeds _ hwaited with hle | hlt
        · exact hle
        · omega
      obtain ⟨ds, rest, rfl, rfl, hrest⟩ := hline.advance hnext hpos hle
      rw [byteLength_append, ← Nat.add_assoc] at hwaited hstop hbefore
      refine .pending (pairwise_concat hused ?_) hrest hwaited
        (fun h => hcomment (h.prepend ds)) hstop ?_
      · intro u hu
        rcases hbefore u hu with hu | ⟨hu, -⟩
        · exact .inl hu
        · exact .inr (by dsimp only; omega)
      · rw [List.forall_mem_append, List.forall_mem_singleton]
        exact ⟨fun u hu => (hbefore u hu).imp_left fun hle => Nat.le_trans hle hpos,
          .inl (Nat.le_refl _)⟩

/-- A line feed that is reached in code leads behind the bodies. -/
theorem Clear.newline (h : Clear text waited used pos resume) :
    Clear text waited used (resume.getD (pos + 1)) none := by
  cases h with
  | free hused hbefore => exact .free hused fun u hu => Nat.le_succ_of_le (hbefore u hu)
  | pending hused hline hwaited hcomment hstop hbefore =>
      refine .free hused ?_
      intro u hu
      rw [Option.getD_some]
      rcases hbefore u hu with hu | ⟨-, hu⟩
      · omega
      · exact hu

/-- The first body that waits for a line feed begins behind that. -/
theorem Clear.first (h : Clear text waited used pos none) (hline : BeforeFeed text pos line)
    (hwaited : waited (pos + byteLength line)) (hcomment : ¬ LeavesComment line)
    (hstart : start = pos + byteLength line + 1) (hstop : start ≤ stop) :
    Clear text waited (used ++ [⟨start, stop⟩]) pos (some stop) := by
  cases h with
  | free hused hbefore =>
      refine .pending (pairwise_concat hused ?_) hline hwaited hcomment (by omega) ?_
      · intro u hu
        have hle := hbefore u hu
        exact .inl (by dsimp only; omega)
      · rw [List.forall_mem_append, List.forall_mem_singleton]
        exact ⟨fun u hu => .inl (hbefore u hu), .inr ⟨by dsimp only; omega, Nat.le_refl _⟩⟩

/-- Further bodies begin behind the last one. -/
theorem Clear.further (h : Clear text waited used pos (some start)) (hstop : start ≤ stop) :
    Clear text waited (used ++ [⟨start, stop⟩]) pos (some stop) := by
  cases h with
  | pending hused hline hwaited hcomment hlt hbefore =>
      refine .pending (pairwise_concat hused ?_) hline hwaited hcomment (by omega) ?_
      · intro u hu
        rcases hbefore u hu with hu | ⟨-, hu⟩
        · exact .inl (by dsimp only; omega)
        · exact .inl hu
      · rw [List.forall_mem_append, List.forall_mem_singleton]
        refine ⟨fun u hu => (hbefore u hu).imp_right fun hu => ⟨hu.1, Nat.le_trans hu.2 hstop⟩, ?_⟩
        exact .inr ⟨hlt, Nat.le_refl _⟩

end Manifest.Scan
