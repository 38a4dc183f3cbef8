import Manifest.Proofs.Quote.Verbatim
import Manifest.Proofs.Scan.Nesting
import Manifest.Proofs.Scan.Path

/-!
# Raw text with interpolations

Without escapes, a fragment of a text says what stands in its range, but for the `${` at its end.
The text of a fragment is put together from several runs, one up to each dollar sign that begins
nothing, while its range is kept by two offsets: the two agree.

* `Copies` — a token says what stands in the text.
* `Verbatim` — the fragments of a text from an offset on, and what stands between them.
* `Runs.verbatim` — what a scan of raw text gives.
-/

namespace Manifest.Scan

open Quote (Raw)
open Text (Source byteLength byteLength_append)

variable {cs ds body rest pending : List Char} {start : Nat} {first : Bool} {s s' s₁ s₂ : State}
  {ts : List Token} {q : Quoting} {run : Quote.Run}

/-! ## Verbatim fragments -/

/-- The characters stand in the text at the offset. -/
def StandsAt (text : List Char) (o : Nat) (ds : List Char) : Prop :=
  ∃ before after, text = before ++ ds ++ after ∧ o = byteLength before

/-- A text without the `${` that it ends with. -/
def withoutOpening (ds : List Char) : List Char :=
  if ['$', '{'].isSuffixOf ds then ds.dropLast.dropLast else ds

/-- The token covers what stands in the text at the offset, and says it. -/
structure Copies (source : Source) (text : List Char) (o : Nat) (ds : List Char) (t : Token) :
    Prop where
  covers : Over source o ds t
  stands : StandsAt text o ds
  text : t.text = String.ofList (withoutOpening ds)

/-- The code of an interpolation is laid out as the tokens, from an offset up to the brace that
closes it, or up to the end of the text. -/
inductive Enclosed (source : Source) (text : List Char) (o : Nat) (ts : List Token) : Nat → Prop
  | closed {before code rest : List Char} (htext : text = before ++ code ++ '}' :: rest)
      (ho : o = byteLength before) (h : Laid source .code o code ('}' :: rest) ts) :
      Enclosed source text o ts (o + byteLength (code ++ ['}']))
  | ended {before code : List Char} (htext : text = before ++ code) (ho : o = byteLength before)
      (h : Laid source .code o code [] ts) : Enclosed source text o ts (byteLength text)

/-- The fragments of a text from an offset on, each of which says what it covers. The variable or
the code behind a fragment begins where that ends, and the next fragment begins where they end;
where code has here-docs, the bodies of these stand elsewhere in the text. -/
inductive Verbatim (source : Source) (text : List Char) : Bool → Nat → List Token → Prop
  | last {first : Bool} {o : Nat} {ds : List Char} {t : Token}
      (hkind : t.kind = if first then .string else .stringEnd) (h : Copies source text o ds t)
      (hend : o + byteLength ds = byteLength text) : Verbatim source text first o [t]
  | reference {first : Bool} {o : Nat} {ds name : List Char} {t v : Token} {ts : List Token}
      (hkind : t.kind = fragmentKind first) (h : Copies source text o ds t)
      (hv : v.kind = .variable ∧ v.text = String.ofList name)
      (hover : Over source (o + byteLength ds) ('$' :: name) v)
      (hname : StandsAt text (o + byteLength ds) ('$' :: name))
      (hrest : Verbatim source text false (o + byteLength (ds ++ '$' :: name)) ts) :
      Verbatim source text first o (t :: v :: ts)
  | braces {first : Bool} {o next : Nat} {ds : List Char} {t : Token} {us ts : List Token}
      (hkind : t.kind = fragmentKind first) (h : Copies source text o (ds ++ ['$', '{']) t)
      (hcode : Balanced Token.Kind.stringRole us)
      (hclosed : Undocumented text →
        Enclosed source text (o + byteLength (ds ++ ['$', '{'])) us next)
      (hrest : Verbatim source text false next ts) : Verbatim source text first o (t :: us ++ ts)

/-! ## What a fragment says -/

/-- What opens an interpolation is left out. -/
theorem withoutOpening_append (ds : List Char) : withoutOpening (ds ++ ['$', '{']) = ds := by
  have hsuffix : ['$', '{'].isSuffixOf (ds ++ ['$', '{']) :=
    List.isSuffixOf_iff_suffix.2 (List.suffix_append ds _)
  rw [withoutOpening, if_pos hsuffix, List.append_cons, List.dropLast_concat, List.dropLast_concat]

/-- A dollar sign that was read begins nothing. -/
def LoneDollar (pending cs : List Char) : Prop :=
  pending = [] ∨ ∃ front, pending = front ++ ['$'] ∧ cs.head? ≠ some '{'

/-- Characters behind a lone dollar sign make no `${` with it. -/
theorem LoneDollar.withoutOpening_eq (h : LoneDollar pending (body ++ rest)) (hbody : '$' ∉ body) :
    withoutOpening (pending ++ body) = pending ++ body := by
  refine if_neg ?_
  intro hsuffix
  obtain ⟨front, hfront⟩ := List.isSuffixOf_iff_suffix.1 hsuffix
  rcases List.append_eq_append_iff.1 hfront with ⟨ds, hpending, hds⟩ | ⟨ds, -, hds⟩
  · -- what was read before ends with a part of `${`
    match ds with
    | [] =>
        rw [List.nil_append] at hds
        exact hbody (hds ▸ List.mem_cons_self)
    | [c] =>
        obtain rfl : body = ['{'] := (List.cons.inj hds).2.symm
        rcases h with rfl | ⟨_, -, hhead⟩
        · exact absurd hpending (by simp)
        · exact hhead rfl
    | c :: d :: ds =>
        have hbrace : ['{'] = d :: (ds ++ body) := (List.cons.inj hds).2
        obtain rfl := (List.cons.inj hbrace).1
        obtain ⟨rfl, -⟩ := List.append_eq_nil_iff.1 (List.cons.inj hbrace).2.symm
        rcases h with rfl | ⟨lone, rfl, -⟩
        · exact absurd hpending (by simp)
        · have hlast := congrArg List.getLast? hpending
          simp at hlast
  · exact hbody (hds ▸ List.mem_append_right ds List.mem_cons_self)

/-! ## Fragments that are read -/

/-- What was read of a fragment stands before the cursor, and ends at a lone dollar sign. -/
structure Copying (s : State) (start : Nat) (pending cs : List Char) : Prop where
  place : ∃ before, s.text = before ++ pending ++ cs ∧ start = byteLength before ∧
    s.pos = byteLength (before ++ pending)
  lone : LoneDollar pending cs

/-- Where no fragment was begun. -/
theorem Copying.nil (hat : s.At cs) : Copying s s.pos [] cs := by
  obtain ⟨before, htext, hpos⟩ := hat
  refine ⟨⟨before, ?_, hpos, ?_⟩, .inl rfl⟩
  · rw [List.append_nil, htext]
  · rw [List.append_nil, hpos]

/-- What is left of a text that is copied stands at the cursor. -/
theorem Copying.at (h : Copying s start pending cs) : s.At cs := by
  obtain ⟨before, htext, -, hpos⟩ := h.place
  exact ⟨before ++ pending, htext, hpos⟩

/-- The cursor stands behind what is pending. -/
theorem Copying.pos (h : Copying s start pending cs) : s.pos = start + byteLength pending := by
  obtain ⟨before, -, hstart, hpos⟩ := h.place
  rw [hpos, hstart, byteLength_append]

/-- The part `ds` of the text ends a fragment. -/
theorem Copying.copies {stop : Nat} (h : Copying s start pending (ds ++ rest))
    (htext : withoutOpening (pending ++ ds) = pending ++ body)
      (hstop : stop = s.pos + byteLength ds)
    (kind : Token.Kind) :
    Copies s.source s.text start (pending ++ ds)
      (s.textToken kind (pending ++ body) start stop) := by
  obtain ⟨before, hsplit, hstart, -⟩ := h.place
  refine ⟨over_token ?_, ⟨before, rest, ?_, hstart⟩, ?_⟩
  · rw [hstop, h.pos, byteLength_append, Nat.add_assoc]
  · rw [hsplit]
    simp only [List.append_assoc]
  · rw [htext]
    rfl

/-- A fragment up to `${`. -/
theorem Copying.braces (h : Copying s start pending (body ++ '$' :: '{' :: rest))
    (kind : Token.Kind) :
    s.pos + byteLength body + 2 = start + byteLength (pending ++ body ++ ['$', '{']) ∧
    Copies s.source s.text start (pending ++ body ++ ['$', '{'])
      (s.textToken kind (pending ++ body) start (s.pos + byteLength body + 2)) := by
  have hread : Copying s start pending ((body ++ ['$', '{']) ++ rest) := by rwa [List.append_assoc]
  have hsize : byteLength (body ++ ['$', '{']) = byteLength body + 2 := byteLength_append _ _
  have hopening := withoutOpening_append (pending ++ body)
  rw [List.append_assoc] at hopening ⊢
  refine ⟨?_, hread.copies hopening ?_ kind⟩
  · rw [h.pos, byteLength_append, hsize]
    omega
  · rw [hsize, Nat.add_assoc]

/-- A dollar sign and a name behind a fragment. -/
theorem Copying.reference {name : List Char}
    (h : Copying s start pending (body ++ '$' :: (name ++ rest))) :
    Over s.source (start + byteLength (pending ++ body)) ('$' :: name)
      (s.textToken .variable name (s.pos + byteLength body)
        (s.pos + byteLength body + 1 + byteLength name)) ∧
    StandsAt s.text (start + byteLength (pending ++ body)) ('$' :: name) := by
  have hdollar : start + byteLength (pending ++ body) = s.pos + byteLength body := by
    rw [h.pos, byteLength_append, Nat.add_assoc]
  rw [hdollar]
  refine ⟨over_token (by rw [Nat.add_assoc]; rfl), ?_⟩
  obtain ⟨before, htext, hpos⟩ := h.at
  refine ⟨before ++ body, rest, ?_, by rw [byteLength_append, hpos]⟩
  rw [htext]
  simp only [List.append_assoc, List.cons_append]

/-- A dollar sign that begins nothing is a part of the fragment. -/
theorem Copying.extend (h : Copying s start pending (body ++ '$' :: rest))
    (hrest : rest.head? ≠ some '{') (already : List Diagnostic) :
    Copying { s with pos := s.pos + byteLength body + 1, diagnostics := already } start
      (pending ++ body ++ ['$']) rest := by
  obtain ⟨before, hsplit, hstart, hpos⟩ := h.place
  refine ⟨⟨before, ?_, hstart, ?_⟩, .inr ⟨_, rfl, hrest⟩⟩
  · show s.text = _
    rw [hsplit]
    simp only [List.append_assoc, List.singleton_append]
  · show s.pos + byteLength body + 1 = _
    rw [hpos, ← List.append_assoc, ← List.append_assoc, byteLength_append _ ['$'],
      byteLength_append _ body]
    rfl

/-- The code of an interpolation, in a text without here-docs. -/
theorem enclosed_of_runs {depth : Nat} (h : Runs (.code depth []) s ts s') (hbare : s.Bare)
    (hat : s.At cs) : Enclosed s.source s.text s.pos ts s'.pos ∧ s'.Bare := by
  obtain ⟨ds, rest, rfl, hpasses, hclosed⟩ := h.laid hbare cs hat s.pos [] rfl (.nil _ _)
  refine ⟨?_, hpasses.bare hbare⟩
  obtain ⟨before, htext, hpos⟩ := hat
  rw [hpasses.moves.pos]
  rcases hclosed with ⟨rfl, hcode⟩ | ⟨code, rfl, hcode⟩
  · rw [List.append_nil] at htext
    rw [hpos, ← byteLength_append, ← htext, ← hpos]
    exact .ended htext hpos hcode
  · refine .closed ?_ hpos hcode
    rw [htext]
    simp only [List.append_assoc, List.singleton_append]

/-- Text without quotes in which no escape has a meaning. -/
structure Quoting.IsRaw (q : Quoting) : Prop where
  mode : q.mode = .rawText
  escapes : q.escapes = .none

/-- A run of raw text moves the cursor. -/
theorem Quoting.IsRaw.takeRun (hq : q.IsRaw) (hat : s.At cs) (h : takeRun q s = .ok run s₁) :
    Raw s.pos cs run ∧ ∃ ds, s₁ = { s with pos := run.next, diagnostics := ds } := by
  obtain ⟨hrun, hs₁⟩ := takeRun_ok h
  rw [hq.mode, hq.escapes, hat.rest] at hrun
  exact ⟨Quote.raw_of_collect _ hrun, hs₁⟩

/-- The rest of a text from a state on, some of whose current fragment was read. -/
def VerbatimFrom (s : State) (start : Nat) (first : Bool) (pending : List Char) (ts : List Token) :
    Prop :=
  ∀ cs, s.Sound → Copying s start pending cs → (Undocumented s.text → s.Bare) →
    Verbatim s.source s.text first start ts

/-- The last fragment. -/
theorem verbatim_last (hq : q.IsRaw) (hrun : takeRun q s = .ok run s₁)
    (hstop : run.stop = .quote ∨ run.stop = .endOfText) : VerbatimFrom s start first pending
      [s₁.textToken (if first then .string else .stringEnd)
        (pending ++ run.text) start run.next] := by
  intro cs hsound hread hbare
  obtain ⟨hraw, already, rfl⟩ := hq.takeRun hread.at hrun
  cases hraw with
  | dollar => exact hstop.elim nofun nofun
  | dollarBrace => exact hstop.elim nofun nofun
  | endOfText hbody =>
      have hread' : Copying s start pending (cs ++ []) := by rwa [List.append_nil]
      refine .last rfl (hread'.copies (hread'.lone.withoutOpening_eq hbody) rfl _) ?_
      rw [byteLength_append, ← Nat.add_assoc, ← hread.pos]
      exact hread.at.size.symm

/-- A fragment up to `${`, and the code behind it. -/
theorem verbatim_braces {code : List Token} (hq : q.IsRaw)
    (hrun : takeRun q s = .ok run s₁) (hstop : run.stop = .dollarBrace)
    (hcode : Runs (.code s₁.braceDepth []) { s₁ with braceDepth := s₁.braceDepth + 1 } code s₂)
    (hrest : VerbatimFrom s₂ s₂.pos false [] ts) : VerbatimFrom s start first pending
      (s₁.textToken (fragmentKind first) (pending ++ run.text) start run.next :: code ++ ts) := by
  intro cs hsound hread hbare
  obtain ⟨_, _, hkeeps, -⟩ := takeRun_advances hsound hrun
  have hsound₁ : State.Sound { s₁ with braceDepth := s₁.braceDepth + 1 } :=
    hkeeps.sound.congr rfl rfl rfl
  obtain ⟨_, hat₁⟩ := State.at_of_boundary hsound₁.cursor
  obtain ⟨_, hpath, -⟩ := hcode.walks hsound₁ trivial
  have hlasts := hpath.lasts hsound₁
  obtain ⟨hraw, already, rfl⟩ := hq.takeRun hread.at hrun
  cases hraw with
  | dollar => exact nomatch hstop
  | endOfText => exact nomatch hstop
  | @dollarBrace body hbody rest =>
      obtain ⟨hpos, hcopies⟩ := hread.braces (fragmentKind first)
      have henclosed : Undocumented s.text →
          Enclosed s.source s.text (s.pos + byteLength body + 2) code s₂.pos ∧ s₂.Bare :=
        fun htext => enclosed_of_runs hcode ((hbare htext).congr rfl rfl rfl) hat₁
      obtain ⟨_, hat₂⟩ := State.at_of_boundary hlasts.sound.cursor
      have hverbatim := hrest _ hlasts.sound (.nil hat₂) fun htext =>
        (henclosed (hlasts.text ▸ htext)).2
      rw [hlasts.source, hlasts.text] at hverbatim
      rw [hpos] at henclosed
      exact .braces rfl hcopies (hcode.balanced balanced_nil)
        (fun htext => (henclosed htext).1) hverbatim

/-- A fragment before a variable. -/
theorem verbatim_reference {name : List Char} (hq : q.IsRaw)
    (hrun : takeRun q s = .ok run s₁) (hstop : run.stop = .dollar)
    (hname : Token.variableName? s₁.rest = some name)
    (hrest : VerbatimFrom { s₁ with pos := run.next + byteLength name } (run.next + byteLength name)
      false [] ts) :
    VerbatimFrom s start first pending
      (s₁.textToken (fragmentKind first) (pending ++ run.text) start (run.next - 1)
        :: s₁.textToken .variable name (run.next - 1) (run.next + byteLength name) :: ts) := by
  intro cs hsound hread hbare
  obtain ⟨_, _, hkeeps, -⟩ := takeRun_advances hsound hrun
  have hnamed := (name_advances hkeeps.sound hname).1.sound
  obtain ⟨hraw, already, rfl⟩ := hq.takeRun hread.at hrun
  cases hraw with
  | dollarBrace => exact nomatch hstop
  | endOfText => exact nomatch hstop
  | @dollar body rest hbody hhead =>
      have hat₁ := (hread.extend hhead already).at
      rw [hat₁.rest] at hname
      obtain ⟨⟨after, rfl⟩, -⟩ := Token.variableName?_isPrefix hname
      have hcopies := hread.copies (hread.lone.withoutOpening_eq hbody) rfl (fragmentKind first)
      obtain ⟨hover, hstands⟩ := hread.reference
      have hnext : s.pos + byteLength body + 1 + byteLength name
          = start + byteLength (pending ++ body ++ '$' :: name) := by
        rw [hread.pos, byteLength_append, byteLength_append]
        show _ = _ + (_ + (1 + byteLength name))
        omega
      have hverbatim := hrest _ hnamed (.nil ((State.moves_pos _ name).at hat₁)) fun htext =>
        (hbare htext).congr rfl rfl rfl
      rw [hnext] at hverbatim
      exact .reference rfl hcopies ⟨rfl, rfl⟩ hover hstands hverbatim

/-- A dollar sign that begins nothing. -/
theorem verbatim_dollar (hq : q.IsRaw) (hrun : takeRun q s = .ok run s₁)
    (hstop : run.stop = .dollar)
    (hrest : VerbatimFrom s₁ start first (pending ++ run.text ++ ['$']) ts) :
    VerbatimFrom s start first pending ts := by
  intro cs hsound hread hbare
  obtain ⟨_, _, hkeeps, -⟩ := takeRun_advances hsound hrun
  obtain ⟨hraw, already, rfl⟩ := hq.takeRun hread.at hrun
  cases hraw with
  | dollarBrace => exact nomatch hstop
  | endOfText => exact nomatch hstop
  | @dollar body rest hbody hhead =>
      exact hrest _ hkeeps.sound (hread.extend hhead already)
        fun htext => (hbare htext).congr rfl rfl rfl

/-- Each fragment of raw text says what it covers. -/
theorem Runs.verbatim (h : Runs (.fragments q start first pending) s ts s') (hq : q.IsRaw) :
    VerbatimFrom s start first pending ts := by
  generalize htask : Task.fragments q start first pending = task at h
  induction h generalizing start first pending with
  | last hrun hstop =>
      obtain ⟨rfl, rfl, rfl, rfl⟩ := Task.fragments.inj htask
      exact verbatim_last hq hrun hstop
  | braces hrun hstop hcode hrest ihcode ihrest =>
      obtain ⟨rfl, rfl, rfl, rfl⟩ := Task.fragments.inj htask
      exact verbatim_braces hq hrun hstop hcode (ihrest rfl)
  | reference hrun hstop hname hrest ih =>
      obtain ⟨rfl, rfl, rfl, rfl⟩ := Task.fragments.inj htask
      exact verbatim_reference hq hrun hstop hname (ih rfl)
  | dollar hrun hstop hname hrest ih =>
      obtain ⟨rfl, rfl, rfl, rfl⟩ := Task.fragments.inj htask
      exact verbatim_dollar hq hrun hstop (ih rfl)
  | _ => exact nomatch htask

end Manifest.Scan
