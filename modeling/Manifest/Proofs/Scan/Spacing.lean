import Manifest.Proofs.Scan.Layout

/-!
# What stands between tokens

A layout nests; read as a flat list, its tokens follow one another. Between two of them stand white
space and comments, and before a fragment that goes on with a string, the brace that closes the code
in it.

* `Gap` — what may stand before a token.
* `Spaced` — tokens that follow one another with gaps before them.
* `Laid.spaced` — the tokens of a layout do.
* `Laid.placed` — each of them says what it was read from.
-/

namespace Manifest.Scan

open Text (Source byteLength byteLength_append)

variable {source : Source} {o : Nat} {ds es rest : List Char} {t : Token} {ts us : List Token}
  {p : Part}

/-! ## Gaps -/

/-- White space, line feeds and comments, one after another. -/
inductive Trivia : List Char → List Char → Prop
  | nil (rest : List Char) : Trivia [] rest
  | cons {ds es rest : List Char} (h : Piece ds (es ++ rest)) (hrest : Trivia es rest) :
      Trivia (ds ++ es) rest

/-- Blanks and comments in a row. -/
theorem Trivia.append (h : Trivia ds (es ++ rest)) (h' : Trivia es rest) :
    Trivia (ds ++ es) rest := by
  generalize hall : es ++ rest = all at h
  induction h with
  | nil => exact h'
  | cons hpiece htrivia ih =>
      subst hall
      rw [List.append_assoc]
      refine .cons ?_ (ih rfl)
      rwa [List.append_assoc]

/-- The fragment goes on with a string, behind a brace or the name of a variable. -/
def continuesString : Token.Kind → Bool
  | .stringMiddle | .stringEnd => true
  | _ => false

/-- What may stand before a token. -/
inductive Gap (t : Token) : List Char → List Char → Prop
  | trivia {ds rest : List Char} (h : Trivia ds rest) : Gap t ds rest
  /-- the brace that closes an interpolation -/
  | closed {ds rest : List Char} (h : Trivia ds ('}' :: rest)) (hkind : continuesString t.kind) :
      Gap t (ds ++ ['}']) rest

/-- A gap grows by what stands in front of it. -/
theorem Gap.prepend (h : Trivia ds (es ++ rest)) (hgap : Gap t es rest) :
    Gap t (ds ++ es) rest := by
  cases hgap with
  | trivia h' => exact .trivia (h.append h')
  | @closed es _ h' hkind =>
      rw [List.append_assoc] at h
      rw [← List.append_assoc]
      exact .closed (h.append h') hkind

/-! ## Tokens with gaps -/

/-- The part `ds` of a text, which stands at the offset before the rest, is made up of tokens with
gaps before them, and white space and comments behind the last one. -/
inductive Spaced : Nat → List Char → List Char → List Token → Prop
  | last {o : Nat} {ds rest : List Char} (h : Trivia ds rest) : Spaced o ds rest []
  | next {o : Nat} {gap ds es rest : List Char} {t : Token} {ts : List Token}
      (hgap : Gap t gap (ds ++ es ++ rest))
      (hrange : t.range = ⟨o + byteLength gap, o + byteLength (gap ++ ds)⟩)
      (h : Spaced (o + byteLength (gap ++ ds)) es rest ts) :
      Spaced o (gap ++ ds ++ es) rest (t :: ts)

/-- Tokens keep their places behind blanks and comments. -/
theorem Spaced.prepend (h : Trivia ds (es ++ rest))
    (hspaced : Spaced (o + byteLength ds) es rest ts) :
    Spaced o (ds ++ es) rest ts := by
  cases hspaced with
  | last h' => exact .last (h.append h')
  | @next _ gap ds' es' _ t ts hgap hrange hrest =>
      rw [List.append_assoc, List.append_assoc, ← List.append_assoc ds',
        ← List.append_assoc gap] at h
      rw [← List.append_assoc, ← List.append_assoc]
      refine .next (hgap.prepend ?_) ?_ ?_
      · simpa only [List.append_assoc] using h
      · rw [hrange, List.append_assoc, byteLength_append ds, byteLength_append ds, ← Nat.add_assoc,
          ← Nat.add_assoc]
      · rwa [List.append_assoc, byteLength_append ds, ← Nat.add_assoc]

/-- Spaced tokens in a row. -/
theorem Spaced.append (h : Spaced o ds (es ++ rest) ts)
    (h' : Spaced (o + byteLength ds) es rest us) : Spaced o (ds ++ es) rest (ts ++ us) := by
  generalize hall : es ++ rest = all at h
  induction h with
  | last h =>
      subst hall
      exact h'.prepend h
  | @next o gap ds fs _ t ts hgap hrange _ ih =>
      subst hall
      rw [byteLength_append, ← Nat.add_assoc] at h'
      rw [List.append_assoc]
      refine .next ?_ hrange (ih h' rfl)
      simpa only [List.append_assoc] using hgap

/-- A token that nothing stands before. -/
theorem Spaced.cons (hrange : t.range = ⟨o, o + byteLength ds⟩)
    (h : Spaced (o + byteLength ds) es rest ts) : Spaced o (ds ++ es) rest (t :: ts) :=
  .next (.trivia (.nil _)) hrange h

/-- A token of no length at the end of the text. -/
theorem Spaced.concat (h : Spaced o ds [] ts) (hrange : t.range = .point (o + byteLength ds)) :
    Spaced o ds [] (ts ++ [t]) := by
  have hend : Spaced (o + byteLength ds) [] [] [t] := by
    show Spaced _ ([] ++ [] ++ []) [] [t]
    exact .next (.trivia (.nil _)) hrange (.last (.nil []))
  have hall : Spaced o (ds ++ []) [] (ts ++ [t]) := Spaced.append h hend
  rwa [List.append_nil] at hall

/-- The ranges of tokens that follow one another do not overlap. -/
theorem Spaced.ordered (h : Spaced o ds rest ts) :
    (∀ t ∈ ts, o ≤ t.range.start ∧ t.range.start ≤ t.range.stop ∧
      t.range.stop ≤ o + byteLength ds) ∧
      ts.Pairwise fun t u => t.range.stop ≤ u.range.start := by
  induction h with
  | last =>
      constructor
      · intro u hu
        exact nomatch hu
      · exact .nil
  | @next o gap ds es rest t ts hgap hrange hrest ih =>
      obtain ⟨hinside, hpairwise⟩ := ih
      rw [byteLength_append gap] at hrange hinside
      rw [byteLength_append (gap ++ ds), byteLength_append gap]
      constructor
      · intro u hu
        rcases List.mem_cons.1 hu with rfl | hu
        · rw [hrange]
          dsimp only
          omega
        · have hu := hinside u hu
          omega
      · refine .cons ?_ hpairwise
        intro u hu
        rw [hrange]
        exact (hinside u hu).1

/-- Where a list of tokens ends that begins at the offset. -/
def stopOf (o : Nat) (ts : List Token) : Nat := (ts.getLast?.map (·.range.stop)).getD o

theorem stopOf_cons (o : Nat) (t : Token) (ts : List Token) :
    stopOf o (t :: ts) = stopOf t.range.stop ts := by
  cases ts with
  | nil => rfl
  | cons u us => rfl

/-- Between a token and the one before it stands a gap. -/
theorem Spaced.gap (h : Spaced o ds rest ts) {front : List Char} (hfront : o = byteLength front)
    {before after : List Token} (hts : ts = before ++ t :: after) :
    Gap t (Text.slice (front ++ ds ++ rest) (stopOf o before) t.range.start)
      (Text.dropBytes (front ++ ds ++ rest) t.range.start) := by
  induction h generalizing front before with
  | last => exact absurd hts.symm (List.append_ne_nil_of_right_ne_nil _ (List.cons_ne_nil _ _))
  | @next o gap ds es rest u us hgap hrange hrest ih =>
      subst hfront
      cases before with
      | nil =>
          obtain ⟨rfl, rfl⟩ := List.cons.inj hts
          have hslice : Text.slice (front ++ (gap ++ ds ++ es) ++ rest)
              (byteLength front) (byteLength front + byteLength gap) = gap := by
            rw [List.append_assoc gap, ← List.append_assoc front, List.append_assoc (front ++ gap)]
            exact Text.slice_byteLength _ _ _
          have hdrop : Text.dropBytes (front ++ (gap ++ ds ++ es) ++ rest)
              (byteLength front + byteLength gap) = ds ++ es ++ rest := by
            rw [← byteLength_append, List.append_assoc gap, ← List.append_assoc front,
              List.append_assoc (front ++ gap)]
            exact Text.dropBytes_byteLength _ _
          rw [hrange]
          show Gap u (Text.slice _ (byteLength front) (byteLength front + byteLength gap)) _
          rw [hslice, hdrop]
          exact hgap
      | cons v before =>
          obtain ⟨rfl, rfl⟩ := List.cons.inj hts
          have hgap := ih (byteLength_append front (gap ++ ds)).symm rfl
          rw [stopOf_cons, hrange]
          simpa only [List.append_assoc] using hgap

/-! ## Layouts as lists -/

/-- How the tokens of a part follow one another. Nothing stands before a fragment of a string but
the brace of the code before it. -/
def Part.Spaced (o : Nat) (ds rest : List Char) (ts : List Token) : Part → Prop
  | .element | .code => Scan.Spaced o ds rest ts
  | .string first => ∃ t us d es, ts = t :: us ∧ ds = d ++ es ∧
      t.range = ⟨o, o + byteLength d⟩ ∧ (first = false → continuesString t.kind) ∧
      Scan.Spaced (o + byteLength d) es rest us

/-- A fragment that is not the first continues a string. -/
theorem continuesString_of_fragmentKind {first : Bool} (hkind : t.kind = fragmentKind first)
    (h : first = false) : continuesString t.kind := by
  rw [hkind, h]
  rfl

/-- Code in braces, the brace that closes it, and the rest of the string. -/
theorem spaced_braces {code : List Char} (h : Spaced o code ('}' :: (es ++ rest)) us)
    (hrest : (Part.string false).Spaced (o + byteLength (code ++ ['}'])) es rest ts) :
    Spaced o (code ++ ('}' :: es)) rest (us ++ ts) := by
  obtain ⟨t, vs, d, fs, rfl, rfl, hrange, hkind, hspaced⟩ := hrest
  have hbrace : o + byteLength (code ++ ['}']) = o + byteLength code + 1 := by
    rw [byteLength_append, ← Nat.add_assoc]
    rfl
  have hd : byteLength ('}' :: d) = 1 + byteLength d := rfl
  rw [hbrace] at hrange hspaced
  -- the brace is the gap before the fragment
  refine Spaced.append h ?_
  change Spaced _ (['}'] ++ d ++ fs) rest _
  refine .next ?_ ?_ ?_
  · exact .closed (.nil _) (hkind rfl)
  · rw [hrange]
    show _ = (⟨o + byteLength code + 1, o + byteLength code + byteLength ('}' :: d)⟩ : Text.Range)
    rw [hd, Nat.add_assoc _ 1]
  · show Spaced (o + byteLength code + byteLength ('}' :: d)) fs rest vs
    rwa [hd, ← Nat.add_assoc]

/-- The tokens of a layout follow one another. -/
theorem Laid.spaced (h : Laid source p o ds rest ts) : p.Spaced o ds rest ts := by
  induction h with
  | @piece o ds rest h =>
      show Scan.Spaced o ds rest []
      rw [← List.append_nil ds]
      exact .last (.cons h (.nil rest))
  | @token o ds rest t hover hfaithful =>
      show Scan.Spaced o ds rest [t]
      rw [← List.append_nil ds]
      exact .cons hover.range (.last (.nil rest))
  | quoted h ih =>
      obtain ⟨t, us, d, es, rfl, rfl, hrange, -, hspaced⟩ := ih
      exact .cons hrange hspaced
  | nil o rest => exact .last (.nil rest)
  | snoc hfront h ihfront ih => exact Scan.Spaced.append ihfront ih
  | @last o ds rest first t hkind hover =>
      refine ⟨t, [], ds ++ ['"'], [], rfl, (List.append_nil _).symm, hover.range, ?_,
        .last (.nil rest)⟩
      rintro rfl
      rw [hkind]
      rfl
  | @braces o ds code es rest first t us vs hkind hover hcode h ihcode ih =>
      refine ⟨t, us ++ vs, ds ++ ['$', '{'], code ++ ('}' :: es), rfl, ?_, hover.range,
        continuesString_of_fragmentKind hkind, spaced_braces ihcode ?_⟩
      · simp only [List.append_assoc, List.cons_append, List.nil_append]
      · rw [List.append_assoc, byteLength_append (ds ++ ['$', '{']), ← Nat.add_assoc] at ih
        exact ih
  | @reference o ds name es rest first t v vs hkind hover hv hname h ih =>
      obtain ⟨u, us, d, fs, rfl, rfl, hrange, -, hspaced⟩ := ih
      refine ⟨t, v :: u :: us, ds, '$' :: name ++ (d ++ fs), rfl, ?_, hover.range,
        continuesString_of_fragmentKind hkind, ?_⟩
      · simp only [List.append_assoc, List.cons_append]
      · rw [byteLength_append, ← Nat.add_assoc] at hrange hspaced
        exact .cons hname.range (.cons hrange hspaced)

/-- A token of a text is read from a part of it. -/
def Placed (source : Source) (o : Nat) (ds rest : List Char) (t : Token) : Prop :=
  ∃ front d after, ds = front ++ d ++ after ∧ Over source (o + byteLength front) d t ∧
    Faithful d (d ++ (after ++ rest)) t

/-- A token in the first of two texts. -/
theorem Placed.left (h : Placed source o ds (es ++ rest) t) :
    Placed source o (ds ++ es) rest t := by
  obtain ⟨front, d, after, rfl, hover, hfaithful⟩ := h
  refine ⟨front, d, after ++ es, ?_, hover, ?_⟩
  · rw [List.append_assoc (front ++ d)]
  · rwa [List.append_assoc]

/-- A token in the second one. -/
theorem Placed.right (h : Placed source (o + byteLength ds) es rest t) :
    Placed source o (ds ++ es) rest t := by
  obtain ⟨front, d, after, rfl, hover, hfaithful⟩ := h
  refine ⟨ds ++ front, d, after, ?_, ?_, hfaithful⟩
  · simp only [List.append_assoc]
  · rwa [byteLength_append, ← Nat.add_assoc]

/-- A token over a whole text. -/
theorem placed_of_over (hover : Over source o ds t) (hfaithful : Faithful ds (ds ++ rest) t) :
    Placed source o ds rest t :=
  ⟨[], ds, [], (List.append_nil ds).symm, hover, hfaithful⟩

/-- The tokens of a string have texts of their own. -/
theorem faithful_of_kind {cs : List Char} (h : spelled t.kind = false)
    (hinner : t.kind ≠ .endOfText) :
    Faithful ds cs t := by
  refine ⟨hinner, ?_, ?_⟩
  · intro hk
    exact absurd (h.symm.trans hk) Bool.false_ne_true
  · intro m hm
    rw [hm] at h
    exact nomatch h

/-- What a fragment says is not compared with its spelling. -/
theorem faithful_fragment {cs : List Char} {first : Bool} (h : t.kind = fragmentKind first) :
    Faithful ds cs t := by
  refine faithful_of_kind ?_ (h ▸ fragmentKind_inner first)
  rw [h]
  cases first <;> rfl

/-- Each token of a layout is read from a part of the text. -/
theorem Laid.placed (h : Laid source p o ds rest ts) : ∀ t ∈ ts, Placed source o ds rest t := by
  induction h with
  | piece => exact fun _ ht => nomatch ht
  | token hover hfaithful =>
      intro u hu
      rw [List.mem_singleton.1 hu]
      exact placed_of_over hover hfaithful
  | quoted h ih => exact ih
  | nil => exact fun _ ht => nomatch ht
  | snoc hfront h ihfront ih =>
      intro u hu
      rcases List.mem_append.1 hu with hu | hu
      · exact (ihfront u hu).left
      · exact (ih u hu).right
  | @last o ds rest first t hkind hover =>
      intro u hu
      rw [List.mem_singleton.1 hu]
      refine placed_of_over hover (faithful_of_kind ?_ ?_)
      · rw [hkind]
        cases first <;> rfl
      · rw [hkind]
        cases first <;> exact nofun
  | @braces o ds code es rest first t us vs hkind hover hcode h ihcode ih =>
      intro u hu
      rcases List.mem_cons.1 hu with rfl | hu
      · simp only [List.append_assoc]
        rw [← List.append_assoc]
        exact (placed_of_over hover (faithful_fragment hkind)).left
      · rcases List.mem_append.1 hu with hu | hu
        · rw [List.append_assoc, List.append_assoc (ds ++ ['$', '{'])]
          exact Placed.right (Placed.left (ihcode u hu))
        · exact (ih u hu).right
  | @reference o ds name es rest first t v vs hkind hover hv hname h ih =>
      intro u hu
      rcases List.mem_cons.1 hu with rfl | hu
      · rw [List.append_assoc]
        exact (placed_of_over hover (faithful_fragment hkind)).left
      · rcases List.mem_cons.1 hu with rfl | hu
        · rw [List.append_assoc]
          refine Placed.right (Placed.left (placed_of_over hname (faithful_of_kind ?_ ?_)))
          · rw [hv]
            rfl
          · rw [hv]
            exact nofun
        · exact (ih u hu).right

end Manifest.Scan
