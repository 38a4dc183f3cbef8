import Manifest.Proofs.Scan.Progress

/-!
# The layout of code

Code is a sequence of elements: white space and comments, tokens, and strings. A string is one
token, or fragments with variables or code between them, and the code stands in braces. No
character of the text is left out, and none is used twice.

* `Laid` — a part of a text is laid out as tokens.
* `Runs.laid` — what a scan of code reads is laid out as the tokens that it gives, when there are
  no here-docs in the text.
-/

namespace Manifest.Scan

open Text (Source byteLength byteLength_append)

/-! ## Layouts -/

/-- The parts of code. -/
inductive Part
  | element
  | code
  /-- a string from a fragment on; the first fragment begins with the quote -/
  | string (first : Bool)

/-- The range of the token is that of `ds` at the offset. -/
structure Over (source : Source) (offset : Nat) (ds : List Char) (t : Token) : Prop where
  range : t.range = ⟨offset, offset + byteLength ds⟩
  source : t.source = source

/-- Inside the text nothing is cut off. -/
theorem extract_eq_slice {source : Source} {offset length : Nat}
    (h : offset + length ≤ byteLength source.text) :
    source.extract offset length = Text.slice source.text offset (offset + length) := by
  show Text.slice source.text (min offset (byteLength source.text))
    (min (min offset (byteLength source.text) + length) (byteLength source.text)) = _
  rw [Nat.min_eq_left (Nat.le_of_add_right_le h), Nat.min_eq_left h]

/-- The text that a token covers. -/
theorem Over.sourceText {source : Source} {front d after : List Char} {t : Token}
    (h : Over source (byteLength front) d t) (htext : source.text = front ++ d ++ after) :
    t.sourceText = String.ofList d := by
  have hle : byteLength front + byteLength d ≤ byteLength source.text := by
    rw [htext, byteLength_append, byteLength_append]
    exact Nat.le_add_right _ _
  rw [Token.sourceText, h.range, h.source]
  show String.ofList (Source.extract _ (byteLength front)
    (byteLength front + byteLength d - byteLength front)) = _
  rw [Nat.add_sub_cancel_left, extract_eq_slice hle, htext, Text.slice_byteLength]

/-- The part `ds` of a text, which stands at the offset before the rest, is laid out as tokens. -/
inductive Laid (source : Source) : Part → Nat → List Char → List Char → List Token → Prop
  | piece {o : Nat} {ds rest : List Char} (h : Piece ds rest) : Laid source .element o ds rest []
  | token {o : Nat} {ds rest : List Char} {t : Token} (hover : Over source o ds t)
      (hfaithful : Faithful ds (ds ++ rest) t) : Laid source .element o ds rest [t]
  | quoted {o : Nat} {ds rest : List Char} {ts : List Token}
      (h : Laid source (.string true) o ds rest ts) : Laid source .element o ds rest ts
  | nil (o : Nat) (rest : List Char) : Laid source .code o [] rest []
  | snoc {o : Nat} {ds es rest : List Char} {ts us : List Token}
      (hfront : Laid source .code o ds (es ++ rest) ts)
      (h : Laid source .element (o + byteLength ds) es rest us) :
      Laid source .code o (ds ++ es) rest (ts ++ us)
  /-- the last fragment ends with the quote -/
  | last {o : Nat} {ds rest : List Char} {first : Bool} {t : Token}
      (hkind : t.kind = if first then .string else .stringEnd)
      (hover : Over source o (ds ++ ['"']) t) :
      Laid source (.string first) o (ds ++ ['"']) rest [t]
  /-- a fragment ends with `${`, and the brace after the code closes that -/
  | braces {o : Nat} {ds code es rest : List Char} {first : Bool} {t : Token} {us vs : List Token}
      (hkind : t.kind = fragmentKind first) (hover : Over source o (ds ++ ['$', '{']) t)
      (hcode : Laid source .code (o + byteLength (ds ++ ['$', '{'])) code ('}' :: es ++ rest) us)
      (h : Laid source (.string false) (o + byteLength (ds ++ ['$', '{'] ++ code ++ ['}'])) es rest
        vs) :
      Laid source (.string first) o (ds ++ ['$', '{'] ++ code ++ ['}'] ++ es) rest (t :: us ++ vs)
  /-- a fragment before a dollar sign and the name of a variable -/
  | reference {o : Nat} {ds name es rest : List Char} {first : Bool} {t v : Token} {vs : List Token}
      (hkind : t.kind = fragmentKind first) (hover : Over source o ds t) (hv : v.kind = .variable)
      (hname : Over source (o + byteLength ds) ('$' :: name) v)
      (h : Laid source (.string false) (o + byteLength (ds ++ '$' :: name)) es rest vs) :
      Laid source (.string first) o (ds ++ '$' :: name ++ es) rest (t :: v :: vs)

variable {source : Source} {o : Nat} {s s' s₁ : State} {cs ds es rest : List Char} {t : Token}
  {ts us : List Token} {p : Part} {first : Bool} {task : Task} {q : Quoting} {run : Quote.Run}

/-- A string takes two quotes at least. -/
theorem Laid.string_ne_nil (h : Laid source (.string first) o ds rest ts) : ds ≠ [] := by
  cases h with
  | last => exact List.concat_ne_nil _ _
  | braces =>
      rw [List.append_assoc]
      exact List.append_ne_nil_of_right_ne_nil _ (List.cons_ne_nil _ _)
  | reference =>
      rw [List.append_assoc]
      exact List.append_ne_nil_of_right_ne_nil _ (List.cons_ne_nil _ _)

/-- A brace alone is read from a brace. -/
theorem Laid.eq_closeBrace (h : Laid source .element o ds rest [t])
    (ht : t.kind = .mark .closeBrace) : ds = ['}'] := by
  cases h with
  | token hover hfaithful => exact (hfaithful.longest .closeBrace ht).1.symm
  | quoted h =>
      generalize hts : [t] = ts at h
      cases h with
      | last hkind hover =>
          obtain rfl := (List.cons.inj hts).1
          rw [ht] at hkind
          exact nomatch hkind
      | braces hkind hover hcode h =>
          obtain rfl := (List.cons.inj hts).1
          rw [ht] at hkind
          exact nomatch hkind
      | reference hkind hover hv hname h => exact nomatch (List.cons.inj hts).2

/-! ## Variables -/

/-- The token of a variable says nothing about its spelling. -/
theorem Faithful.toVariable (h : Faithful ds cs t) : Faithful ds cs (toVariable t) := by
  unfold Scan.toVariable
  split
  · exact ⟨nofun, nofun, fun m hm => nomatch hm⟩
  · exact h

/-- A name lies where it lies, also as a variable. -/
theorem Over.toVariable (h : Over source o ds t) : Over source o ds (toVariable t) := by
  unfold Scan.toVariable
  split
  · exact ⟨h.range, h.source⟩
  · exact h

/-- What is no name stays as it is. -/
theorem toVariable_of_kind (h : namesVariable t.kind = false) : toVariable t = t := by
  rw [toVariable, h, if_neg Bool.false_ne_true]

/-- A string does not begin with a token that can stand for a variable. -/
theorem Laid.toVariable_string (h : Laid source (.string true) o ds rest (t :: ts)) :
    toVariable t = t := by
  refine toVariable_of_kind ?_
  generalize hts : t :: ts = us at h
  cases h with
  | last hkind => rw [(List.cons.inj hts).1, hkind]; rfl
  | braces hkind => rw [(List.cons.inj hts).1, hkind]; rfl
  | reference hkind => rw [(List.cons.inj hts).1, hkind]; rfl

/-- The first token of code may become a variable. -/
theorem Laid.toVariable (h : Laid source p o ds rest us) (hp : ∀ first, p ≠ .string first)
    (hus : us = t :: ts) : Laid source p o ds rest (toVariable t :: ts) := by
  induction h generalizing ts with
  | piece => exact nomatch hus
  | token hover hfaithful =>
      obtain ⟨rfl, rfl⟩ := List.cons.inj hus
      exact .token hover.toVariable hfaithful.toVariable
  | quoted h =>
      subst hus
      rw [h.toVariable_string]
      exact .quoted h
  | nil => exact nomatch hus
  | @snoc o ds es rest front us hfront h ihfront ih =>
      cases front with
      | nil => exact .snoc hfront (ih nofun hus)
      | cons u front =>
          obtain ⟨rfl, rfl⟩ := List.cons.inj hus
          exact .snoc (ihfront nofun rfl) h
  | last => exact absurd rfl (hp _)
  | braces => exact absurd rfl (hp _)
  | reference => exact absurd rfl (hp _)

theorem Laid.asVariable (h : Laid source .code o ds rest ts) :
    Laid source .code o ds rest (asVariable ts) := by
  rcases asVariable_cases ts with heq | ⟨t, us, rfl, heq⟩
  · rwa [heq]
  · rw [heq]
    exact h.toVariable nofun rfl

/-! ## Code without here-docs -/

/-- A manifest without here-docs. -/
structure State.Bare (s : State) : Prop where
  template : s.template = none
  resume : s.resume = none
  text : ¬ ['@', '('] <:+: s.text

/-- A state that differs in the cursor, and in what is kept beside the mode and the text. -/
theorem State.Bare.congr (h : s.Bare) (htext : s'.text = s.text) (hresume : s'.resume = s.resume)
    (htemplate : s'.template = s.template) : s'.Bare :=
  ⟨htemplate.trans h.template, hresume.trans h.resume, htext ▸ h.text⟩

/-- The cursor moves over a part of the text, and stays in code. -/
structure State.Passes (s : State) (ds : List Char) (s' : State) : Prop where
  moves : s.Moves ds s'
  template : s'.template = s.template

/-- What is passed keeps braces and templates as they are. -/
theorem State.Passes.bare (h : s.Passes ds s') (hbare : s.Bare) : s'.Bare :=
  hbare.congr h.moves.text h.moves.resume h.template

/-- Texts are passed one after the other. -/
theorem State.Passes.trans (h : s.Passes ds s₁) (h' : s₁.Passes es s') :
    s.Passes (ds ++ es) s' :=
  ⟨h.moves.trans h'.moves, h'.template.trans h.template⟩

theorem State.passes_nil (s : State) : s.Passes [] s := ⟨s.moves_nil, rfl⟩

/-- A token over the text from which it was taken. -/
theorem over_token {kind : Token.Kind} {value : Token.Value} {start stop : Nat}
    (h : stop = start + byteLength ds) :
      Over s.source start ds (s.token kind value start stop) := by
  subst h
  exact ⟨s.token_range (Nat.le_add_right _ _), rfl⟩

/-- A rule that succeeds in code takes an element of it. -/
theorem Took.laid (h : Took s cs ts s') (hbare : s.Bare) :
    ∃ ds rest, cs = ds ++ rest ∧ s.Passes ds s' ∧ Laid s.source .element s.pos ds rest ts := by
  cases h with
  | skipped hpiece hmove hmode => exact ⟨_, _, rfl, ⟨hmove, hmode⟩, .piece hpiece⟩
  | newline rest =>
      refine ⟨['\n'], rest, rfl, ⟨⟨rfl, rfl, rfl, hbare.resume.symm, ?_⟩, rfl⟩,
        .piece (.newline rest)⟩
      rw [hbare.resume]
      rfl
  | token hne hmove hmode htoken =>
      exact ⟨_, _, rfl, ⟨hmove, hmode⟩, .token (over_token hmove.pos) htoken⟩
  | template hmode =>
      rw [hbare.template] at hmode
      exact nomatch hmode

/-- A run of text in double quotes ends with a quote or a dollar sign. -/
theorem takeRun_passes (hat : s.At cs) (h : takeRun q s = .ok run s') :
    ∃ front rest, cs = front ++ rest ∧ s.Passes front s' ∧ s'.pos = run.next ∧
      Quote.StopsAt q.mode run.stop front rest := by
  obtain ⟨front, rest, hcs, hmove, hpos, hstop⟩ := takeRun_spec hat h
  obtain ⟨-, ds, rfl⟩ := takeRun_ok h
  exact ⟨front, rest, hcs, ⟨hmove, rfl⟩, hpos, hstop⟩

/-- How what a task reads of the text is laid out. -/
def Task.Lays (s : State) (cs : List Char) (ts : List Token) (s' : State) : Task → Prop
  | .step => cs ≠ [] →
      ∃ ds rest, cs = ds ++ rest ∧ s.Passes ds s' ∧ Laid s.source .element s.pos ds rest ts
  | .fragments q start first _ => q.mode = .double → ∀ front, s.pos = start + byteLength front →
      ∃ ds rest, cs = ds ++ rest ∧ s.Passes ds s' ∧
        Laid s.source (.string first) start (front ++ ds) rest ts
  | .code _ tokens => ∀ start front, s.pos = start + byteLength front →
      Laid s.source .code start front cs tokens →
      ∃ ds rest, cs = ds ++ rest ∧ s.Passes ds s' ∧
        (rest = [] ∧ Laid s.source .code start (front ++ ds) [] ts ∨
          ∃ code, ds = code ++ ['}'] ∧ Laid s.source .code start (front ++ code) ('}' :: rest) ts)
  | .hereDoc => True

/-- What closes code is one closing brace. -/
theorem exists_of_closes {depth : Nat} (h : closes depth ts s) :
    ∃ t, ts = [t] ∧ t.kind = .mark .closeBrace := by
  unfold closes at h
  split at h
  next t => exact ⟨t, rfl, of_decide_eq_true (Bool.and_eq_true_iff.1 h).1⟩
  next => exact nomatch h

/-- Where a rule applies, the text at the cursor begins as it says. -/
theorem State.At.opening (hat : s.At cs) {o : Opening}
    (h : opening? s.template.isSome s.rest = some o) : opening? s.template.isSome cs = some o := by
  rwa [hat.rest] at h

/-- Nothing begins a here-doc. -/
theorem State.Bare.opening_ne (hbare : s.Bare) (hat : s.At cs) {inTemplate : Bool} :
    opening? inTemplate cs ≠ some .hereDoc := by
  intro h
  obtain ⟨rest, rfl⟩ := opening?_begins h
  obtain ⟨front, htext, -⟩ := hat
  refine hbare.text ⟨front, rest, ?_⟩
  rw [htext, List.append_assoc]

/-- What a task reads is laid out, wherever it is carried out in a manifest without here-docs. -/
def Task.LaysOut (task : Task) (s : State) (ts : List Token) (s' : State) : Prop :=
  s.Bare → ∀ cs, s.At cs → task.Lays s cs ts s'

/-! ## Strings -/

/-- The last fragment of a string. -/
theorem laysOut_last {start : Nat} {pending : List Char} (hrun : takeRun q s = .ok run s')
    (hstop : run.stop = .quote ∨ run.stop = .endOfText) :
    (Task.fragments q start first pending).LaysOut s
      [s'.textToken (if first then .string else .stringEnd) (pending ++ run.text) start run.next]
      s' := by
  intro hbare cs hat hmode front hfront
  obtain ⟨ds, rest, rfl, hpasses, hpos, hstops⟩ := takeRun_passes hat hrun
  rw [hmode] at hstops
  generalize run.stop = stop at hstop hstops
  cases hstops with
  | dollar => exact absurd hstop (by decide)
  | dollarBrace => exact absurd hstop (by decide)
  | endOfText body hquote => exact nomatch hquote
  | quote body rest hquote =>
      obtain rfl := Option.some.inj hquote
      refine ⟨body ++ ['"'], rest, rfl, hpasses, ?_⟩
      rw [← List.append_assoc, ← hpasses.moves.source]
      refine .last rfl (over_token ?_)
      rw [← hpos, hpasses.moves.pos, hfront, List.append_assoc, byteLength_append front,
        Nat.add_assoc]

/-- A fragment up to `${`, the code and the brace behind it, and the fragments that are left. -/
theorem Laid.braces_of_pos {codePos restPos : Nat} {front body code : List Char} {vs : List Token}
    (hkind : t.kind = fragmentKind first)
    (hcodePos : codePos = o + byteLength (front ++ (body ++ ['$', '{'])))
    (hrestPos : restPos = codePos + byteLength (code ++ ['}']))
    (hover : Over source o (front ++ (body ++ ['$', '{'])) t)
    (hcode : Laid source .code codePos code ('}' :: (es ++ rest)) us)
    (h : Laid source (.string false) restPos es rest vs) :
    Laid source (.string first) o (front ++ (body ++ ['$', '{'] ++ (code ++ ['}'] ++ es))) rest
      (t :: us ++ vs) := by
  subst hcodePos
  rw [Nat.add_assoc, ← byteLength_append] at hrestPos
  subst hrestPos
  simp only [← List.append_assoc] at hover hcode h ⊢
  exact .braces hkind hover hcode h

/-- A fragment up to `${`. -/
theorem laysOut_braces {s₂ s₃ : State} {start : Nat} {pending : List Char} {code rest : List Token}
    (hrun : takeRun q s = .ok run s₁) (hstop : run.stop = .dollarBrace)
    (hcode : (Task.code s₁.braceDepth []).LaysOut { s₁ with braceDepth := s₁.braceDepth + 1 }
      code s₂)
    (hrest : (Task.fragments q s₂.pos false []).LaysOut s₂ rest s₃) :
    (Task.fragments q start first pending).LaysOut s
      (s₁.textToken (fragmentKind first) (pending ++ run.text) start run.next :: code ++ rest)
      s₃ := by
  intro hbare cs hat hmode front hfront
  obtain ⟨ds, after, rfl, hpasses, hpos, hstops⟩ := takeRun_passes hat hrun
  rw [hstop] at hstops
  cases hstops with
  | dollarBrace body _ hdollar =>
      have hdeeper : s₁.Passes [] { s₁ with braceDepth := s₁.braceDepth + 1 } :=
        ⟨⟨rfl, rfl, rfl, rfl, rfl⟩, rfl⟩
      have hat₁ := hdeeper.moves.at (hpasses.moves.at hat)
      have hbare₁ := hdeeper.bare (hpasses.bare hbare)
      obtain ⟨ds, after, rfl, hpasses₂, hclosed⟩ := hcode hbare₁ _ hat₁ s₁.pos [] rfl (.nil _ _)
      have hat₂ := hpasses₂.moves.at hat₁
      obtain ⟨es, rest₃, rfl, hpasses₃, hlaid⟩ := hrest (hpasses₂.bare hbare₁) _ hat₂ hmode [] rfl
      -- code that ends with the text would leave nothing for the fragments behind it
      rcases hclosed with ⟨hnil, -⟩ | ⟨code', rfl, hcode'⟩
      · exact absurd (List.append_eq_nil_iff.1 hnil).1 hlaid.string_ne_nil
      · have hsource₁ : s₁.source = s.source := hpasses.moves.source
        have hcodePos : s₁.pos = start + byteLength (front ++ (body ++ ['$', '{'])) := by
          rw [hpasses.moves.pos, hfront, byteLength_append front, Nat.add_assoc]
        have hover : Over s.source start (front ++ (body ++ ['$', '{'])) (s₁.textToken
            (fragmentKind first) (pending ++ run.text) start run.next) := by
          rw [← hsource₁]
          exact over_token (hpos.symm.trans hcodePos)
        change Laid s₁.source .code s₁.pos code' _ _ at hcode'
        rw [hsource₁] at hcode'
        rw [show s₂.source = s.source from hpasses₂.moves.source.trans hsource₁] at hlaid
        refine ⟨body ++ ['$', '{'] ++ (code' ++ ['}'] ++ es), rest₃, ?_,
          hpasses.trans (hdeeper.trans (hpasses₂.trans hpasses₃)), ?_⟩
        · rw [List.append_assoc (body ++ ['$', '{']), List.append_assoc (code' ++ ['}'])]
        · exact .braces_of_pos rfl hcodePos hpasses₂.moves.pos hover hcode' hlaid

/-- A fragment, a dollar sign with a name, and the fragments that are left. -/
theorem Laid.reference_of_pos {restPos : Nat} {front body name : List Char} {v : Token}
    {vs : List Token} (hkind : t.kind = fragmentKind first) (hv : v.kind = .variable)
    (hrestPos : restPos = o + byteLength (front ++ body) + byteLength ('$' :: name))
    (hover : Over source o (front ++ body) t)
    (hname : Over source (o + byteLength (front ++ body)) ('$' :: name) v)
    (h : Laid source (.string false) restPos es rest vs) :
    Laid source (.string first) o (front ++ (body ++ ['$'] ++ (name ++ es))) rest
      (t :: v :: vs) := by
  rw [Nat.add_assoc, ← byteLength_append] at hrestPos
  subst hrestPos
  have hstring := Laid.reference hkind hover hv hname h
  simp only [List.append_assoc, List.cons_append, List.nil_append] at hstring ⊢
  exact hstring

/-- A fragment before a variable. -/
theorem laysOut_reference {s₂ : State} {start : Nat} {pending name : List Char} {rest : List Token}
    (hrun : takeRun q s = .ok run s₁) (hstop : run.stop = .dollar)
    (hname : Token.variableName? s₁.rest = some name)
    (hrest : (Task.fragments q (run.next + byteLength name) false []).LaysOut
      { s₁ with pos := run.next + byteLength name } rest s₂) :
    (Task.fragments q start first pending).LaysOut s
      (s₁.textToken (fragmentKind first) (pending ++ run.text) start (run.next - 1)
        :: s₁.textToken .variable name (run.next - 1) (run.next + byteLength name) :: rest) s₂ := by
  intro hbare cs hat hmode front hfront
  obtain ⟨ds, after, rfl, hpasses, hpos, hstops⟩ := takeRun_passes hat hrun
  rw [hstop] at hstops
  cases hstops with
  | @dollar body _ hdollar hhead =>
      have hat₁ := hpasses.moves.at hat
      rw [hat₁.rest] at hname
      obtain ⟨⟨after, rfl⟩, -⟩ := Token.variableName?_isPrefix hname
      have hpasses₁ : s₁.Passes name { s₁ with pos := run.next + byteLength name } :=
        ⟨⟨rfl, rfl, rfl, rfl, by rw [hpos]⟩, rfl⟩
      obtain ⟨es, rest₂, rfl, hpasses₂, hlaid⟩ := hrest (hpasses₁.bare (hpasses.bare hbare)) _
        (hpasses₁.moves.at hat₁) hmode [] rfl
      have hsource₁ : s₁.source = s.source := hpasses.moves.source
      have hnext : run.next = start + byteLength (front ++ body) + 1 := by
        rw [← hpos, hpasses.moves.pos, hfront, byteLength_append, byteLength_append]
        show start + byteLength front + (byteLength body + 1)
          = start + (byteLength front + byteLength body) + 1
        omega
      -- the sign belongs to the variable, so that the fragment ends before it
      have hdollar : run.next - 1 = start + byteLength (front ++ body) := by
        rw [hnext]
        rfl
      have hrestPos : run.next + byteLength name
          = start + byteLength (front ++ body) + byteLength ('$' :: name) := by
        rw [hnext, Nat.add_assoc _ 1]
        rfl
      have hover : Over s.source start (front ++ body) (s₁.textToken (fragmentKind first)
          (pending ++ run.text) start (run.next - 1)) := by
        rw [← hsource₁]
        exact over_token hdollar
      have hvariable : Over s.source (start + byteLength (front ++ body)) ('$' :: name)
          (s₁.textToken .variable name (run.next - 1) (run.next + byteLength name)) := by
        rw [hdollar, ← hsource₁]
        exact over_token hrestPos
      change Laid s₁.source _ (run.next + byteLength name) _ _ _ at hlaid
      rw [hsource₁] at hlaid
      refine ⟨body ++ ['$'] ++ (name ++ es), rest₂, ?_,
        hpasses.trans (hpasses₁.trans hpasses₂), ?_⟩
      · simp only [List.append_assoc]
      · exact .reference_of_pos rfl rfl hrestPos hover hvariable hlaid

/-- A dollar sign that begins nothing. -/
theorem laysOut_dollar {s₂ : State} {start : Nat} {pending : List Char}
    (hrun : takeRun q s = .ok run s₁)
    (hrest : (Task.fragments q start first (pending ++ run.text ++ ['$'])).LaysOut s₁ ts s₂) :
    (Task.fragments q start first pending).LaysOut s ts s₂ := by
  intro hbare cs hat hmode front hfront
  obtain ⟨ds, after, rfl, hpasses, -, -⟩ := takeRun_passes hat hrun
  have hstart : s₁.pos = start + byteLength (front ++ ds) := by
    rw [hpasses.moves.pos, hfront, byteLength_append, Nat.add_assoc]
  obtain ⟨es, rest, rfl, hpasses', hlaid⟩ :=
    hrest (hpasses.bare hbare) _ (hpasses.moves.at hat) hmode (front ++ ds) hstart
  rw [List.append_assoc, hpasses.moves.source] at hlaid
  exact ⟨ds ++ es, rest, (List.append_assoc _ _ _).symm, hpasses.trans hpasses', hlaid⟩

/-! ## Code -/

/-- Where the end is not reached, something is left. -/
theorem State.At.ne_nil (hat : s.At cs) (hend : s.atEnd = false) : cs ≠ [] := by
  rintro rfl
  rw [hat.atEnd_iff.2 rfl] at hend
  exact nomatch hend

/-- The brace that closes the code. -/
theorem laysOut_closed {depth : Nat} {tokens batch : List Token} (hend : s.atEnd = false)
    (hstep : Task.step.LaysOut s batch s') (hcloses : closes depth batch s') :
    (Task.code depth tokens).LaysOut s (asVariable tokens) s' := by
  intro hbare cs hat start front hfront hlaid
  obtain ⟨ds, rest, rfl, hpasses, helement⟩ := hstep hbare _ hat (hat.ne_nil hend)
  -- the step has read the brace alone, and its token is not passed on
  obtain ⟨t, rfl, ht⟩ := exists_of_closes hcloses
  obtain rfl := helement.eq_closeBrace ht
  refine ⟨['}'], rest, rfl, hpasses, .inr ⟨[], rfl, ?_⟩⟩
  rw [List.append_nil]
  exact hlaid.asVariable

/-- One more element of the code. -/
theorem laysOut_more {s₂ : State} {depth : Nat} {tokens batch : List Token}
    (hend : s.atEnd = false) (hstep : Task.step.LaysOut s batch s₁)
    (hrest : (Task.code depth (tokens ++ batch)).LaysOut (s₁.passed batch) ts s₂) :
    (Task.code depth tokens).LaysOut s ts s₂ := by
  intro hbare cs hat start front hfront hlaid
  obtain ⟨ds, rest, rfl, hpasses, helement⟩ := hstep hbare _ hat (hat.ne_nil hend)
  obtain ⟨k, hk⟩ := passed_eq s₁ batch
  rw [hk] at hrest
  have hpasses₁ : s.Passes ds { s₁ with after := k } :=
    ⟨⟨hpasses.moves.text, hpasses.moves.source, hpasses.moves.options, hpasses.moves.resume,
      hpasses.moves.pos⟩, hpasses.template⟩
  have hpos : s₁.pos = start + byteLength (front ++ ds) := by
    rw [hpasses.moves.pos, hfront, byteLength_append, Nat.add_assoc]
  rw [hfront] at helement
  have hfront' : Laid s₁.source .code start (front ++ ds) rest (tokens ++ batch) := by
    rw [hpasses.moves.source]
    exact .snoc hlaid helement
  obtain ⟨es, rest, rfl, hpasses₂, hclosed⟩ :=
    hrest (hpasses₁.bare hbare) _ (hpasses₁.moves.at hat) start (front ++ ds) hpos hfront'
  refine ⟨ds ++ es, rest, (List.append_assoc _ _ _).symm, hpasses₁.trans hpasses₂, ?_⟩
  rcases hclosed with ⟨hnil, hcode⟩ | ⟨code, rfl, hcode⟩
  all_goals
    change Laid s₁.source _ _ _ _ _ at hcode
    rw [hpasses.moves.source, List.append_assoc] at hcode
  · exact .inl ⟨hnil, hcode⟩
  · exact .inr ⟨ds ++ code, (List.append_assoc _ _ _).symm, hcode⟩

/-! ## Runs -/

/-- What a scan of code reads is laid out as its tokens. -/
theorem Runs.laid (h : Runs task s ts s') : task.LaysOut s ts s' := by
  induction h with
  | nothing h =>
      intro hbare cs hat hne
      exact absurd (opening?_eq_none (by rwa [hat.rest] at h)) hne
  | @quoted s s' ts h hrun ih =>
      intro hbare cs hat _
      -- the quote before the first fragment is a part of that
      obtain ⟨rest, rfl⟩ := opening?_begins (hat.opening h)
      have hpasses : s.Passes ['"'] { s with pos := s.pos + 1 } := ⟨s.moves_pos ['"'], rfl⟩
      obtain ⟨ds, rest, rfl, hpasses', hlaid⟩ :=
        ih (hpasses.bare hbare) _ (hpasses.moves.at hat) rfl ['"'] rfl
      exact ⟨'"' :: ds, rest, rfl, hpasses.trans hpasses', .quoted hlaid⟩
  | documented h =>
      intro hbare cs hat
      exact absurd (hat.opening h) (hbare.opening_ne hat)
  | plain h hhereDoc hquote htake =>
      intro hbare cs hat _
      exact (takePlain_took hat (hat.opening h) hhereDoc hquote htake).laid hbare
  | last hrun hstop => exact laysOut_last hrun hstop
  | braces hrun hstop hcode hrest ihcode ihrest => exact laysOut_braces hrun hstop ihcode ihrest
  | reference hrun hstop hname hrest ih => exact laysOut_reference hrun hstop hname ih
  | dollar hrun hstop hname hrest ih => exact laysOut_dollar hrun ih
  | @ended depth tokens s hend =>
      intro hbare cs hat start front hfront hlaid
      obtain rfl := hat.atEnd_iff.1 hend
      rw [← List.append_nil front] at hlaid
      exact ⟨[], [], rfl, s.passes_nil, .inl ⟨rfl, hlaid⟩⟩
  | closed hend hstep hcloses ih => exact laysOut_closed hend ih hcloses
  | more hend hstep hcloses hrest ihstep ihrest => exact laysOut_more hend ihstep ihrest
  | hereDoc =>
      intro _ _ _
      exact trivial

end Manifest.Scan
