import Manifest.Proofs.Quote.Run
import Manifest.Proofs.Scan.Cursor
import Manifest.Proofs.Scan.Opening
import Manifest.Proofs.Template.Stretch
import Manifest.Proofs.Token.Reserved
import Manifest.Proofs.Token.Shape

/-!
# What a rule takes

A rule that succeeds takes a front of the text that is left. It makes a token of all of it, or
passes over it when it is a blank or a comment; a line feed may lead back to the end of a here-doc,
and the end of a template tag brings the text after it along.

* `Took` — everything that a rule that succeeds can do.
* `takePlain_took` — no rule does anything else.
-/

namespace Manifest.Scan

open Text (byteLength)
open Token (Mark)

/-! ## What stands between tokens -/

/-- A piece of text, with what follows it, that makes no token. -/
inductive Piece : List Char → List Char → Prop
  /-- white space on a line -/
  | blanks {ds rest : List Char} (h : ds.all isBlank) (hne : ds ≠ []) : Piece ds rest
  | newline (rest : List Char) : Piece ['\n'] rest
  /-- a comment up to the end of its line -/
  | lineComment {ds rest : List Char} (h : ∀ c ∈ ds, c ≠ '\n')
    (hrest : ∀ c ∈ rest.head?, c = '\n') :
      Piece ('#' :: ds) rest
  /-- a comment up to the first `*/` -/
  | blockComment {ds : List Char} (rest : List Char) (h : ¬ ['*', '/'] <:+: ds ++ ['*']) :
      Piece ('/' :: '*' :: ds ++ ['*', '/']) rest

/-- A piece has a character at least. -/
theorem Piece.ne_nil {ds rest : List Char} (h : Piece ds rest) : ds ≠ [] := by
  cases h with
  | blanks _ hne => exact hne
  | newline => exact List.cons_ne_nil _ _
  | lineComment => exact List.cons_ne_nil _ _
  | blockComment => exact List.cons_ne_nil _ _

/-! ## What a rule does -/

/-- Kinds whose tokens have the text that they were read from. -/
def spelled : Token.Kind → Bool
  | .mark _ | .keyword _ | .boolean | .name | .word | .reference | .number => true
  | _ => false

/-- A token over the front `ds` of the text `cs` says what it was read from: marks are the longest
ones. -/
structure Faithful (ds cs : List Char) (t : Token) : Prop where
  inner : t.kind ≠ .endOfText
  text : spelled t.kind → t.text = String.ofList ds
  longest : ∀ m, t.kind = .mark m → m.spelling.toList = ds ∧ Longest m cs

/-- No token marks the end of the text. -/
def Inner (ts : List Token) : Prop := ∀ t ∈ ts, t.kind ≠ .endOfText

variable {ts us : List Token}

theorem inner_nil : Inner [] := fun _ h => nomatch h

theorem Inner.cons {t : Token} (ht : t.kind ≠ .endOfText) (h : Inner ts) : Inner (t :: ts) :=
  List.forall_mem_cons.2 ⟨ht, h⟩

theorem Inner.append (h : Inner ts) (h' : Inner us) : Inner (ts ++ us) := by
  intro t ht
  rcases List.mem_append.1 ht with ht | ht
  · exact h t ht
  · exact h' t ht

/-- The kinds of the tokens that introduce a here-doc. -/
def ofHereDoc : Token.Kind → Bool
  | .hereDoc | .hereDocBody => true
  | _ => false

/-- What is no part of a here-doc is neither its header nor its body. -/
theorem ne_of_ofHereDoc {kind : Token.Kind} (h : ofHereDoc kind = false) :
    kind ≠ .hereDoc ∧ kind ≠ .hereDocBody := by
  constructor
  · rintro rfl
    exact nomatch h
  · rintro rfl
    exact nomatch h

/-- No token marks the end of the text, and none is the body of a here-doc. -/
def Plain (ts : List Token) : Prop := ∀ t ∈ ts, t.kind ≠ .endOfText ∧ t.kind ≠ .hereDocBody

theorem Plain.inner (h : Plain ts) : Inner ts := fun t ht => (h t ht).1

theorem plain_nil : Plain [] := fun _ h => nomatch h

theorem Plain.singleton {t : Token} (hinner : t.kind ≠ .endOfText) (hbody : t.kind ≠ .hereDocBody) :
    Plain [t] := List.forall_mem_singleton.2 ⟨hinner, hbody⟩

/-- Plain tokens in a row. -/
theorem Plain.append (h : Plain ts) (h' : Plain us) : Plain (ts ++ us) :=
  List.forall_mem_append.2 ⟨h, h'⟩

/-- A choice between plain tokens. -/
theorem Plain.ite {p : Prop} [Decidable p] (h : Plain ts) (h' : Plain us) :
    Plain (if p then ts else us) := by
  split
  · exact h
  · exact h'

/-- Of two lists of one token at most, one is chosen. -/
theorem length_ite_le_one {p : Prop} [Decidable p] (h : ts.length ≤ 1) (h' : us.length ≤ 1) :
    (if p then ts else us).length ≤ 1 := by
  split
  · exact h
  · exact h'

/-- What a rule that succeeds does at a text. -/
inductive Took (s : State) : List Char → List Token → State → Prop
  | skipped {ds rest : List Char} {s' : State} (hpiece : Piece ds rest) (hmove : s.Moves ds s')
      (hmode : s'.template = s.template) : Took s (ds ++ rest) [] s'
  | newline (rest : List Char) : Took s ('\n' :: rest) []
      { s with pos := s.resume.getD (s.pos + 1), lineStart := s.resume.getD (s.pos + 1),
               resume := none }
  | token {ds rest : List Char} {kind : Token.Kind} {value : Token.Value} {s' : State}
      (hne : ds ≠ []) (hmove : s.Moves ds s') (hmode : s'.template = s.template)
      (htoken : Faithful ds (ds ++ rest) (s.token kind value s.pos s'.pos))
      (hkind : ofHereDoc kind = false) : Took s (ds ++ rest) [s.token kind value s.pos s'.pos] s'
  /-- the end of a template tag, with the text after it -/
  | template {ds rest : List Char} {ts : List Token} {s' : State} (hmode : s.template.isSome)
      (hne : ds ≠ []) (hmove : s.Moves ds s') (hlength : ts.length ≤ byteLength ds)
      (hplain : Plain ts) : Took s (ds ++ rest) ts s'

variable {s s' : State} {cs ds rest : List Char} {o : Opening} {m : Mark} {kind : Token.Kind}

/-! ## Tokens -/

/-- A token of a kind without a spelling of its own. -/
theorem faithful_of_not_spelled {value : Token.Value} {start stop : Nat}
    (h : spelled kind = false) (hinner : kind ≠ .endOfText) :
    Faithful ds cs (s.token kind value start stop) := by
  refine ⟨hinner, ?_, ?_⟩
  · intro hk
    exact absurd (h.symm.trans hk) Bool.false_ne_true
  · intro m hm
    rw [show kind = .mark m from hm] at h
    exact nomatch h

/-- A token with a text of its own that is no mark. -/
theorem faithful_text {start stop : Nat} (h : ∀ m, kind ≠ .mark m) (hinner : kind ≠ .endOfText) :
    Faithful ds cs (s.textToken kind ds start stop) :=
  ⟨hinner, fun _ => rfl, fun m hm => absurd hm (h m)⟩

/-- A mark says its spelling, which is the longest there. -/
theorem faithful_mark {start stop : Nat} (h : Longest m cs) :
    Faithful m.spelling.toList cs (s.token (.mark m) .none start stop) := by
  refine ⟨nofun, ?_, ?_⟩
  · intro _
    exact String.ofList_toList.symm
  · intro n hn
    obtain rfl : m = n := Token.Kind.mark.inj hn
    exact ⟨rfl, h⟩

/-- Reserved words are booleans, or keywords with that spelling. -/
theorem reserved?_spec {tasks : Bool} {word : String} (h : Token.reserved? tasks word = some kind) :
    (kind = .boolean ∧ (word = "true" ∨ word = "false")) ∨
      ∃ w : Token.Keyword, kind = .keyword w ∧ w.spelling = word := by
  cases Token.reserved?_eq_some_iff.1 h with
  | boolean b =>
      left
      cases b with
      | true => exact ⟨rfl, .inl rfl⟩
      | false => exact ⟨rfl, .inr rfl⟩
  | keyword w => exact .inr ⟨w, rfl, rfl⟩

/-- The booleans are `true` and `false`. -/
theorem reserved?_boolean {tasks : Bool} {word : String}
    (h : Token.reserved? tasks word = some .boolean) : word = "true" ∨ word = "false" := by
  rcases reserved?_spec h with ⟨-, hword⟩ | ⟨w, hw, -⟩
  · exact hword
  · exact nomatch hw

/-- The token of a word says the word. -/
theorem exists_wordToken (s : State) (word cs : List Char) (start stop : Nat) :
    ∃ kind value, wordToken s word start stop = s.token kind value start stop ∧
      Faithful word cs (s.token kind value start stop) ∧ ofHereDoc kind = false := by
  unfold wordToken
  dsimp only
  split
  next h =>
    refine ⟨_, _, rfl, ⟨nofun, ?_, fun m hm => nomatch hm⟩, rfl⟩
    intro _
    rcases reserved?_boolean h with hword | hword
    · rw [hword]; rfl
    · rw [hword]; rfl
  next kind hboolean h =>
    rcases reserved?_spec h with ⟨rfl, -⟩ | ⟨w, rfl, hw⟩
    · exact absurd rfl hboolean
    · exact ⟨_, _, rfl, ⟨nofun, fun _ => hw, fun m hm => nomatch hm⟩, rfl⟩
  next =>
    refine ⟨_, _, rfl, faithful_text ?_ ?_, ?_⟩
    · intro m
      split
      · exact nofun
      · exact nofun
    · split
      · exact nofun
      · exact nofun
    · split
      · exact rfl
      · exact rfl

/-! ## Rule by rule -/

/-- A token that says what it was taken from. -/
theorem took_text (hne : ds ≠ []) (hmark : ∀ m, kind ≠ .mark m) (hinner : kind ≠ .endOfText)
    (hkind : ofHereDoc kind = false) :
    Took s (ds ++ rest) [s.textToken kind ds s.pos (s.pos + byteLength ds)]
      { s with pos := s.pos + byteLength ds } :=
  .token hne (s.moves_pos ds) rfl (faithful_text hmark hinner) hkind

/-- What is skipped leaves no token. -/
theorem took_skip (hpiece : Piece ds rest) :
    Took s (ds ++ rest) [] { s with pos := s.pos + byteLength ds } :=
  .skipped hpiece (s.moves_pos ds) rfl

/-- A comment reaches to the end of its line. -/
theorem lineComment_piece (cs : List Char) :
    Piece ('#' :: cs.takeWhile (· ≠ '\n')) (cs.dropWhile (· ≠ '\n')) := by
  refine .lineComment ?_ ?_
  · intro c hc
    have hne := List.mem_takeWhile_imp hc
    exact of_decide_eq_true hne
  · intro c hc
    have hhead := List.head?_dropWhile_not (fun c => decide (c ≠ '\n')) cs
    rw [Option.mem_def.1 hc] at hhead
    simpa using hhead

/-- White space on a line is passed over as a whole. -/
theorem blanks_piece {c : Char} (hc : isBlank c) (cs : List Char) :
    Piece ((c :: cs).takeWhile isBlank) ((c :: cs).dropWhile isBlank) := by
  refine .blanks (List.all_eq_true.2 fun d hd => List.mem_takeWhile_imp hd) ?_
  rw [List.takeWhile_cons_of_pos hc]
  exact List.cons_ne_nil _ _

/-- A mark over its own spelling; what is kept beside the cursor may have changed before. -/
theorem takeMark_took {s₁ : State} (hsame : s.Moves [] s₁) (hmode : s₁.template = s.template)
    (hm : m.spelling.toList <+: cs)
    (hlongest : Longest m cs) (h : takeMark m s₁ = .ok ts s') : Took s cs ts s' := by
  obtain ⟨rfl, rfl⟩ := EStateM.Result.ok.inj h
  obtain ⟨rest, rfl⟩ := hm
  have hmove := hsame.trans (s₁.moves_pos m.spelling.toList)
  have htoken : s₁.token (.mark m) .none s₁.pos (s₁.pos + byteLength m.spelling.toList)
      = s.token (.mark m) .none s.pos (s₁.pos + byteLength m.spelling.toList) := by
    rw [State.token, State.token, hsame.source, hsame.pos]
    rfl
  rw [htoken]
  exact .token (List.length_pos_iff.1 (length_spelling_pos m)) hmove hmode (faithful_mark hlongest)
    rfl

/-- The first `*/` of a text is not found earlier. -/
theorem not_infix_of_first {body : List Char}
    (h : ∀ ds es, body = ds ++ es → es ≠ [] →
      ['*', '/'].isPrefixOf (es ++ (['*', '/'] ++ rest)) = false) :
    ¬ ['*', '/'] <:+: body ++ ['*'] := by
  rintro ⟨before, after, heq⟩
  have hlength : before.length < body.length := by
    have := congrArg List.length heq
    simp only [List.length_append, List.length_cons, List.length_nil] at this
    omega
  have hbefore : before <+: body ++ ['*'] := ⟨['*', '/'] ++ after, by rw [← List.append_assoc, heq]⟩
  obtain ⟨es, rfl⟩ := List.prefix_of_prefix_length_le hbefore (List.prefix_append body ['*'])
    (Nat.le_of_lt hlength)
  rw [List.append_assoc, List.append_assoc, List.append_cancel_left_eq] at heq
  have hes : es ≠ [] := by
    rintro rfl
    rw [List.append_nil] at hlength
    exact Nat.lt_irrefl _ hlength
  have hfound : ['*', '/'] <+: es ++ (['*', '/'] ++ rest) := by
    refine List.IsPrefix.trans ⟨after, heq⟩ ⟨'/' :: rest, ?_⟩
    rw [List.append_assoc]
    rfl
  exact Bool.noConfusion ((h before es rfl hes).symm.trans (List.isPrefixOf_iff_prefix.2 hfound))

/-- A comment goes up to the first `*/`. -/
theorem takeComment_ok {cs : List Char} (hat : s.At ('/' :: '*' :: cs))
    (h : takeComment s = .ok ts s') : ∃ body rest, cs = body ++ (['*', '/'] ++ rest) ∧
      ¬ ['*', '/'] <:+: body ++ ['*'] ∧ ts = [] ∧
      s' = { s with pos := s.pos + byteLength ('/' :: '*' :: body ++ ['*', '/']) } := by
  rw [takeComment, get_bind, hat.rest, List.drop_succ_cons, List.drop_succ_cons,
    List.drop_zero] at h
  cases hfind : Text.findOffset (['*', '/'].isPrefixOf ·) (s.pos + 2) cs with
  | none =>
      rw [hfind] at h
      exact nomatch h
  | some offset =>
      rw [hfind] at h
      obtain ⟨rfl, rfl⟩ := EStateM.Result.ok.inj h
      obtain ⟨body, rest, rfl, rfl, hend, hmin⟩ := Text.findOffset_spec hfind
      obtain ⟨rest, rfl⟩ := List.isPrefixOf_iff_prefix.1 hend
      have hpos : s.pos + 2 + byteLength body + 2
          = s.pos + byteLength ('/' :: '*' :: body ++ ['*', '/']) := by
        rw [Text.byteLength_append]
        show _ = s.pos + (1 + (1 + byteLength body) + 2)
        omega
      exact ⟨body, rest, rfl, not_infix_of_first hmin, rfl, by rw [← hpos]⟩

/-- A comment is skipped. -/
theorem takeComment_took {cs : List Char} (hat : s.At ('/' :: '*' :: cs))
    (h : takeComment s = .ok ts s') : Took s ('/' :: '*' :: cs) ts s' := by
  obtain ⟨body, rest, rfl, hfirst, rfl, rfl⟩ := takeComment_ok hat h
  have htext : '/' :: '*' :: (body ++ (['*', '/'] ++ rest))
      = '/' :: '*' :: body ++ ['*', '/'] ++ rest := by simp
  rw [htext]
  exact took_skip (.blockComment rest hfirst)

/-- A slash is taken by itself or up to the one that ends a regular expression. -/
theorem takeSlash_took {cs : List Char} (hat : s.At ('/' :: cs)) (h : takeSlash s = .ok ts s') :
    Took s ('/' :: cs) ts s' := by
  unfold takeSlash at h
  rw [get_bind, hat.rest] at h
  simp only [List.drop_succ_cons, List.drop_zero] at h
  generalize hbody : (if s.after.all Token.Kind.allowsRegexAfter then Token.regex? cs else none) =
    found
    at h
  cases found with
  | none => exact takeMark_took s.moves_nil rfl ⟨cs, rfl⟩ (longest_of_head (by decide)) h
  | some body =>
      obtain ⟨rfl, rfl⟩ := EStateM.Result.ok.inj h
      obtain ⟨-, hregex⟩ := Option.ite_none_right_eq_some.1 hbody
      obtain ⟨rest, rfl⟩ := Token.regex?_spec hregex
      have htext : '/' :: (body ++ '/' :: rest) = '/' :: body ++ ['/'] ++ rest := by simp
      rw [htext]
      exact .token (List.cons_ne_nil _ _) (s.moves_pos _) rfl
        (faithful_of_not_spelled rfl nofun) rfl

/-- A variable is taken with its sign. -/
theorem takeVariable_took {cs : List Char} (hat : s.At ('$' :: cs))
    (h : takeVariable s = .ok ts s') : Took s ('$' :: cs) ts s' := by
  unfold takeVariable at h
  rw [get_bind, hat.rest] at h
  simp only [List.drop_succ_cons, List.drop_zero] at h
  obtain ⟨rfl, rfl⟩ := EStateM.Result.ok.inj h
  have hname : (Token.variableName? cs).getD [] <+: cs := by
    cases hvariable : Token.variableName? cs with
    | none => exact List.nil_prefix
    | some name => exact (Token.variableName?_isPrefix hvariable).1
  obtain ⟨rest, hrest⟩ := hname
  generalize (Token.variableName? cs).getD [] = name at hrest
  rw [← hrest, ← List.cons_append]
  exact .token (List.cons_ne_nil _ _) (s.moves_pos _) rfl (faithful_of_not_spelled rfl nofun) rfl

/-- A number that is taken has no fault. -/
theorem takeNumber_ok (hat : s.At cs) (h : takeNumber s = .ok ts s') :
    Number.fault? (Token.number cs) = none ∧
      takeText .number (Token.number cs) (Token.number cs) s = .ok ts s' := by
  rw [takeNumber, get_bind, hat.rest] at h
  cases hfault : Number.fault? (Token.number cs) with
  | some rule =>
      rw [hfault] at h
      exact nomatch h
  | none =>
      rw [hfault] at h
      exact ⟨rfl, h⟩

/-- A number is taken as it stands. -/
theorem takeNumber_took {c : Char} (hat : s.At (c :: cs)) (hc : c.isDigit)
    (h : takeNumber s = .ok ts s') : Took s (c :: cs) ts s' := by
  obtain ⟨-, h⟩ := takeNumber_ok hat h
  obtain ⟨rest, hrest⟩ := Token.number_isPrefix (c :: cs)
  have hne : Token.number (c :: cs) ≠ [] := Token.number_ne_nil hc
  generalize Token.number (c :: cs) = literal at h hrest hne
  obtain ⟨rfl, rfl⟩ := EStateM.Result.ok.inj h
  rw [← hrest]
  exact took_text hne nofun nofun rfl

/-- A word is taken as it stands. -/
theorem takeWord_ok (hat : s.At cs) (h : takeWord s = .ok ts s') :
    ∃ word, Token.word? cs = some word ∧ ts = [wordToken s word s.pos (s.pos + byteLength word)] ∧
      s' = { s with pos := s.pos + byteLength word } := by
  rw [takeWord, get_bind, hat.rest] at h
  cases hword : Token.word? cs with
  | none =>
      rw [hword] at h
      exact nomatch h
  | some word =>
      rw [hword] at h
      dsimp only at h
      rw [set_bind] at h
      split at h
      next =>
        obtain ⟨rfl, rfl⟩ := EStateM.Result.ok.inj h
        exact ⟨word, rfl, rfl, rfl⟩
      next => exact nomatch h

/-- The token of a word that is taken says the word. -/
theorem takeWord_took (hat : s.At cs) (h : takeWord s = .ok ts s') : Took s cs ts s' := by
  obtain ⟨word, hword, rfl, rfl⟩ := takeWord_ok hat h
  obtain ⟨⟨rest, rfl⟩, hne⟩ := Token.word?_isPrefix hword
  obtain ⟨kind, value, htoken, hfaithful, hkind⟩ :=
    exists_wordToken s word (word ++ rest) s.pos (s.pos + byteLength word)
  rw [htoken]
  exact .token hne (s.moves_pos word) rfl hfaithful hkind

/-- A reference is taken as it stands. -/
theorem takeReference_ok {dangling : Code} (hat : s.At cs)
    (h : takeReference dangling s = .ok ts s') :
    ∃ name, Token.reference? cs = some name ∧
      ts = [s.textToken .reference name s.pos (s.pos + byteLength name)] ∧
      s' = { s with pos := s.pos + byteLength name } := by
  rw [takeReference, get_bind, hat.rest] at h
  cases hname : Token.reference? cs with
  | none =>
      rw [hname] at h
      exact nomatch h
  | some name =>
      rw [hname] at h
      dsimp only at h
      rw [set_bind] at h
      split at h
      next =>
        obtain ⟨rfl, rfl⟩ := EStateM.Result.ok.inj h
        exact ⟨name, rfl, rfl, rfl⟩
      next => exact nomatch h

/-- The token of a reference that is taken says the reference. -/
theorem takeReference_took {dangling : Code} (hat : s.At cs)
    (h : takeReference dangling s = .ok ts s') : Took s cs ts s' := by
  obtain ⟨name, hname, rfl, rfl⟩ := takeReference_ok hat h
  obtain ⟨⟨rest, rfl⟩, hne⟩ := Token.reference?_isPrefix hname
  exact took_text hne nofun nofun rfl

/-- Text in single quotes is collected up to the quote that closes it. -/
theorem takeSingleQuoted_ok {cs : List Char} (hat : s.At ('\'' :: cs))
    (h : takeSingleQuoted s = .ok ts s') :
    ∃ run, (Quote.collect .single .singleQuoted (s.pos + 1) cs).run = .ok run ∧
      ts = [s.textToken .string run.text s.pos run.next] ∧ s' = { s with pos := run.next } := by
  rw [takeSingleQuoted, get_bind, hat.rest, List.drop_succ_cons, List.drop_zero] at h
  cases hrun : (Quote.collect .single .singleQuoted (s.pos + 1) cs).run with
  | error fault =>
      rw [hrun] at h
      exact nomatch h
  | ok run =>
      rw [hrun] at h
      obtain ⟨rfl, rfl⟩ := EStateM.Result.ok.inj h
      exact ⟨run, rfl, rfl, rfl⟩

/-- The token of text in single quotes spans both quotes. -/
theorem takeSingleQuoted_took {cs : List Char} (hat : s.At ('\'' :: cs))
    (h : takeSingleQuoted s = .ok ts s') : Took s ('\'' :: cs) ts s' := by
  obtain ⟨run, hrun, rfl, rfl⟩ := takeSingleQuoted_ok hat h
  obtain ⟨front, rest, rfl, hnext, -⟩ := Quote.collect_spec hrun
  have hmove : s.Moves ('\'' :: front) { s with pos := run.next } := by
    refine ⟨rfl, rfl, rfl, rfl, ?_⟩
    show run.next = s.pos + (1 + byteLength front)
    rw [hnext, Nat.add_assoc]
  exact .token (List.cons_ne_nil _ _) hmove rfl (faithful_of_not_spelled rfl nofun) rfl

/-! ## Templates -/

/-- Template text takes a front of the text; tokens are fewer than its bytes, but for one. -/
theorem takeTemplateText_spec {skipLeading : Bool} (hat : s.At cs)
    (h : takeTemplateText skipLeading s = .ok ts s') :
    ∃ ds rest, cs = ds ++ rest ∧ s.Moves ds s' ∧ ts.length ≤ byteLength ds + 1 ∧ Plain ts := by
  unfold takeTemplateText at h
  rw [get_bind, hat.rest] at h
  cases hstretch : Template.stretch skipLeading s.pos cs with
  | error e =>
      rw [hstretch] at h
      exact nomatch h
  | ok stretch =>
      rw [hstretch] at h
      obtain ⟨ds, rest, rfl, hnext, hrender⟩ := Template.stretch_spec hstretch
      refine ⟨ds, rest, rfl, ?_⟩
      -- the text before the tag is one token, or none when it is empty
      have hlength : ∀ stop, (if stretch.text.isEmpty then []
          else [s.textToken .renderString stretch.text s.pos stop] : List Token).length ≤ 1 :=
        fun stop => length_ite_le_one (Nat.zero_le 1) (Nat.le_refl 1)
      have hplain : ∀ stop, Plain (if stretch.text.isEmpty then []
          else [s.textToken .renderString stretch.text s.pos stop]) :=
        fun stop => .ite plain_nil (.singleton nofun nofun)
      cases hending : stretch.ending with
      | endOfText =>
          simp only [hending] at h
          obtain ⟨rfl, rfl⟩ := EStateM.Result.ok.inj h
          exact ⟨⟨rfl, rfl, rfl, rfl, hnext⟩, Nat.le_add_left_of_le (hlength _), hplain _⟩
      | code tag =>
          simp only [hending] at h
          obtain ⟨rfl, rfl⟩ := EStateM.Result.ok.inj h
          exact ⟨⟨rfl, rfl, rfl, rfl, hnext⟩, Nat.le_add_left_of_le (hlength _), hplain _⟩
      | render tag =>
          simp only [hending] at h
          obtain ⟨rfl, rfl⟩ := EStateM.Result.ok.inj h
          refine ⟨⟨rfl, rfl, rfl, rfl, hnext⟩, ?_, .append (hplain tag) (.singleton nofun nofun)⟩
          have hthree := hrender tag hending
          have hone := hlength tag
          rw [List.length_append, List.length_singleton]
          omega

/-- The end of a tag is taken with the text behind it. -/
theorem takeTagEnd_took {trims : Bool} (hmode : s.template.isSome) (hat : s.At cs)
    (hbegins : (Opening.tagEnd trims).Begins cs) (h : takeTagEnd trims s = .ok ts s') :
    Took s cs ts s' := by
  have hspelling : (if trims then Mark.trimmingTagEnd else Mark.tagEnd).spelling.toList <+: cs := by
    cases trims with
    | true => exact hbegins
    | false => exact hbegins
  have htwo : 2 ≤ byteLength
      (if trims then Mark.trimmingTagEnd else Mark.tagEnd).spelling.toList := by
    cases trims with
    | true => decide
    | false => decide
  unfold takeTagEnd at h
  rw [get_bind] at h
  dsimp only at h
  generalize (if trims then Mark.trimmingTagEnd else Mark.tagEnd) = m at h hspelling htwo
  obtain ⟨rest, rfl⟩ := hspelling
  rw [set_bind] at h
  obtain ⟨text, s₁, htext, h⟩ := bind_eq_ok h
  obtain ⟨rfl, rfl⟩ := EStateM.Result.ok.inj h
  have hmove : s.Moves m.spelling.toList
      { s with pos := s.pos + byteLength m.spelling.toList, template := some .text } :=
    ⟨rfl, rfl, rfl, rfl, rfl⟩
  obtain ⟨ds, rest, rfl, hmove', hlength, hplain⟩ := takeTemplateText_spec (hmove.at hat) htext
  -- a tag whose value is rendered ends with a token of its own
  have hended : (if s.template = some .render then [s.token (.mark m) .none s.pos
      (s.pos + byteLength m.spelling.toList)] else [] : List Token).length ≤ 1 :=
    length_ite_le_one (Nat.le_refl 1) (Nat.zero_le 1)
  rw [← List.append_assoc]
  refine .template hmode ?_ (hmove.trans hmove') ?_ ?_
  · exact List.append_ne_nil_of_left_ne_nil (List.length_pos_iff.1 (length_spelling_pos m)) _
  · rw [List.length_append, Text.byteLength_append]
    omega
  · exact .append (.ite (.singleton nofun nofun) plain_nil) hplain

/-! ## All rules -/

/-- Outside of templates no tag ends. -/
theorem plainOpening_ne_tagEnd {trims : Bool} (c : Char) (cs : List Char) :
    plainOpening c cs ≠ .tagEnd trims := by
  unfold plainOpening
  split
  · exact nofun
  · unfold openingOfChar
    split
    · exact nofun
    · split
      · exact nofun
      · split
        · exact nofun
        · split
          · exact nofun
          · split <;> exact nofun

/-- Tags end only in a template. -/
theorem isSome_of_tagEnd {inTemplate trims : Bool}
    (h : opening? inTemplate cs = some (.tagEnd trims)) :
    inTemplate := by
  cases inTemplate with
  | true => rfl
  | false =>
      unfold opening? at h
      split at h
      case h_14 rest =>
        have hcolons := Option.some.inj h
        unfold openingAfterColons at hcolons
        split at hcolons
        · split at hcolons
          · exact nomatch hcolons
          · split at hcolons <;> exact nomatch hcolons
        · exact nomatch hcolons
      case h_15 c rest _ _ _ _ _ _ _ _ _ _ _ _ _ =>
        exact absurd (Option.some.inj h) (plainOpening_ne_tagEnd c rest)
      all_goals exact nomatch h

/-- A rule that does not lead back into code does one of the few things that rules do. -/
theorem takePlain_took (hat : s.At cs) (ho : opening? s.template.isSome cs = some o)
    (hhereDoc : o ≠ .hereDoc) (hquote : o ≠ .doubleQuote) (h : takePlain o s = .ok ts s') :
    Took s cs ts s' := by
  have hbegins := opening?_begins ho
  -- each rule takes what it begins with; only a mark has to be compared with longer ones
  cases o with
  | mark m => exact takeMark_took s.moves_nil rfl hbegins.1 hbegins.2 h
  | bracket =>
      obtain ⟨rest, rfl⟩ := hbegins
      rw [takePlain, takeBracket_eq] at h
      split at h
      · exact takeMark_took s.moves_nil rfl ⟨rest, rfl⟩ (longest_of_head (by decide)) h
      · exact takeMark_took s.moves_nil rfl ⟨rest, rfl⟩ (longest_of_head (by decide)) h
  | paren =>
      obtain ⟨rest, rfl⟩ := hbegins
      rw [takePlain, takeParen_eq] at h
      split at h
      · exact takeMark_took s.moves_nil rfl ⟨rest, rfl⟩ (longest_of_head (by decide)) h
      · exact takeMark_took s.moves_nil rfl ⟨rest, rfl⟩ (longest_of_head (by decide)) h
  | brace =>
      obtain ⟨rest, rfl⟩ := hbegins
      rw [takePlain, takeBrace_eq] at h
      have hsame : s.Moves [] { s with braceDepth := s.braceDepth + 1 } := ⟨rfl, rfl, rfl, rfl, rfl⟩
      split at h
      · exact takeMark_took hsame rfl ⟨rest, rfl⟩ (longest_of_head (by decide)) h
      · exact takeMark_took hsame rfl ⟨rest, rfl⟩ (longest_of_head (by decide)) h
  | closeBrace =>
      obtain ⟨rest, rfl⟩ := hbegins
      rw [takePlain, takeCloseBrace_eq] at h
      have hsame : s.Moves [] { s with braceDepth := s.braceDepth - 1 } := ⟨rfl, rfl, rfl, rfl, rfl⟩
      exact takeMark_took hsame rfl ⟨rest, rfl⟩ (longest_of_head (by decide)) h
  | tagEnd trims => exact takeTagEnd_took (isSome_of_tagEnd ho) hat hbegins h
  | hereDoc => exact absurd rfl hhereDoc
  | doubleQuote => exact absurd rfl hquote
  | singleQuote =>
      obtain ⟨rest, rfl⟩ := hbegins
      exact takeSingleQuoted_took hat h
  | lineComment =>
      obtain ⟨rest, rfl⟩ := hbegins
      have hskip := took_skip (s := s) (lineComment_piece rest)
      rw [List.cons_append, List.takeWhile_append_dropWhile] at hskip
      rw [takePlain, get_bind, hat.rest] at h
      obtain ⟨rfl, rfl⟩ := EStateM.Result.ok.inj h
      exact hskip
  | blockComment =>
      obtain ⟨rest, rfl⟩ := hbegins
      exact takeComment_took hat h
  | slash =>
      obtain ⟨rest, rfl⟩ := hbegins
      exact takeSlash_took hat h
  | dollar =>
      obtain ⟨rest, rfl⟩ := hbegins
      exact takeVariable_took hat h
  | number =>
      obtain ⟨c, rest, rfl, hc⟩ := hbegins
      exact takeNumber_took hat hc h
  | word => exact takeWord_took hat h
  | reference dangling => exact takeReference_took hat h
  | separator =>
      obtain ⟨rest, rfl⟩ := hbegins
      obtain ⟨rfl, rfl⟩ := EStateM.Result.ok.inj h
      exact took_text (List.cons_ne_nil _ _) nofun nofun rfl
  | newline =>
      obtain ⟨rest, rfl⟩ := hbegins
      obtain ⟨rfl, rfl⟩ := EStateM.Result.ok.inj h
      exact .newline rest
  | blank =>
      obtain ⟨c, rest, rfl, hc⟩ := hbegins
      have hskip := took_skip (s := s) (blanks_piece hc rest)
      rw [List.takeWhile_append_dropWhile] at hskip
      rw [takePlain, get_bind, hat.rest] at h
      obtain ⟨rfl, rfl⟩ := EStateM.Result.ok.inj h
      exact hskip
  | foreignLetter c => exact nomatch h
  | other c =>
      obtain ⟨rest, rfl⟩ := hbegins
      obtain ⟨rfl, rfl⟩ := EStateM.Result.ok.inj h
      exact took_text (List.cons_ne_nil _ _) nofun nofun rfl

end Manifest.Scan
