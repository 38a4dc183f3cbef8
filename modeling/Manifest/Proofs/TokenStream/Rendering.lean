import Manifest.Proofs.Scan.Item
import Manifest.Proofs.TokenStream.Fullscan

/-!
# Tokens of rendered items

Items are written with single spaces between them. A stream reads them one by one: in front of each
item it stands behind a space, or at the start of the text, and keeps of the item before what tells
apart the marks of one spelling.

* `render` — items as a text.
* `shownAfter` — what their tokens show.
* `tokenize_render` — the tokens of rendered items are those that they stand for.
-/

namespace Manifest.TokenStream

open Scan (State Stop Item Context Reads Gives isBlank)
open Text (byteLength byteLength_append)
open Token (Ends Mark)

variable {tasks : Bool} {s s' : TokenStream} {state : State} {front rest ds : List Char}
  {previous : Option (Item tasks)} {shown : Token.Kind × String} {stepFuel fuel : Nat}

/-! ## Rendering -/

/-- Items as a text, with a space between any two. -/
def render (items : List (Item tasks)) : List Char := [' '].intercalate (items.map Item.spelling)

/-- The kinds and the texts of the tokens of items, by the item before them. -/
def shownAfter : Option (Item tasks) → List (Item tasks) → List (Token.Kind × String)
  | _, [] => []
  | previous, i :: is => i.shown previous :: shownAfter (some i) is

/-- Items behind spaces. -/
def following (items : List (Item tasks)) : List Char :=
  items.flatMap fun i => ' ' :: i.spelling

/-- A space stands before each item. -/
theorem following_cons (i : Item tasks) (is : List (Item tasks)) :
    following (i :: is) = ' ' :: (i.spelling ++ following is) := rfl

theorem render_cons (i : Item tasks) (is : List (Item tasks)) :
    render (i :: is) = i.spelling ++ following is := by
  induction is generalizing i with
  | nil =>
      show [' '].intercalate [i.spelling] = _
      rw [List.intercalate_singleton]
      exact (List.append_nil _).symm
  | cons j is ih =>
      show [' '].intercalate (i.spelling :: j.spelling :: is.map Item.spelling) = _
      rw [List.intercalate_cons_cons, following_cons, ← ih j, List.append_assoc]
      rfl

/-- A space or the end follows an item. -/
theorem ends_following (items : List (Item tasks)) : Ends (following items) := by
  cases items with
  | nil => exact fun _ h => nomatch h
  | cons i is =>
      intro c hc
      exact (Option.some.inj hc).symm

/-- Every item takes a byte at least. -/
theorem length_le_following (items : List (Item tasks)) :
    items.length ≤ byteLength (following items) := by
  induction items with
  | nil => exact Nat.le_refl 0
  | cons i is ih =>
      rw [following_cons, List.length_cons]
      show is.length + 1 ≤ 1 + byteLength (i.spelling ++ following is)
      rw [byteLength_append]
      omega

/-- A rendered text begins visibly. -/
theorem beginsVisibly_render (i : Item tasks) (is : List (Item tasks)) :
    Scan.BeginsVisibly (render (i :: is)) := by
  rw [render_cons]
  exact i.beginsVisibly.append _

/-! ## Between items -/

/-- The cursor stands between two parts of a text; the state keeps of the first part the last of its
items. -/
structure Between (s : State) (front rest : List Char) (previous : Option (Item tasks)) : Prop where
  text : s.text = front ++ rest
  pos : s.pos = byteLength front
  template : s.template = none
  openTag : s.openTag = none
  lineStart : s.lineStart = 0
  tasks_eq : s.options.tasks = tasks
  blank : front.all isBlank = previous.isNone
  after : s.after = some (.mark .question) ↔ previous.any Item.isQuestion

/-- The cursor stands before what is left. -/
theorem Between.at (h : Between state front rest previous) : state.At rest :=
  ⟨front, h.text, h.pos⟩

/-- Before an item stands white space, or nothing. -/
theorem Between.context (h : Between state front rest previous)
    (hspace : front.getLast?.all Unicode.isWhiteSpace) : Context state previous := by
  have hslice : Text.slice state.text 0 state.pos = front := by
    rw [h.text, h.pos]
    have hfront := Text.slice_byteLength [] front rest
    rwa [List.nil_append, show byteLength [] = 0 from rfl, Nat.zero_add] at hfront
  refine ⟨h.template, h.tasks_eq, ?_, ?_, h.after⟩
  · rw [hslice]
    exact hspace
  · rw [h.lineStart, Nat.zero_min, hslice]
    exact h.blank

/-- The cursor behind a space. -/
theorem Between.space (h : Between state front (' ' :: rest) previous) :
    Between { state with pos := state.pos + 1 } (front ++ [' ']) rest previous := by
  refine ⟨?_, ?_, h.template, h.openTag, h.lineStart, h.tasks_eq, ?_, h.after⟩
  · rw [h.text, List.append_assoc]
    rfl
  · rw [byteLength_append, h.pos]
    rfl
  · rw [List.all_append, h.blank]
    exact Bool.and_true _

/-- No mark is read as a question mark but the question mark. -/
theorem markAfter_question_iff (previous : Option (Item tasks)) {m : Mark} :
    Item.markAfter previous m = .question ↔ m = .question := by
  have hparen : (if previous.isNone then Mark.lineParen else .openParen) ≠ .question := by
    split
    · exact nofun
    · exact nofun
  have hbrace : (if previous.any Item.isQuestion then Mark.selectorBrace else .openBrace)
      ≠ .question := by
    split
    · exact nofun
    · exact nofun
  cases m with
  | openParen => exact ⟨fun h => absurd h hparen, nofun⟩
  | lineParen => exact ⟨fun h => absurd h hparen, nofun⟩
  | openBrace => exact ⟨fun h => absurd h hbrace, nofun⟩
  | selectorBrace => exact ⟨fun h => absurd h hbrace, nofun⟩
  | openBracket => exact ⟨nofun, nofun⟩
  | _ => exact Iff.rfl

/-- A question mark is shown for a question mark. -/
theorem isQuestion_iff (i : Item tasks) (previous : Option (Item tasks)) :
    (i.shown previous).1 = .mark .question ↔ i.isQuestion := by
  cases i with
  | mark m hslash htag =>
      show Token.Kind.mark (Item.markAfter previous m) = .mark .question ↔ decide (m = .question)
      rw [decide_eq_true_iff, ← markAfter_question_iff previous]
      constructor
      · exact Token.Kind.mark.inj
      · exact congrArg Token.Kind.mark
  | _ => exact ⟨nofun, nofun⟩

/-- No item stands for the end of the text. -/
theorem shown_ne_endOfText (i : Item tasks) (previous : Option (Item tasks)) :
    (i.shown previous).1 ≠ .endOfText := by
  cases i <;> exact nofun

/-- The cursor behind an item, once its token was given. -/
theorem Between.item {i : Item tasks} {t : Token} {next : State}
    (h : Between state front (i.spelling ++ rest) previous)
    (hgives : Gives state i.spelling (i.shown previous) t next) :
    Between { next with after := some t.kind } (front ++ i.spelling) rest (some i) := by
  obtain ⟨c, tail, hspelling, hc⟩ := i.beginsVisibly
  refine ⟨?_, ?_, hgives.template.trans h.template, hgives.openTag.trans h.openTag,
    hgives.lineStart.trans h.lineStart, ?_, ?_, ?_⟩
  · rw [hgives.moves.text, h.text, List.append_assoc]
  · rw [hgives.moves.pos, h.pos, byteLength_append]
  · show next.options.tasks = tasks
    rw [hgives.moves.options, h.tasks_eq]
  · rw [hspelling, List.all_append, List.all_cons, Scan.isBlank_of_isVisible hc, Bool.false_and,
      Bool.and_false]
    rfl
  · have hkind : t.kind = (i.shown previous).1 := congrArg Prod.fst hgives.kind
    show some t.kind = some (.mark .question) ↔ i.isQuestion
    rw [Option.some.injEq, hkind]
    exact isQuestion_iff i previous

/-! ## Pulling the tokens of items -/

/-- A stream from which the tokens of some items were pulled, and nothing more was scanned. -/
structure Waits (s : TokenStream) (front rest : List Char) (previous : Option (Item tasks)) :
    Prop where
  queue : s.queue = []
  started : s.started
  between : Between s.state front rest previous

/-- The stream is not at its end before a character. -/
theorem Between.atEnd {c : Char} (h : Between state front (c :: rest) previous) :
    state.atEnd = false := by
  rw [Bool.eq_false_iff]
  intro hend
  exact absurd (h.at.atEnd_iff.1 hend) (List.cons_ne_nil c rest)

/-- A space is passed over. -/
theorem pull_space (stepFuel fuel : Nat) (h : Waits s front (' ' :: rest) previous)
    (hrest : Scan.BeginsVisibly rest) :
    ∃ s', pull (stepFuel + 1) (fuel + 1) s = pull (stepFuel + 1) fuel s' ∧
      Waits s' (front ++ [' ']) rest previous := by
  have hstep : Scan.step (stepFuel + 1) s.state = .ok [] { s.state with pos := s.state.pos + 1 } :=
    Scan.step_space h.between.template h.between.at hrest
  exact ⟨_, pull_step h.queue h.between.atEnd hstep, rfl, h.started, h.between.space⟩

/-- The token of an item is pulled. -/
theorem pull_item {i : Item tasks} (stepFuel fuel : Nat)
    (h : Waits s front (i.spelling ++ rest) previous)
      (hspace : front.getLast?.all Unicode.isWhiteSpace)
    (hrest : Ends rest) :
    ∃ t s', pull (stepFuel + 1) (fuel + 2) s = .ok t s' ∧ (t.kind, t.text) = i.shown previous ∧
      Waits s' (front ++ i.spelling) rest (some i) := by
  obtain ⟨t, next, hgives, hstep⟩ := i.reads (h.between.context hspace) h.between.at hrest
  have hend : s.state.atEnd = false := by
    obtain ⟨c, tail, hspelling, -⟩ := i.beginsVisibly
    have hbetween := h.between
    rw [hspelling] at hbetween
    exact hbetween.atEnd
  have hwaits : Waits { s with state := { next with after := some t.kind }, queue := [] }
      (front ++ i.spelling) rest (some i) := ⟨rfl, h.started, h.between.item hgives⟩
  refine ⟨t, _, ?_, hgives.kind, hwaits⟩
  rw [pull_step h.queue hend (hstep stepFuel), pull_queued rfl]

/-- There is fuel for two steps and more. -/
theorem exists_budget (size : Nat) : ∃ fuel, Scan.budget size = fuel + 3 := by
  have hfour : 4 ≤ (size + 2) * (size + 2) :=
    Nat.mul_le_mul (Nat.le_add_left 2 size) (Nat.le_add_left 2 size)
  refine ⟨Scan.budget size - 3, (Nat.sub_add_cancel ?_).symm⟩
  rw [Scan.budget_eq]
  exact Nat.le_trans (by decide) (Nat.mul_le_mul hfour hfour)

/-- The next token is that of the item behind a space. -/
theorem next_item {i : Item tasks} {is : List (Item tasks)}
    (h : Waits s front (following (i :: is)) previous) :
    ∃ t s', next s = .ok t s' ∧ (t.kind, t.text) = i.shown previous ∧
      Waits s' (front ++ [' '] ++ i.spelling) (following is) (some i) := by
  obtain ⟨fuel, hfuel⟩ := exists_budget s.state.size
  obtain ⟨s₁, hspace, h₁⟩ := pull_space (fuel + 2) (fuel + 2) h
    (i.beginsVisibly.append (following is))
  have hlast : (front ++ [' ']).getLast?.all Unicode.isWhiteSpace := by
    rw [List.getLast?_concat]
    decide
  obtain ⟨t, s₂, hitem, hkind, h₂⟩ := pull_item (fuel + 2) fuel h₁ hlast (ends_following is)
  refine ⟨t, s₂, ?_, hkind, h₂⟩
  rw [next_started h.started, hfuel, hspace, hitem]

/-- The first token is that of the first item, before which no space stands. -/
theorem next_first {i : Item tasks} {is : List (Item tasks)}
    (h : Waits s [] (render (i :: is)) (none : Option (Item tasks))) :
    ∃ t s', next s = .ok t s' ∧ (t.kind, t.text) = i.shown none ∧
      Waits s' i.spelling (following is) (some i) := by
  obtain ⟨fuel, hfuel⟩ := exists_budget s.state.size
  rw [render_cons] at h
  obtain ⟨t, s₁, hitem, hkind, h₁⟩ := pull_item (fuel + 2) (fuel + 1) h rfl (ends_following is)
  refine ⟨t, s₁, ?_, hkind, h₁⟩
  rw [next_started h.started, hfuel, hitem]

/-- Behind the last item is the end of the text. -/
theorem next_end (h : Waits s front [] previous) :
    ∃ t, next s = .ok t s ∧ (t.kind, t.text) = (.endOfText, "") := by
  obtain ⟨fuel, hfuel⟩ := exists_budget s.state.size
  refine ⟨s.state.token .endOfText .none s.state.size s.state.size, ?_, rfl⟩
  rw [next_started h.started, hfuel, pull_atEnd h.queue (h.between.at.atEnd_iff.2 rfl), endToken,
    h.between.openTag]

/-- The scan of what is left gives tokens of some kinds and texts, and the end of the text. -/
def Tells (fuel : Nat) (s : TokenStream) (shown : List (Token.Kind × String)) : Prop :=
  ∃ tokens s', fullscanWithin fuel s = .ok tokens s' ∧
    tokens.map (fun t => (t.kind, t.text)) = shown ++ [(.endOfText, "")]

theorem Tells.of_next {shown : List (Token.Kind × String)} (h : Tells fuel s' shown)
    (hnext : next s = next s') : Tells fuel s shown := by
  obtain ⟨tokens, s'', hscan, htokens⟩ := h
  refine ⟨tokens, s'', ?_, htokens⟩
  cases fuel with
  | zero => exact nomatch hscan
  | succ fuel =>
      rw [← hscan]
      show EStateM.bind next _ s = EStateM.bind next _ s'
      rw [EStateM.bind, EStateM.bind, hnext]

/-- The token of an item stands before those of the items behind it. -/
theorem Tells.cons {i : Item tasks} {is : List (Item tasks)} {t : Token}
    (h : Tells fuel s' (shownAfter (some i) is)) (hnext : next s = .ok t s')
    (hkind : (t.kind, t.text) = i.shown previous) :
    Tells (fuel + 1) s (shownAfter previous (i :: is)) := by
  obtain ⟨tokens, s'', hrest, htokens⟩ := h
  have hinner : t.kind ≠ .endOfText := by
    rw [show t.kind = _ from congrArg Prod.fst hkind]
    exact shown_ne_endOfText i previous
  refine ⟨t :: tokens, s'', ?_, ?_⟩
  · rw [fullscanWithin_more hnext hinner, EStateM.map, hrest]
  · rw [List.map_cons, hkind, htokens]
    rfl

/-- The tokens of the items that are left are pulled one by one. -/
theorem Waits.tells (items : List (Item tasks)) (h : Waits s front (following items) previous)
    (hfuel : items.length < fuel) : Tells fuel s (shownAfter previous items) := by
  induction items generalizing s front previous fuel with
  | nil =>
      obtain ⟨fuel, rfl⟩ := Nat.exists_eq_succ_of_ne_zero (Nat.ne_zero_of_lt hfuel)
      obtain ⟨t, hnext, hkind⟩ := next_end h
      refine ⟨[t], s, fullscanWithin_last hnext (congrArg Prod.fst hkind), ?_⟩
      rw [List.map_singleton, hkind]
      rfl
  | cons i is ih =>
      obtain ⟨fuel, rfl⟩ := Nat.exists_eq_succ_of_ne_zero (Nat.ne_zero_of_lt hfuel)
      obtain ⟨t, s₁, hnext, hkind, h₁⟩ := next_item h
      exact (ih h₁ (Nat.lt_of_succ_lt_succ hfuel)).cons hnext hkind

/-! ## Whole texts -/

/-- No byte order mark begins with a visible character. -/
theorem markProblem?_eq_none (h : Scan.BeginsVisibly ds) :
    markProblem? (Text.encodeUtf8 (ds.take 1)) = none := by
  obtain ⟨c, tail, rfl, hc⟩ := h
  have hall : ∀ n : Fin 128, (Text.encodeUtf8 [Char.ofNat n]).length = 1 := by
    decide +kernel
  have hlength : (Text.encodeUtf8 [c]).length = 1 :=
    Scan.forall_of_ascii (P := fun c => (Text.encodeUtf8 [c]).length = 1) hall
      (Scan.isAscii_of_isVisible hc)
  have hmarks : ∀ mark ∈ byteOrderMarks, 1 < mark.1.length := by
    decide
  rw [markProblem?, Option.map_eq_none_iff, List.find?_eq_none]
  intro mark hmark hbegins
  have hle := (List.isPrefixOf_iff_prefix.1 hbegins).length_le
  have hlt := hmarks mark hmark
  exact absurd (Nat.lt_of_lt_of_le hlt (hlength ▸ hle)) (Nat.lt_irrefl 1)

/-- The stream at the start of rendered items. -/
theorem start_render (s : TokenStream) (items : List (Item tasks)) (file : String) :
    s.start (.manifest (render items) file)
      = (.ok (), s.reset (render items) (.document (.ofText (render items) file)) .code) := by
  have hmark : markProblem? (Text.encodeUtf8 ((render items).take 1)) = none := by
    cases items with
    | nil =>
        show markProblem? (Text.encodeUtf8 []) = none
        decide +kernel
    | cons i is => exact markProblem?_eq_none (beginsVisibly_render i is)
  rw [start, startText, checked, hmark]

/-- Nothing of the text is read yet. -/
theorem waits_reset (s : TokenStream) (text : List Char) (source : Text.Source) :
    Waits { s.reset text source .code with started := true } [] text
      (none : Option (Item s.state.options.tasks)) :=
  ⟨rfl, rfl, rfl, rfl, rfl, rfl, rfl, rfl, rfl, nofun, nofun⟩

/-- Nothing is scanned of a manifest before its first token is pulled. -/
theorem next_reset (s : TokenStream) (text : List Char) (source : Text.Source) :
    next (s.reset text source .code) = next { s.reset text source .code with started := true } := by
  have hentry : entryTokens (Scan.budget (s.reset text source .code).state.size) .code
      (s.reset text source .code).state = .ok [] (s.reset text source .code).state := rfl
  have hstarted : { s.reset text source .code with started := true }.started := rfl
  rw [next_entry rfl hentry, next_started hstarted]
  rfl

/-- The scan of rendered items gives their tokens. -/
theorem tells_render (s : TokenStream) (items : List (Item s.state.options.tasks))
    (source : Text.Source) (hfuel : items.length < fuel) :
    Tells fuel (s.reset (render items) source .code) (shownAfter none items) := by
  have hwaits := waits_reset s (render items) source
  refine Tells.of_next ?_ (next_reset s _ source)
  cases items with
  | nil => exact hwaits.tells [] hfuel
  | cons i is =>
      obtain ⟨fuel, rfl⟩ := Nat.exists_eq_succ_of_ne_zero (Nat.ne_zero_of_lt hfuel)
      obtain ⟨t, s₁, hnext, hkind, h₁⟩ := next_first hwaits
      exact (h₁.tells is (Nat.lt_of_succ_lt_succ hfuel)).cons hnext hkind

/-- There are no more items than there is fuel. -/
theorem length_lt_budget (items : List (Item tasks)) :
    items.length < Scan.budget (byteLength (render items)) := by
  have hlength : items.length ≤ byteLength (render items) + 1 := by
    cases items with
    | nil => exact Nat.zero_le _
    | cons i is =>
        have hle := length_le_following is
        rw [render_cons, byteLength_append, List.length_cons]
        omega
  rw [Scan.budget_eq]
  exact Nat.lt_of_lt_of_le (Nat.lt_succ_of_le hlength)
    (Nat.le_trans (Nat.le_mul_self _) (Nat.le_mul_self _))

/-- Items that are written with single spaces between them are scanned to the tokens that they stand
for, and the end of the text. -/
theorem scanAll_render (options : Scan.Options) (items : List (Item options.tasks))
    (file : String) :
    ∃ tokens, scanAll options (.manifest (render items) file) = .ok tokens ∧
      tokens.map (fun t => (t.kind, t.text)) = shownAfter none items ++ [(.endOfText, "")] := by
  obtain ⟨tokens, s', hscan, htokens⟩ := (empty options).tells_render items
    (.document (.ofText (render items) file)) (length_lt_budget items)
  refine ⟨tokens, ?_, htokens⟩
  have hfullscan : fullscan ((empty options).reset (render items)
      (.document (.ofText (render items) file)) .code) = .ok tokens s' := hscan
  rw [scanAll, start_render]
  dsimp only
  rw [hfullscan]

/-- Tokens of rendered items are those that the items stand for, and the end of the text. -/
theorem tokenize_render (items : List (Item false)) (file : String) :
    ∃ tokens, tokenize (render items) file = .ok tokens ∧
      tokens.map (fun t => (t.kind, t.text)) = shownAfter none items ++ [(.endOfText, "")] :=
  scanAll_render .standard items file

/-- The word `plan` is a name where tasks are not allowed; `if`, `true` and `else` are never
names. -/
theorem tokenize_render_words :
    ∃ tokens, tokenize "if plan \x7b true \x7d else [".toList "" = .ok tokens ∧
      tokens.map (fun t => (t.kind, t.text)) =
        [(.keyword .ifWord, "if"), (.name, "plan"), (.mark .openBrace, "\x7b"), (.boolean, "true"),
          (.mark .closeBrace, "\x7d"), (.keyword .elseWord, "else"), (.mark .listStart, "["),
          (.endOfText, "")] := by
  have hplan : ∀ kind, ¬ Token.Reserved false (String.ofList "plan".toList) kind :=
    Token.reserved?_eq_none_iff.1 rfl
  exact tokenize_render [.keyword .ifWord nofun,
    .name "plan".toList (Token.isName_iff.1 (by decide)) hplan, .mark .openBrace nofun rfl,
    .boolean true, .mark .closeBrace nofun rfl, .keyword .elseWord nofun,
    .mark .openBracket nofun rfl] ""

/-- A parenthesis at the start of a line, and a selector: `( 'x' ? {`. -/
example : shownAfter none [(.mark .openParen nofun rfl : Item false), .string ['x'],
      .mark .question nofun rfl, .mark .openBrace nofun rfl]
    = [(.mark .lineParen, "("), (.string, "x"), (.mark .question, "?"),
      (.mark .selectorBrace, "\x7b")] := rfl

end Manifest.TokenStream
