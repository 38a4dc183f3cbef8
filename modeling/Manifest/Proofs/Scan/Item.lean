import Manifest.Proofs.Quote.Single
import Manifest.Proofs.Scan.Rule
import Manifest.Proofs.Scan.Run
import Manifest.Proofs.Scan.Spelling

/-!
# Items of code

An item is one token to be: a word, a number, a variable, a string or a mark. A step over its
spelling, before a space or at the end of the text, gives the token it stands for.

* `Item` — the items.
* `Item.shown` — the kind and the text of the token of an item, by the item before it.
* `Item.reads` — a step over the spelling of an item gives that token.
-/

namespace Manifest.Scan

open Text (byteLength byteLength_append)
open Token (Mark Lead Ends)

/-! ## Items -/

/-- One token to be. -/
inductive Item (tasks : Bool)
  /-- a keyword; `plan` is one only where tasks are allowed -/
  | keyword (w : Token.Keyword) (htasks : w = .planWord → tasks = true)
  /-- `true` or `false` -/
  | boolean (b : Bool)
  | name (text : List Char) (hshape : text ∈ Token.namePattern)
      (hplain : ∀ kind, ¬ Token.Reserved tasks (String.ofList text) kind)
  /-- a word that is no name -/
  | word (text : List Char) (hshape : text ∈ Token.wordPattern) (hname : text ∉ Token.namePattern)
  | reference (text : List Char) (hshape : text ∈ Token.referencePattern)
  | number (text : List Char) (h : Number.fault? text = none)
  /-- a variable, whose name may be empty -/
  | dollar (text : List Char) (hshape : text = [] ∨ text ∈ Token.variablePattern)
  | string (text : List Char)
  /-- a mark but for the slash, which may begin a regular expression -/
  | mark (m : Mark) (hslash : m ≠ .slash) (htag : endsTag m = false)

variable {tasks : Bool}

namespace Item

/-- How an item is written. -/
def spelling : Item tasks → List Char
  | keyword w _ => w.spelling.toList
  | boolean b => (Token.booleanWord b).toList
  | name text _ _ => text
  | word text _ _ => text
  | reference text _ => text
  | number text _ => text
  | dollar text _ => '$' :: text
  | string text => Quote.singleQuoted text
  | mark m _ _ => m.spelling.toList

/-- The item is a question mark. -/
def isQuestion : Item tasks → Bool
  | mark m _ _ => m = .question
  | _ => false

/-- The mark that is meant by a spelling, by the item before it. -/
def markAfter (previous : Option (Item tasks)) : Mark → Mark
  | .openBracket | .listStart => .listStart
  | .openParen | .lineParen => if previous.isNone then .lineParen else .openParen
  | .openBrace | .selectorBrace =>
      if previous.any isQuestion then .selectorBrace else .openBrace
  | m => m

/-- The kind and the text of the token of an item, by the item before it. -/
def shown (previous : Option (Item tasks)) : Item tasks → Token.Kind × String
  | keyword w _ => (.keyword w, w.spelling)
  | boolean b => (.boolean, Token.booleanWord b)
  | name text _ _ => (.name, String.ofList text)
  | word text _ _ => (.word, String.ofList text)
  | reference text _ => (.reference, String.ofList text)
  | number text _ => (.number, String.ofList text)
  | dollar text _ => (.variable, String.ofList text)
  | string text => (.string, String.ofList text)
  | mark m _ _ => (.mark (markAfter previous m), m.spelling)

end Item

variable {s s' : State} {cs ds rest lead : List Char} {c : Char} {t : Token} {o : Opening}
  {shown : Token.Kind × String} {fuel : Nat}

/-! ## Steps -/

/-- A step over `ds` gives a token of a kind and a text, and changes nothing that later steps look
back to. -/
structure Gives (s : State) (ds : List Char) (shown : Token.Kind × String) (t : Token)
    (s' : State) : Prop where
  kind : (t.kind, t.text) = shown
  moves : s.Moves ds s'
  template : s'.template = s.template
  lineStart : s'.lineStart = s.lineStart
  openTag : s'.openTag = s.openTag
  after : s'.after = s.after

/-- A step over `ds`, with any fuel, gives a token of a kind and a text. -/
def Reads (s : State) (ds : List Char) (shown : Token.Kind × String) : Prop :=
  ∃ t s', Gives s ds shown t s' ∧ ∀ fuel, step (fuel + 1) s = .ok [t] s'

/-- Where one rule takes one token, a step reads it. -/
theorem reads_of_takePlain (htemplate : s.template = none) (hat : s.At cs)
    (ho : opening? false cs = some o) (hhereDoc : o ≠ .hereDoc) (hquote : o ≠ .doubleQuote)
    (h : takePlain o s = .ok [t] s') (hgives : Gives s ds shown t s') : Reads s ds shown := by
  refine ⟨t, s', hgives, ?_⟩
  intro fuel
  have hopening : opening? s.template.isSome s.rest = some o := by
    rw [htemplate, hat.rest]
    exact ho
  rw [step_plain hopening hhereDoc hquote, h]

/-- A token over the whole spelling. -/
theorem gives_token {kind : Token.Kind} {value : Token.Value} {stop : Nat}
    (hstop : stop = s.pos + byteLength ds)
    (hshown : (kind, (s.token kind value s.pos stop).text) = shown) :
    Gives s ds shown (s.token kind value s.pos stop) { s with pos := stop } := by
  subst hstop
  exact ⟨hshown, s.moves_pos ds, rfl, rfl, rfl, rfl⟩

/-- A token that says its whole spelling. -/
theorem gives_text {kind : Token.Kind} {text : List Char} {stop : Nat}
    (hstop : stop = s.pos + byteLength ds) :
    Gives s ds (kind, String.ofList text) (s.textToken kind text s.pos stop)
      { s with pos := stop } :=
  gives_token hstop rfl

/-! ## Reading items -/

/-- What the state keeps of the item before the cursor. -/
structure Context (s : State) (previous : Option (Item tasks)) : Prop where
  template : s.template = none
  tasks_eq : s.options.tasks = tasks
  space : (Text.slice s.text 0 s.pos).getLast?.all Unicode.isWhiteSpace
  blank : (Text.slice s.text (min s.lineStart s.pos) s.pos).all isBlank = previous.isNone
  after : s.after = some (.mark .question) ↔ previous.any Item.isQuestion

/-- A word is reserved, a name, or a word. -/
theorem shown_wordToken (s : State) (text : List Char) (start stop : Nat) :
    ((wordToken s text start stop).kind, (wordToken s text start stop).text)
      = ((Token.reserved? s.options.tasks (String.ofList text)).getD
          (if Token.isName text then .name else .word), String.ofList text) := by
  unfold wordToken
  dsimp only
  split
  next h =>
    rw [h]
    rcases reserved?_boolean h with hword | hword
    · rw [hword]; rfl
    · rw [hword]; rfl
  next kind hboolean h =>
    rw [h]
    rcases reserved?_spec h with ⟨rfl, -⟩ | ⟨w, rfl, hw⟩
    · exact absurd rfl hboolean
    · rw [← hw]; rfl
  next h =>
    rw [h]
    rfl

/-- The token of a word is over its whole spelling. -/
theorem exists_wordToken_eq (s : State) (text : List Char) (start stop : Nat) :
    ∃ kind value, wordToken s text start stop = s.token kind value start stop := by
  obtain ⟨kind, value, heq, -⟩ := exists_wordToken s text [] start stop
  exact ⟨kind, value, heq⟩

/-- A word before a space. -/
theorem reads_word {text : List Char} (htemplate : s.template = none) (hat : s.At (text ++ rest))
    (hrest : Ends rest) (htext : Token.Qualified Token.startsBare Token.WordTail text)
    (hshown : ((Token.reserved? s.options.tasks (String.ofList text)).getD
      (if Token.isName text then .name else .word), String.ofList text) = shown) :
    Reads s text shown := by
  have hword := Token.word?_append htext hrest
  obtain ⟨lead, c, tail, htail, hlead, hc⟩ := htext.exists_head
  have ho : opening? false (text ++ rest) = some .word := by
    rw [htail, List.append_assoc]
    exact opening?_word hlead hc
  obtain ⟨kind, value, heq⟩ := exists_wordToken_eq s text s.pos (s.pos + byteLength text)
  have htoken := shown_wordToken s text s.pos (s.pos + byteLength text)
  rw [heq] at htoken
  refine reads_of_takePlain htemplate hat ho nofun nofun ?_ (gives_token rfl (htoken.trans hshown))
  show takeWord s = _
  rw [takeWord, get_bind, hat.rest, hword]
  dsimp only
  rw [set_bind, List.drop_left, hrest.colons, if_pos rfl, heq]
  rfl

/-- A reference is read as one token. -/
theorem reads_reference {text : List Char} (htemplate : s.template = none)
    (hat : s.At (text ++ rest)) (hrest : Ends rest) (htext : text ∈ Token.referencePattern) :
    Reads s text (.reference, String.ofList text) := by
  have hreference := Token.reference?_append htext hrest
  obtain ⟨lead, c, tail, htail, hlead, hc⟩ :=
    (Token.qualified_of_mem_referencePattern htext).exists_head
  obtain ⟨dangling, ho⟩ : ∃ dangling, opening? false (text ++ rest) =
      some (.reference dangling) := by
    rw [htail, List.append_assoc]
    exact opening?_reference hlead hc
  refine reads_of_takePlain htemplate hat ho nofun nofun ?_ (gives_text rfl)
  show takeReference dangling s = _
  rw [takeReference, get_bind, hat.rest, hreference]
  dsimp only
  rw [set_bind, List.drop_left, hrest.colons, if_pos rfl]
  rfl

/-- A number is read as one token. -/
theorem reads_number {text : List Char} (htemplate : s.template = none)
    (hat : s.At (text ++ rest)) (hrest : Ends rest) (htext : Number.fault? text = none) :
    Reads s text (.number, String.ofList text) := by
  obtain ⟨c, tail, htail, hc⟩ := Token.exists_of_fault? htext
  have ho : opening? false (text ++ rest) = some .number := by
    rw [htail]
    exact opening?_number hc
  refine reads_of_takePlain htemplate hat ho nofun nofun ?_ (gives_text rfl)
  show takeNumber s = _
  rw [takeNumber, get_bind, hat.rest, Token.number_append htext hrest, htext]
  rfl

/-- A variable is read as one token, which says its name. -/
theorem reads_dollar {text : List Char} (htemplate : s.template = none)
    (hat : s.At ('$' :: text ++ rest)) (hrest : Ends rest)
    (htext : text = [] ∨ text ∈ Token.variablePattern) :
    Reads s ('$' :: text) (.variable, String.ofList text) := by
  have hname : (Token.variableName? (text ++ rest)).getD [] = text := by
    rcases htext with rfl | htext
    · rw [List.nil_append, Token.variableName?_end hrest]
      rfl
    · rw [Token.variableName?_append htext hrest]
      rfl
  refine reads_of_takePlain htemplate hat rfl nofun nofun ?_ (gives_text rfl)
  show takeVariable s = _
  rw [takeVariable, get_bind, hat.rest]
  show takeText .variable ('$' :: (Token.variableName? (text ++ rest)).getD [])
    ((Token.variableName? (text ++ rest)).getD []) s = _
  rw [hname]
  rfl

/-- A text in single quotes is read as one token, which says the text. -/
theorem reads_string {text : List Char} (htemplate : s.template = none)
    (hat : s.At (Quote.singleQuoted text ++ rest)) :
    Reads s (Quote.singleQuoted text) (.string, String.ofList text) := by
  rw [Quote.singleQuoted_append] at hat
  have hsize : s.pos + 1 + byteLength (text.flatMap Quote.escapeQuote) + 1
      = s.pos + byteLength (Quote.singleQuoted text) := by
    rw [Quote.byteLength_singleQuoted]
    omega
  refine reads_of_takePlain htemplate hat rfl nofun nofun ?_ (gives_text hsize)
  show takeSingleQuoted s = _
  rw [takeSingleQuoted, get_bind, hat.rest, List.drop_succ_cons, List.drop_zero,
    Quote.collect_singleQuoted]
  rfl

/-- A mark is taken from a state with other braces open. -/
theorem reads_takeMark {m n : Mark} {depth : Nat} (htemplate : s.template = none)
    (hat : s.At (m.spelling.toList ++ rest))
      (ho : opening? false (m.spelling.toList ++ rest) = some o)
    (hhereDoc : o ≠ .hereDoc) (hquote : o ≠ .doubleQuote) (hspelling : n.spelling = m.spelling)
    (h : takePlain o s = takeMark n { s with braceDepth := depth }) :
    Reads s m.spelling.toList (.mark n, m.spelling) := by
  rw [← hspelling] at hat ho ⊢
  exact reads_of_takePlain htemplate hat ho hhereDoc hquote h
    ⟨rfl, ⟨rfl, rfl, rfl, rfl, rfl⟩, rfl, rfl, rfl, rfl⟩

/-- A mark is read as itself unless its kind depends on what is around it. -/
theorem reads_plainMark {m : Mark} (htemplate : s.template = none)
    (hat : s.At (m.spelling.toList ++ rest)) (hrest : Ends rest) (hm : m ∈ plainMarks) :
    Reads s m.spelling.toList (.mark m, m.spelling) :=
  reads_takeMark htemplate hat (opening?_mark hm hrest) nofun nofun rfl rfl

/-- Marks that are not plain are brackets, parentheses and braces. -/
theorem Mark.mem_plainMarks {m : Mark} (hslash : m ≠ .slash) (htag : endsTag m = false) :
    m ∈ plainMarks ∨ m ∈ [.openBracket, .listStart, .openParen, .lineParen, .openBrace,
      .selectorBrace, .closeBrace] := by
  revert hslash htag
  cases m <;> decide

/-- A plain mark is meant as it is spelled. -/
theorem markAfter_of_mem {previous : Option (Item tasks)} {m : Mark} (h : m ∈ plainMarks) :
    Item.markAfter previous m = m := by
  revert h
  cases m <;> first | exact fun _ => rfl | exact fun h => absurd h (by decide)

/-- Every mark is read as the one that is meant. -/
theorem reads_mark {previous : Option (Item tasks)} {m : Mark} (h : Context s previous)
    (hat : s.At (m.spelling.toList ++ rest)) (hrest : Ends rest) (hslash : m ≠ .slash)
    (htag : endsTag m = false) :
    Reads s m.spelling.toList (.mark (Item.markAfter previous m), m.spelling) := by
  have hbracket : takePlain .bracket s = takeMark .listStart s := by
    rw [takePlain, takeBracket_eq, if_pos h.space]
  have hparen : takePlain .paren s
      = takeMark (if previous.isNone then .lineParen else .openParen) s := by
    rw [takePlain, takeParen_eq, h.blank]
  have hbrace : takePlain .brace s
      = takeMark (if previous.any Item.isQuestion then .selectorBrace else .openBrace)
        { s with braceDepth := s.braceDepth + 1 } := by
    rw [takePlain, takeBrace_eq]
    congr 1
    exact if_congr h.after rfl rfl
  have hopenParen : (if previous.isNone then Mark.lineParen else .openParen).spelling = "(" := by
    split
    · rfl
    · rfl
  have hopenBrace : (if previous.any Item.isQuestion then Mark.selectorBrace
      else .openBrace).spelling = "\x7b" := by
    split
    · rfl
    · rfl
  rcases Mark.mem_plainMarks hslash htag with hm | hm
  · rw [markAfter_of_mem hm]
    exact reads_plainMark h.template hat hrest hm
  · simp only [List.mem_cons, List.not_mem_nil, or_false] at hm
    rcases hm with rfl | rfl | rfl | rfl | rfl | rfl | rfl
    · exact reads_takeMark h.template hat rfl (by decide) (by decide) rfl hbracket
    · exact reads_takeMark h.template hat rfl (by decide) (by decide) rfl hbracket
    · exact reads_takeMark h.template hat rfl (by decide) (by decide) hopenParen hparen
    · exact reads_takeMark h.template hat rfl (by decide) (by decide) hopenParen hparen
    · exact reads_takeMark h.template hat rfl (by decide) (by decide) hopenBrace hbrace
    · exact reads_takeMark h.template hat rfl (by decide) (by decide) hopenBrace hbrace
    · exact reads_takeMark h.template hat rfl (by decide) (by decide) rfl (takeCloseBrace_eq s)

/-- Reserved words are names. -/
theorem mem_namePattern_of_reserved {word : String} {kind : Token.Kind}
    (h : Token.Reserved tasks word kind) : word.toList ∈ Token.namePattern := by
  have hboolean : ∀ b, Token.isName (Token.booleanWord b).toList := by
    decide
  have hkeyword : ∀ w : Token.Keyword, Token.isName w.spelling.toList := by
    intro w
    cases w <;> decide
  rw [← Token.isName_iff]
  cases h with
  | boolean b => exact hboolean b
  | keyword w => exact hkeyword w

/-- A reserved word before a space. -/
theorem reads_reserved {word : String} {kind : Token.Kind} (h : Token.Reserved tasks word kind)
    (htemplate : s.template = none) (htasks : s.options.tasks = tasks)
    (hat : s.At (word.toList ++ rest)) (hrest : Ends rest) : Reads s word.toList (kind, word) := by
  refine reads_word htemplate hat hrest
    (Token.qualified_of_mem_namePattern (mem_namePattern_of_reserved h)) ?_
  rw [htasks, String.ofList_toList, Token.reserved?_eq_some_iff.2 h]
  rfl

/-- A word that is not reserved before a space. -/
theorem reads_unreserved {text : List Char}
    (hplain : ∀ kind, ¬ Token.Reserved tasks (String.ofList text) kind)
    (htext : Token.Qualified Token.startsBare Token.WordTail text) (htemplate : s.template = none)
    (htasks : s.options.tasks = tasks) (hat : s.At (text ++ rest)) (hrest : Ends rest) :
    Reads s text (if Token.isName text then .name else .word, String.ofList text) := by
  refine reads_word htemplate hat hrest htext ?_
  rw [htasks, Token.reserved?_eq_none_iff.2 hplain]
  rfl

/-- A step over the spelling of an item, before a space or at the end of the text, gives the token
that the item stands for. -/
theorem Item.reads (i : Item tasks) {previous : Option (Item tasks)} (h : Context s previous)
    (hat : s.At (i.spelling ++ rest)) (hrest : Ends rest) :
    Reads s i.spelling (i.shown previous) := by
  cases i with
  | keyword w htasks => exact reads_reserved (.keyword w htasks) h.template h.tasks_eq hat hrest
  | boolean b => exact reads_reserved (.boolean b) h.template h.tasks_eq hat hrest
  | name text hshape hplain =>
      have hreads := reads_unreserved hplain (Token.qualified_of_mem_namePattern hshape) h.template
        h.tasks_eq hat hrest
      rwa [if_pos (Token.isName_iff.2 hshape)] at hreads
  | word text hshape hname =>
      have hplain : ∀ kind, ¬ Token.Reserved tasks (String.ofList text) kind := by
        intro kind hkind
        exact hname (String.toList_ofList (l := text) ▸ mem_namePattern_of_reserved hkind)
      have hreads := reads_unreserved hplain (Token.qualified_of_mem_wordPattern hshape) h.template
        h.tasks_eq hat hrest
      rwa [if_neg fun hn => hname (Token.isName_iff.1 hn)] at hreads
  | reference text hshape => exact reads_reference h.template hat hrest hshape
  | number text hfault => exact reads_number h.template hat hrest hfault
  | dollar text hshape => exact reads_dollar h.template hat hrest hshape
  | string text => exact reads_string h.template hat
  | mark m hslash htag => exact reads_mark h hat hrest hslash htag

/-! ## Between items -/

/-- One space before a visible character is passed over. -/
theorem step_space (htemplate : s.template = none) (hat : s.At (' ' :: rest))
    (hrest : BeginsVisibly rest) : step (fuel + 1) s = .ok [] { s with pos := s.pos + 1 } := by
  obtain ⟨c, tail, rfl, hc⟩ := hrest
  have hopening : opening? s.template.isSome s.rest = some .blank := by
    rw [htemplate, hat.rest]
    rfl
  have hblanks : (' ' :: c :: tail).takeWhile isBlank = [' '] := by
    rw [List.takeWhile_cons_of_pos (by decide), List.takeWhile_cons_of_neg]
    rw [isBlank_of_isVisible hc]
    exact Bool.false_ne_true
  rw [step_plain hopening nofun nofun, takePlain, get_bind, hat.rest, hblanks]
  rfl

/-- The spelling of an item begins with a visible character. -/
theorem Item.beginsVisibly (i : Item tasks) : BeginsVisibly i.spelling := by
  cases i with
  | keyword w htasks =>
      exact beginsVisibly_of_qualified
        (Token.qualified_of_mem_namePattern (mem_namePattern_of_reserved (.keyword w htasks)))
  | boolean b =>
      exact beginsVisibly_of_qualified (Token.qualified_of_mem_namePattern
        (mem_namePattern_of_reserved (.boolean b : Token.Reserved tasks _ _)))
  | name text hshape =>
      exact beginsVisibly_of_qualified (Token.qualified_of_mem_namePattern hshape)
  | word text hshape =>
      exact beginsVisibly_of_qualified (Token.qualified_of_mem_wordPattern hshape)
  | reference text hshape =>
      obtain ⟨lead, c, tail, rfl, hlead, hc⟩ :=
        (Token.qualified_of_mem_referencePattern hshape).exists_head
      exact beginsVisibly_of_lead hlead (Token.isWordChar_of_isUpper hc)
  | number text hfault =>
      obtain ⟨c, tail, rfl, hc⟩ := Token.exists_of_fault? hfault
      exact ⟨c, tail, rfl, isVisible_of_isWordChar (Token.isWordChar_of_isDigit hc)⟩
  | dollar text => exact ⟨'$', text, rfl, by decide⟩
  | string text => exact ⟨'\'', _, rfl, by decide⟩
  | mark m => exact beginsVisibly_mark m

end Manifest.Scan
