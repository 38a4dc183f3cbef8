import Manifest.Proofs.Template.Written
import Manifest.Proofs.Text.Utf8
import Manifest.Proofs.TokenStream.Written

/-!
# Templates without code

A template of literal texts and comments is read as one text: what the texts say, without the
comments and with the tags that were doubled.

* `markProblem?_of_head?` — only one character begins a byte order mark.
* `fullscan_spelling` — all tokens of such a template.
-/

namespace Manifest.TokenStream

open Scan (State)
open Template (Comment said spelling)
open Text (Source byteLength)

variable {s : TokenStream} {state : State} {text cs : List Char} {next fuel : Nat}

/-! ## Byte order marks -/

/-- A text that does not begin with the character of a byte order mark is scanned. -/
theorem markProblem?_of_head? (h : text.head? ≠ some '\uFEFF') :
    markProblem? (Text.encodeUtf8 (text.take 1)) = none := by
  -- the second byte is one that goes on with a character in one mark alone
  have hmarks : ∀ mark ∈ byteOrderMarks, mark.1.tail ≠ [] ∧
      (mark.1.tail.head?.any Text.isContinuation → mark.1 = [0xEF, 0xBB, 0xBF]) := by
    decide
  rw [markProblem?, Option.map_eq_none_iff, List.find?_eq_none, Text.encodeUtf8_eq]
  intro mark hmark hbegins
  obtain ⟨hne, honly⟩ := hmarks mark hmark
  obtain ⟨b, bytes, hbytes⟩ := List.exists_cons_of_ne_nil hne
  have hmark' : mark.1 ≠ [] := by
    intro hnil
    rw [hnil] at hne
    exact hne rfl
  have hprefix := List.isPrefixOf_iff_prefix.1 hbegins
  cases text with
  | nil => exact hmark' (List.prefix_nil.1 hprefix)
  | cons c cs =>
      have hsingle : ((c :: cs).take 1).flatMap String.utf8EncodeChar = String.utf8EncodeChar c :=
        List.append_nil _
      rw [hsingle] at hprefix
      have hb : b ∈ (String.utf8EncodeChar c).tail := by
        obtain ⟨rest, heq⟩ := hprefix
        rw [← heq, List.tail_append_of_ne_nil hmark', hbytes]
        exact List.mem_cons_self
      have hcontinues : mark.1.tail.head?.any Text.isContinuation := by
        rw [hbytes]
        exact Text.isContinuation_of_mem_tail hb
      rw [honly hcontinues] at hprefix
      exact h (congrArg some (Text.eq_byteOrderMark hprefix))

/-! ## Templates -/

/-- The text that a template renders as a whole, unless there is none. -/
def rendered (source : Source) (text cs : List Char) : List Token :=
  if cs.isEmpty then []
  else [⟨.renderString, .text (String.ofList cs), ⟨0, byteLength text⟩, source⟩]

/-- A text without tags is taken as a whole. -/
theorem takeTemplateText_whole (hat : state.At text)
    (h : Template.stretch false state.pos text = .ok ⟨cs, .endOfText, next⟩) :
    Scan.takeTemplateText false state
      = .ok (if cs.isEmpty then [] else [state.textToken .renderString cs state.pos next])
          { state with pos := next, template := some .text, openTag := none } := by
  unfold Scan.takeTemplateText
  rw [Scan.get_bind, hat.rest, h]
  rfl

/-- The first tokens of a template that is one stretch of text. -/
theorem entryTokens_stretch (s : TokenStream) (source : Source)
    (h : Template.stretch false 0 text = .ok ⟨cs, .endOfText, byteLength text⟩) (fuel : Nat) :
    entryTokens fuel .template (s.reset text source .template).state
      = .ok (⟨.templateStart, .none, ⟨0, 0⟩, source⟩ :: rendered source text cs)
          { (s.reset text source .template).state with
            pos := byteLength text, template := some .text } := by
  have hat : State.At { (s.reset text source .template).state with template := some .text } text :=
    ⟨[], rfl, rfl⟩
  have htokens : (if cs.isEmpty then [] else [(s.reset text source .template).state.textToken
      .renderString cs 0 (byteLength text)]) = rendered source text cs := by
    rw [State.textToken, State.token, Nat.max_eq_left (Nat.zero_le _)]
    rfl
  rw [← htokens]
  show EStateM.bind (Scan.takeTemplateText false) _ _ = _
  rw [EStateM.bind, takeTemplateText_whole hat h]
  rfl

/-- A template of literal texts and comments begins with the token that every template begins with,
renders what the texts say, and ends. -/
theorem fullscan_spelling (s : TokenStream) (cs : List Char) (parts : List (Comment × List Char))
    (file : String) (h : (spelling cs parts).head? ≠ some '\uFEFF') :
    (s.start (.template (spelling cs parts) file)).1 = .ok () ∧
      ∃ s', fullscan (s.start (.template (spelling cs parts) file)).2
          = .ok (⟨.templateStart, .none, ⟨0, 0⟩, .document (.ofText (spelling cs parts) file)⟩
            :: rendered (.document (.ofText (spelling cs parts) file)) (spelling cs parts)
              (said cs parts)
            ++ [endOf (.document (.ofText (spelling cs parts) file)) (spelling cs parts)]) s' ∧
        s'.state.diagnostics = [] := by
  have hstretch := Template.stretch_spelling cs parts
  generalize spelling cs parts = text at h hstretch
  rw [start, startText, checked, markProblem?_of_head? h]
  refine ⟨rfl, ?_⟩
  have hsound := s.reset_sound text (.document (.ofText text file)) .template
  have hentry := s.entryTokens_stretch (.document (.ofText text file)) hstretch
    (Scan.budget (byteLength text))
  obtain ⟨hsound', hentered⟩ := fullscan_eq_entered hsound rfl hentry
  rw [hentered]
  exact fullscan_waiting hsound' rfl (decide_eq_true (Nat.le_refl _)) rfl

/-- A comment with the end of a tag in it. -/
def endingComment : Comment where
  body := [' ', '%', '%', '>']
  ends_behind_percent := by
    intro before after h
    -- the two characters stand behind the first two, and nowhere else
    obtain _ | ⟨a, _ | ⟨b, _ | ⟨c, before⟩⟩⟩ := before
    · exact absurd (List.cons.inj h).1 (by decide)
    · exact absurd (List.cons.inj (List.cons.inj (List.cons.inj h).2).2).1 (by decide)
    · rw [(List.cons.inj (List.cons.inj h).2).1.symm]
      rfl
    · have hlength := congrArg List.length h
      simp only [List.length_append, List.length_cons, List.length_nil] at hlength
      omega
  last_ne_percent := by decide
  first_ne_minus := by decide
  last_ne_minus := by decide

/-- `<%>`, the comment and `%>`. -/
def overlapText : List Char :=
  ['<', '%', '%', '>', '<', '%', '#', ' ', '%', '%', '>', '%', '>', '%', '%', '>']

/-- The text around the comment spells the marks of tags. -/
theorem fullscan_spelling_overlap :
    (spelling ['<', '%', '>'] [(endingComment, ['%', '>'])]).head? ≠ some '\uFEFF' ∧
      ∃ s', fullscan ((empty .standard).start (.template overlapText "")).2
        = .ok [⟨.templateStart, .none, ⟨0, 0⟩, .document (.ofText overlapText "")⟩,
            ⟨.renderString, .text (String.ofList ['<', '%', '>', '%', '>']), ⟨0, 16⟩,
              .document (.ofText overlapText "")⟩,
            endOf (.document (.ofText overlapText "")) overlapText] s' := by
  have hhead : (spelling ['<', '%', '>'] [(endingComment, ['%', '>'])]).head? ≠ some '\uFEFF' := by
    decide
  obtain ⟨-, s', hscan, -⟩ := fullscan_spelling (empty .standard) _ _ "" hhead
  exact ⟨hhead, s', hscan⟩

end Manifest.TokenStream
