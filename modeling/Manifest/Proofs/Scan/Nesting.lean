import Manifest.Proofs.Scan.Layout
import Manifest.Proofs.Scan.Quiet

/-!
# How strings nest

The tokens of a string with interpolations begin with its first fragment and end with its last one,
and the code between two fragments is a scan again. The brace that ends this code is known by the
number of braces that are open alone, and a string leaves this number as it found it. In a text
without here-docs the braces in the code of a string are balanced.

* `Runs.balanced` — the fragments among the tokens of a scan are balanced.
* `step_braceDepth` — a string leaves the number of open braces as it is.
* `Runs.leveled` — the braces in each open string, for a text without here-docs.
-/

namespace Manifest.Scan

open Token (Role depthAfter depthAfter_append depthAfter_cons levelsAfter levelsAfter_append
  levelsAfter_cons levelsBehind)

variable {s s' : State} {ts us : List Token} {t : Token} {task : Task} {q : Quoting}
  {run : Quote.Run} {role : Token.Kind → Role} {n : Nat} {levels : List Nat}

/-! ## Tokens of code -/

/-- The pairs of some tokens are balanced. -/
def Balanced (role : Token.Kind → Role) (ts : List Token) : Prop :=
  ∀ n, depthAfter role n ts = some n

theorem balanced_nil : Balanced role [] := fun _ => rfl

/-- Balanced tokens in a row. -/
theorem Balanced.append (h : Balanced role ts) (h' : Balanced role us) :
    Balanced role (ts ++ us) := by
  intro n
  rw [depthAfter_append, h n]
  exact h' n

/-- Tokens that begin and end nothing are balanced. -/
theorem Inert.strings (h : Inert ts) : Balanced Token.Kind.stringRole ts :=
  fun _ => Token.depthAfter_inert fun t ht => Token.Kind.stringRole_of_isInert (h t ht)

/-- A brace is balanced as far as strings go. -/
theorem Braced.strings (h : Braced s ts s') : Balanced Token.Kind.stringRole ts := by
  obtain ⟨t, rfl, ht⟩ := h.stringRole
  exact fun _ => Token.depthAfter_cons_inert ht

/-- What stands for a variable belongs to no pair. -/
theorem isInert_of_namesVariable {k : Token.Kind} (h : namesVariable k) : k.isInert := by
  cases k with
  | mark m => exact nomatch h
  | stringStart => exact nomatch h
  | stringMiddle => exact nomatch h
  | stringEnd => exact nomatch h
  | _ => rfl

/-- A token that becomes a variable belongs to no pair, and nor does the variable. -/
theorem asVariable_inert (ts : List Token) : asVariable ts = ts ∨
    ∃ t u us, ts = t :: us ∧ asVariable ts = u :: us ∧ t.kind.isInert ∧ u.kind.isInert := by
  rcases asVariable_changes ts with heq | ⟨t, us, value, hts, hnames, heq⟩
  · exact .inl heq
  · exact .inr ⟨t, _, us, hts, heq, isInert_of_namesVariable hnames, rfl⟩

/-- Names that become variables are balanced. -/
theorem Balanced.asVariable (h : Balanced Token.Kind.stringRole ts) :
    Balanced Token.Kind.stringRole (asVariable ts) := by
  rcases asVariable_inert ts with heq | ⟨t, u, us, rfl, heq, ht, hu⟩
  · rwa [heq]
  · intro n
    have hts := h n
    rw [Token.depthAfter_cons_inert (Token.Kind.stringRole_of_isInert ht)] at hts
    rw [heq, Token.depthAfter_cons_inert (Token.Kind.stringRole_of_isInert hu), hts]

/-- Names that become variables open and close no level. -/
theorem levelsAfter_asVariable : levelsAfter levels (asVariable ts) = levelsAfter levels ts := by
  rcases asVariable_inert ts with heq | ⟨t, u, us, rfl, heq, ht, hu⟩
  · rw [heq]
  · rw [heq, levelsAfter_cons, levelsAfter_cons, Token.levelsBehind_inert ht,
      Token.levelsBehind_inert hu]

/-! ## Fragments -/

/-- How many strings are open before a fragment, when `n` are open around its string. -/
def openBefore (first : Bool) (n : Nat) : Nat := if first then n else n + 1

/-- The first fragment opens a string when another one follows it. -/
theorem turn_fragmentKind (first : Bool) (n : Nat) :
    (fragmentKind first).stringRole.turn (openBefore first n) = some (n + 1) := by
  cases first with
  | true => rfl
  | false => rfl

/-- The last fragment closes the string, unless it is the only one. -/
theorem turn_last (first : Bool) (n : Nat) :
    (if first then Token.Kind.string else .stringEnd).stringRole.turn (openBefore first n)
      = some n := by
  cases first with
  | true => rfl
  | false => rfl

/-- What a task gives, as far as strings go: the rest of a string closes it, and everything else is
balanced. -/
def Task.Closes (ts : List Token) : Task → Prop
  | .fragments _ _ first _ =>
      ∀ n, depthAfter Token.Kind.stringRole (openBefore first n) ts = some n
  | .code _ tokens => Balanced Token.Kind.stringRole tokens → Balanced Token.Kind.stringRole ts
  | .step | .hereDoc => Balanced Token.Kind.stringRole ts

/-- The fragments of strings are balanced in all that a scan gives. -/
theorem Runs.balanced (h : Runs task s ts s') : task.Closes ts := by
  induction h with
  | nothing => exact balanced_nil
  | quoted h hrun ih => exact ih
  | documented h hrun ih => exact ih
  | plain h hhereDoc hquote htake =>
      obtain ⟨-, ⟨-, hinert⟩ | hbraced⟩ := takePlain_cases h htake
      · exact hinert.strings
      · exact hbraced.strings
  | @last q start first pending s s' run hrun hstop =>
      intro n
      rw [depthAfter_cons]
      show Option.bind (Role.turn (Token.Kind.stringRole (if first then .string else .stringEnd))
        (openBefore first n)) _ = _
      rw [turn_last]
      rfl
  | @braces q start first pending s s₁ s₂ s₃ run code rest hrun hstop hcode hrest ihcode ihrest =>
      intro n
      rw [List.cons_append, depthAfter_cons]
      show Option.bind (Role.turn (fragmentKind first).stringRole (openBefore first n)) _ = _
      rw [turn_fragmentKind, Option.bind_some, depthAfter_append, ihcode balanced_nil (n + 1)]
      exact ihrest n
  | @reference q start first pending s s₁ s₂ run name rest hrun hstop hname hrest ih =>
      intro n
      rw [depthAfter_cons]
      show Option.bind (Role.turn (fragmentKind first).stringRole (openBefore first n)) _ = _
      rw [turn_fragmentKind, Option.bind_some, Token.depthAfter_cons_inert rfl]
      exact ih n
  | dollar hrun hstop hname hrest ih => exact ih
  | ended => exact id
  | closed => exact Balanced.asVariable
  | more hend hstep hcloses hrest ihstep ihrest =>
      exact fun htokens => ihrest (htokens.append ihstep)
  | @hereDoc s s₁ done found tokens hfound hbody ih =>
      have htokens : Inert (found.tokens s₁) :=
        List.forall_mem_cons.2 ⟨rfl, List.forall_mem_singleton.2 rfl⟩
      exact htokens.strings.append ih

/-! ## The number of open braces -/

/-- A run of quoted text opens and closes no brace. -/
theorem takeRun_keeps (h : takeRun q s = .ok run s') :
    s'.text = s.text ∧ s'.braceDepth = s.braceDepth := by
  obtain ⟨-, ds, rfl⟩ := takeRun_ok h
  exact ⟨rfl, rfl⟩

/-- Behind the end of a text there is nothing. -/
theorem dropBytes?_of_le {cs : List Char} (h : Text.byteLength cs ≤ n) :
    (Text.dropBytes? cs n).getD [] = [] := by
  induction cs generalizing n with
  | nil => cases n <;> rfl
  | cons c cs ih =>
      rw [Text.byteLength] at h
      have hpos := c.utf8Size_pos
      cases n with
      | zero => omega
      | succ n =>
          rw [Text.dropBytes?]
          split
          · exact ih (by omega)
          · rfl

/-- At the end of the text nothing is left of it. -/
theorem State.rest_of_atEnd (h : s.atEnd) : s.rest = [] := dropBytes?_of_le (of_decide_eq_true h)

/-- At its end, text with quotes goes no further, and text without them ends. -/
theorem takeRun_of_atEnd (h : takeRun q s = .ok run s') (hend : s.atEnd) :
    q.mode.quote? = none ∧ run.stop = .endOfText := by
  obtain ⟨hrun, -⟩ := takeRun_ok h
  rw [State.rest_of_atEnd hend, Quote.collect] at hrun
  split at hrun
  next => cases hrun
  next hquote =>
    obtain rfl := Except.ok.inj hrun
    exact ⟨by simpa using hquote, rfl⟩

/-- At the end of the text there is but one fragment, and only where the text has no quotes. -/
theorem Runs.fragments_of_atEnd {start : Nat} {first : Bool} {pending : List Char}
    (h : Runs (.fragments q start first pending) s ts s') (hend : s.atEnd) :
    q.mode.quote? = none ∧ ∃ t, ts = [t] := by
  cases h with
  | last hrun => exact ⟨(takeRun_of_atEnd hrun hend).1, _, rfl⟩
  | braces hrun hstop => exact nomatch hstop.symm.trans (takeRun_of_atEnd hrun hend).2
  | reference hrun hstop => exact nomatch hstop.symm.trans (takeRun_of_atEnd hrun hend).2
  | dollar hrun hstop => exact nomatch hstop.symm.trans (takeRun_of_atEnd hrun hend).2

/-- Text without quotes is read to the end. -/
theorem Runs.atEnd_of_unquoted {start : Nat} {first : Bool} {pending : List Char}
    (h : Runs (.fragments q start first pending) s ts s') (hsound : s.Sound)
    (hquote : q.mode.quote? = none) : s'.atEnd := by
  generalize htask : Task.fragments q start first pending = task at h
  induction h generalizing q start first pending with
  | last hrun hstop =>
      obtain ⟨rfl, -, -, -⟩ := Task.fragments.inj htask
      obtain ⟨_, rest, -, -, -, hat, hstops⟩ := takeRun_advances hsound hrun
      refine hat.atEnd_iff.2 ?_
      rcases hstop with hstop | hstop
      · rw [hstop] at hstops
        cases hstops with
        | quote _ _ h => exact nomatch hquote.symm.trans h
      · rw [hstop] at hstops
        cases hstops with
        | endOfText => rfl
  | @braces q start first pending s s₁ s₂ s₃ run code rest hrun hstop hcode hrest ihcode ihrest =>
      obtain ⟨rfl, -, -, -⟩ := Task.fragments.inj htask
      obtain ⟨_, _, hkeeps, -⟩ := takeRun_advances hsound hrun
      have hdeeper : State.Sound { s₁ with braceDepth := s₁.braceDepth + 1 } :=
        hkeeps.sound.congr rfl rfl rfl
      exact ihrest (hcode.advances hdeeper trivial).1.sound hquote rfl
  | @reference q start first pending s s₁ s₂ run name rest hrun hstop hname hrest ih =>
      obtain ⟨rfl, -, -, -⟩ := Task.fragments.inj htask
      obtain ⟨_, _, hkeeps, -, hpos, -⟩ := takeRun_advances hsound hrun
      have hnamed := (name_advances hkeeps.sound hname).1.sound
      rw [hpos] at hnamed
      exact ih hnamed hquote rfl
  | dollar hrun hstop hname hrest ih =>
      obtain ⟨rfl, -, -, -⟩ := Task.fragments.inj htask
      obtain ⟨_, _, hkeeps, -⟩ := takeRun_advances hsound hrun
      exact ih hkeeps.sound hquote rfl
  | _ => exact nomatch htask

/-- What a task does to the number of open braces: text in quotes leaves it alone, and code ends at
the brace that leaves `depth` of them open, or with the text. -/
def Task.Reaches (s s' : State) : Task → Prop
  | .fragments q _ _ _ => q.mode.quote?.isSome → s'.braceDepth = s.braceDepth
  | .code depth _ => s'.braceDepth = depth ∨ s'.atEnd
  | .step | .hereDoc => True

/-- What closes code stands at the depth at which the code began. -/
theorem braceDepth_of_closes {depth : Nat} (h : closes depth ts s) : s.braceDepth = depth := by
  unfold closes at h
  split at h
  next => exact of_decide_eq_true (Bool.and_eq_true_iff.1 h).2
  next => exact absurd h Bool.false_ne_true

/-- A run reaches what its task asks for. -/
theorem Runs.reaches (h : Runs task s ts s') : task.Reaches s s' := by
  induction h with
  | nothing => trivial
  | quoted => trivial
  | documented => trivial
  | plain => trivial
  | last hrun => exact fun _ => (takeRun_keeps hrun).2
  | braces hrun hstop hcode hrest ihcode ihrest =>
      intro hquote
      rcases ihcode with hdepth | hend
      · exact (ihrest hquote).trans (hdepth.trans (takeRun_keeps hrun).2)
      · -- the quote that ends the text is still to come
        rw [(hrest.fragments_of_atEnd hend).1] at hquote
        exact nomatch hquote
  | reference hrun hstop hname hrest ih =>
      exact fun hquote => (ih hquote).trans (takeRun_keeps hrun).2
  | dollar hrun hstop hname hrest ih =>
      exact fun hquote => (ih hquote).trans (takeRun_keeps hrun).2
  | ended hend => exact .inr hend
  | closed hend hstep hcloses => exact .inl (braceDepth_of_closes hcloses)
  | more hend hstep hcloses hrest ihstep ihrest => exact ihrest
  | hereDoc => trivial

/-- A string in double quotes leaves the number of open braces as it was before the string. -/
theorem step_braceDepth {fuel : Nat} (h : opening? s.template.isSome s.rest = some .doubleQuote)
    (hstep : step fuel s = .ok ts s') : s'.braceDepth = s.braceDepth := by
  have hrun : Task.step.run fuel s = .ok ts s' := hstep
  have hruns : Runs .step s ts s' := runs_of_run hrun
  cases hruns with
  | nothing hnone => exact nomatch h.symm.trans hnone
  | quoted _ hrun => exact hrun.reaches rfl
  | documented hhereDoc => exact nomatch Option.some.inj (h.symm.trans hhereDoc)
  | plain hplain _ hquote => exact absurd (Option.some.inj (hplain.symm.trans h)) hquote

/-! ## Levels -/

/-- Nothing in the text can begin a here-doc. -/
def Undocumented (cs : List Char) : Prop := ¬ ['@', '('] <:+: cs

theorem dropBytes_isSuffix (cs : List Char) (n : Nat) : Text.dropBytes cs n <:+ cs := by
  unfold Text.dropBytes
  induction cs generalizing n with
  | nil =>
      cases n with
      | zero => exact List.suffix_refl _
      | succ n => exact List.nil_suffix
  | cons c cs ih =>
      cases n with
      | zero => exact List.suffix_refl _
      | succ n =>
          rw [Text.dropBytes?]
          split
          · exact (ih _).trans (List.suffix_cons c cs)
          · exact List.nil_suffix

/-- Text without `@(` opens no here-doc. -/
theorem Undocumented.opening_ne (h : Undocumented s.text) {inTemplate : Bool} :
    opening? inTemplate s.rest ≠ some .hereDoc := by
  intro hopening
  obtain ⟨rest, hrest⟩ := opening?_begins hopening
  refine h (List.IsInfix.trans ⟨[], rest, hrest⟩ ?_)
  exact (dropBytes_isSuffix s.text s.pos).isInfix

/-- A task goes on with the same text. -/
theorem Runs.text (h : Runs task s ts s') : s'.text = s.text := by
  induction h with
  | nothing => rfl
  | quoted h hrun ih => exact ih
  | documented h hrun ih => exact ih
  | plain h hhereDoc hquote htake => exact (takePlain_cases h htake).1
  | last hrun => exact (takeRun_keeps hrun).1
  | braces hrun hstop hcode hrest ihcode ihrest =>
      exact ihrest.trans (ihcode.trans (takeRun_keeps hrun).1)
  | reference hrun hstop hname hrest ih => exact ih.trans (takeRun_keeps hrun).1
  | dollar hrun hstop hname hrest ih => exact ih.trans (takeRun_keeps hrun).1
  | ended => rfl
  | closed hend hstep hcloses ih => exact ih
  | @more depth tokens batch ts s s' s'' hend hstep hcloses hrest ihstep ihrest =>
      obtain ⟨k, hk⟩ := passed_eq s' batch
      rw [hk] at ihrest
      exact ihrest.trans ihstep
  | hereDoc hfound => exact (quiet_takeHereDoc _ _ hfound).1

/-- What is open before a fragment of a string in which no brace is open. -/
def levelsBefore (first : Bool) (levels : List Nat) : List Nat :=
  if first then levels else 0 :: levels

/-- A fragment opens a level without braces. -/
theorem levelsBehind_fragment {first : Bool} (h : t.kind = fragmentKind first) :
    levelsBehind (levelsBefore first levels) t = some (0 :: levels) := by
  unfold levelsBehind
  rw [h]
  cases first with
  | true => rfl
  | false => rfl

/-- The last fragment gives back the level before the string. -/
theorem levelsBehind_last {first : Bool}
    (h : t.kind = if first then .string else .stringEnd) :
    levelsBehind (levelsBefore first levels) t = some levels := by
  cases first with
  | true => exact Token.levelsBehind_inert (by rw [h]; rfl)
  | false =>
      unfold levelsBehind
      rw [h]
      rfl

/-- What a task does to the braces in the strings that are open. A step closes what it opens, or
takes a brace. Text in quotes closes what it opens, and so does text without quotes up to its last
fragment. Code has as many braces open as the state counts above `depth`, and none at its end,
unless that is the end of the text. -/
def Task.Levels (s : State) (ts : List Token) (s' : State) : Task → Prop
  | .step => (s'.braceDepth = s.braceDepth ∧ ∀ levels, levelsAfter levels ts = some levels) ∨
      Braced s ts s'
  | .fragments q _ first _ => ∀ levels,
      (q.mode.quote?.isSome → levelsAfter (levelsBefore first levels) ts = some levels) ∧
      ∃ ns, levelsAfter (levelsBefore first levels) ts.dropLast = some ns
  | .code depth tokens => ∀ levels n, s.braceDepth = depth + 1 + n →
      levelsAfter (0 :: levels) tokens = some (n :: levels) →
      ∃ n', levelsAfter (0 :: levels) ts = some (n' :: levels) ∧ (n' = 0 ∨ s'.atEnd)
  | .hereDoc => True

/-- A step inside a string: the braces that are open in it follow the state. -/
theorem levels_step {depth : Nat} (h : Task.step.Levels s ts s')
    (hdepth : s.braceDepth = depth + 1 + n) (hcloses : closes depth ts s' = false) :
    ∃ n', s'.braceDepth = depth + 1 + n' ∧
      levelsAfter (n :: levels) ts = some (n' :: levels) := by
  rcases h with ⟨hsame, hlevels⟩ | hbraced
  · exact ⟨n, hsame.trans hdepth, hlevels _⟩
  · cases hbraced with
    | opens hrole hdepth' =>
        refine ⟨n + 1, by rw [hdepth', hdepth]; rfl, ?_⟩
        rw [Token.levelsAfter_singleton, Token.levelsBehind_brace (by rw [hrole]; exact nofun),
          hrole]
        rfl
    | @closes t s' hkind hdepth' =>
        cases n with
        | zero =>
            -- the brace leaves as many open as there are outside the code, and closes it
            have hdepth' : s'.braceDepth = depth := by rw [hdepth', hdepth]; rfl
            rw [closes, hkind, hdepth'] at hcloses
            exact absurd hcloses (by simp)
        | succ n =>
            refine ⟨n, by rw [hdepth', hdepth]; rfl, ?_⟩
            rw [Token.levelsAfter_singleton, Token.levelsBehind_brace (by rw [hkind]; exact nofun),
              hkind]
            rfl

/-- Code between two fragments, with the rest of its string. -/
theorem levels_rest {code rest : List Token}
    (hcode : levelsAfter (0 :: levels) code = some (n :: levels))
    (hn : n = 0 ∨ ∃ t, rest = [t])
    (hrest : ∃ ns, levelsAfter (0 :: levels) rest.dropLast = some ns) :
    ∃ ns, levelsAfter (0 :: levels) (code ++ rest.dropLast) = some ns := by
  rw [levelsAfter_append, hcode, Option.bind_some]
  rcases hn with rfl | ⟨t, rfl⟩
  · exact hrest
  · exact ⟨_, rfl⟩

/-- A fragment before others. -/
theorem levels_cons {first : Bool} (h : t.kind = fragmentKind first) :
    levelsAfter (levelsBefore first levels) (t :: ts) = levelsAfter (0 :: levels) ts := by
  rw [levelsAfter_cons, levelsBehind_fragment h, Option.bind_some]

/-- There is a fragment at least. -/
theorem Runs.fragments_ne_nil {start : Nat} {first : Bool} {pending : List Char}
    (h : Runs (.fragments q start first pending) s ts s') : ts ≠ [] := by
  generalize htask : Task.fragments q start first pending = task at h
  induction h generalizing q start first pending with
  | last => exact List.cons_ne_nil _ _
  | braces => exact List.cons_ne_nil _ _
  | reference => exact List.cons_ne_nil _ _
  | dollar hrun hstop hname hrest ih => exact ih rfl
  | _ => exact nomatch htask

/-- In a text without here-docs, the braces in the code of a string are balanced. -/
theorem Runs.leveled (h : Runs task s ts s') (htext : Undocumented s.text) :
    task.Levels s ts s' := by
  induction h with
  | nothing => exact .inl ⟨rfl, fun _ => rfl⟩
  | quoted h hrun ih =>
      have hlevels := ih htext
      exact .inl ⟨hrun.reaches rfl, fun levels => (hlevels levels).1 rfl⟩
  | documented h => exact absurd h htext.opening_ne
  | plain h hhereDoc hquote htake =>
      obtain ⟨-, ⟨hdepth, hinert⟩ | hbraced⟩ := takePlain_cases h htake
      · exact .inl ⟨hdepth, fun _ => Token.levelsAfter_inert hinert⟩
      · exact .inr hbraced
  | @last q start first pending s s' run hrun hstop =>
      intro levels
      refine ⟨fun _ => ?_, _, rfl⟩
      rw [Token.levelsAfter_singleton]
      exact levelsBehind_last rfl
  | @braces q start first pending s s₁ s₂ s₃ run code rest hrun hstop hcode hrest ihcode ihrest =>
      intro levels
      have htext₁ : Undocumented s₁.text := by rwa [(takeRun_keeps hrun).1]
      obtain ⟨n, hbraces, hn⟩ := ihcode htext₁ levels 0 rfl rfl
      have htext₂ : Undocumented s₂.text := by rwa [hcode.text]
      obtain ⟨hquoted, hfront⟩ := ihrest htext₂ levels
      have hone : n = 0 ∨ ∃ t, rest = [t] := hn.imp_right fun hend =>
        (hrest.fragments_of_atEnd hend).2
      constructor
      · intro hquote
        rw [List.cons_append, levels_cons rfl, levelsAfter_append, hbraces, Option.bind_some]
        rcases hn with rfl | hend
        · exact hquoted hquote
        · rw [(hrest.fragments_of_atEnd hend).1] at hquote
          exact nomatch hquote
      · rw [List.dropLast_append_of_ne_nil hrest.fragments_ne_nil, List.cons_append,
          levels_cons rfl]
        exact levels_rest hbraces hone hfront
  | @reference q start first pending s s₁ s₂ run name rest hrun hstop hname hrest ih =>
      intro levels
      have htext₁ : Undocumented s₁.text := by rwa [(takeRun_keeps hrun).1]
      obtain ⟨hquoted, ns, hfront⟩ := ih htext₁ levels
      constructor
      · intro hquote
        rw [levels_cons rfl, levelsAfter_cons, Token.levelsBehind_inert rfl]
        exact hquoted hquote
      · refine ⟨ns, ?_⟩
        rw [List.dropLast_cons_of_ne_nil (List.cons_ne_nil _ _),
          List.dropLast_cons_of_ne_nil hrest.fragments_ne_nil, levels_cons rfl, levelsAfter_cons,
          Token.levelsBehind_inert rfl]
        exact hfront
  | dollar hrun hstop hname hrest ih =>
      exact ih (by rwa [(takeRun_keeps hrun).1])
  | ended hend => exact fun levels n _ htokens => ⟨n, htokens, .inr hend⟩
  | @closed depth tokens batch s s' hend hstep hcloses ih =>
      intro levels n hdepth htokens
      rw [levelsAfter_asVariable]
      refine ⟨n, htokens, .inl ?_⟩
      -- the brace that closes the code is the only one that was open
      have hdepth' := braceDepth_of_closes hcloses
      obtain ⟨t, rfl, hkind⟩ := exists_of_closes hcloses
      rcases ih htext with ⟨hsame, hlevels⟩ | hbraced
      · have hbrace := hlevels [0]
        rw [Token.levelsAfter_singleton, Token.levelsBehind_brace (by rw [hkind]; exact nofun),
          hkind] at hbrace
        exact nomatch hbrace
      · cases hbraced with
        | opens hrole hbraces => omega
        | closes _ hbraces => omega
  | @more depth tokens batch ts s s' s'' hend hstep hcloses hrest ihstep ihrest =>
      intro levels n hdepth htokens
      obtain ⟨n', hdepth', hbatch⟩ := levels_step (ihstep htext) hdepth hcloses
      obtain ⟨k, hk⟩ := passed_eq s' batch
      rw [hk] at ihrest
      refine ihrest (by rwa [hstep.text]) levels n' hdepth' ?_
      rw [levelsAfter_append, htokens]
      exact hbatch
  | hereDoc => trivial

end Manifest.Scan
