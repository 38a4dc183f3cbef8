import Manifest.Proofs.Scan.Lookback

/-!
# The token before

A rule reads a brace or a slash by the kind that the scan remembers. That is the kind of the token
before it in the stream, but for the first token of an interpolation: the fragment of the string in
front of it is not remembered, and the kind that is remembered there is an older one.

* `Preceding`, `Suited` — what stands before a token, and tokens that suit what stands before them.
* `Preceding.Remembered` — how a remembered kind goes with what stands before.
* `Runs.suited` — what a scan gives suits what stands before it.
-/

namespace Manifest.Scan

open Token (Kind Mark)

variable {s s' : State} {ts us : List Token} {t u : Token} {task : Task} {c c' : Preceding}
  {k : Option Kind} {kind : Kind}

/-! ## What stands before -/

/-- The fragments of strings that an interpolation follows. -/
def opensInterpolation : Kind → Bool
  | .stringStart | .stringMiddle => true
  | _ => false

/-- The tokens of a string that may not be remembered: its fragments, and variables. -/
def fades : Kind → Bool
  | .stringStart | .stringMiddle | .variable => true
  | _ => false

/-- What stands before a token. -/
structure Preceding where
  /-- the kind of the last token -/
  last : Option Kind
  /-- the kind of the last token that does not fade -/
  lasting : Option Kind

namespace Preceding

/-- At the start of a text. -/
def start : Preceding := ⟨none, none⟩

/-- Behind a further token. -/
def behind (c : Preceding) (kind : Kind) : Preceding :=
  ⟨some kind, if fades kind then c.lasting else some kind⟩

/-- Behind further tokens. -/
def after (c : Preceding) (ts : List Token) : Preceding := ts.foldl (fun c t => c.behind t.kind) c

/-- What precedes changes token by token. -/
theorem after_append (c : Preceding) (ts us : List Token) :
    c.after (ts ++ us) = (c.after ts).after us :=
  List.foldl_append

/-- Behind a token that lasts it does not matter what stands before that. -/
theorem behind_of_lasts (h : fades kind = false) : c.behind kind = ⟨some kind, some kind⟩ := by
  rw [behind, if_neg (by rw [h]; exact Bool.false_ne_true)]

/-- The last token that does not fade, and those behind it. -/
theorem exists_lasting {ts : List Token} {kind : Kind} (c : Preceding)
    (h : (c.after ts).lasting = some kind) :
    (c.lasting = some kind ∧ ∀ v ∈ ts, fades v.kind) ∨
      ∃ front t mid, ts = front ++ t :: mid ∧ t.kind = kind ∧ ∀ v ∈ mid, fades v.kind := by
  induction ts generalizing c with
  | nil => exact .inl ⟨h, List.forall_mem_nil _⟩
  | cons t ts ih =>
      rcases ih (c.behind t.kind) h with ⟨hlasting, hall⟩ | ⟨front, u, mid, rfl, hu, hmid⟩
      · unfold behind at hlasting
        dsimp only at hlasting
        split at hlasting
        next hfades => exact .inl ⟨hlasting, List.forall_mem_cons.2 ⟨hfades, hall⟩⟩
        next => exact .inr ⟨[], t, ts, rfl, Option.some.inj hlasting, hall⟩
      · exact .inr ⟨t :: front, u, mid, rfl, hu, hmid⟩

/-- The kind may stand there: it suits the token before, but at the start of an interpolation a
brace opens a selector only where an older token is a question mark. -/
structure Allows (c : Preceding) (kind : Kind) : Prop where
  direct : ∀ k ∈ c.last, opensInterpolation k = false → Suits (some k) kind
  interpolated : ∀ k ∈ c.last, opensInterpolation k → kind = .mark .selectorBrace →
    c.lasting = some (.mark .question)

/-- Where the token before does not matter, anything may precede. -/
theorem allows_of_not_isContextual (h : kind.isContextual = false) : c.Allows kind where
  direct _ _ _ := suits_of_not_isContextual h
  interpolated _ _ _ := by rintro rfl; exact nomatch h

/-- If a question mark is remembered, it is the last token that does not fade. -/
def Recent (c : Preceding) (k : Option Kind) : Prop :=
  k = some (.mark .question) → c.lasting = some (.mark .question)

/-- The kind is that of the last token, unless an interpolation begins behind that. -/
structure Remembered (c : Preceding) (k : Option Kind) : Prop where
  last : ∀ k' ∈ c.last, opensInterpolation k' = false → k = some k'
  recent : c.Recent k

/-- A kind that suits the one that is remembered may stand there. -/
theorem Remembered.allows (h : c.Remembered k) (hsuits : Suits k kind) : c.Allows kind where
  direct k' hk' hdirect := h.last k' hk' hdirect ▸ hsuits
  interpolated _ _ _ hselector := h.recent (hsuits.selector hselector)

theorem remembered_start : start.Remembered none where
  last _ h _ := nomatch h
  recent h := nomatch h

/-- A kind is remembered behind a token of that kind. -/
theorem remembered_behind (c : Preceding) (kind : Kind) :
    (c.behind kind).Remembered (some kind) where
  last _ hk' _ := hk'
  recent h := by
    obtain rfl := Option.some.inj h
    rfl

/-- A fading token leaves the one before it in sight. -/
theorem Recent.behind (h : c.Recent k) (hfades : fades kind) : (c.behind kind).Recent k := by
  intro hk
  rw [Preceding.behind, if_pos hfades]
  exact h hk

/-- Where an interpolation begins, an older kind is remembered. -/
theorem Recent.remembered (h : c.Recent k) (first : Bool) :
    (c.behind (fragmentKind first)).Remembered k := by
  have hfades : fades (fragmentKind first) := by cases first <;> rfl
  refine ⟨?_, h.behind hfades⟩
  intro k' hk' hdirect
  obtain rfl := Option.some.inj hk'
  cases first <;> exact nomatch hdirect

end Preceding

/-! ## Tokens that suit those before them -/

/-- Every token may stand where it stands. -/
inductive Suited : Preceding → List Token → Prop
  | nil (c : Preceding) : Suited c []
  | cons {c : Preceding} {t : Token} {ts : List Token} : c.Allows t.kind →
      Suited (c.behind t.kind) ts → Suited c (t :: ts)

/-- Tokens that suit those before them, in a row. -/
theorem Suited.append (h : Suited c ts) (h' : Suited (c.after ts) us) : Suited c (ts ++ us) := by
  induction h with
  | nil => exact h'
  | cons hallows _ ih => exact .cons hallows (ih h')

/-- Of tokens that suit those before them, the later ones do. -/
theorem Suited.of_append (h : Suited c (ts ++ us)) : Suited (c.after ts) us := by
  induction ts generalizing c with
  | nil => exact h
  | cons t ts ih =>
      cases h with
      | cons _ hts => exact ih hts

/-- Tokens for which the one before does not matter. -/
theorem suited_of_not_isContextual (h : ∀ t ∈ ts, t.kind.isContextual = false) (c : Preceding) :
    Suited c ts := by
  induction ts generalizing c with
  | nil => exact .nil c
  | cons t ts ih =>
      obtain ⟨ht, hts⟩ := List.forall_mem_cons.1 h
      exact .cons (Preceding.allows_of_not_isContextual ht) (ih hts _)

/-- For tokens of templates it does not matter. -/
theorem isContextual_of_isTemplate (h : kind.isTemplate) : kind.isContextual = false := by
  unfold Token.Kind.isTemplate at h
  split at h
  case h_1 | h_2 | h_3 | h_4 | h_5 => rfl
  case h_6 => exact absurd h Bool.false_ne_true

/-- A token that suits the one that is remembered. -/
theorem Lone.suited (h : Lone k ts) (hc : c.Remembered k) : Suited c ts := by
  rcases h with rfl | ⟨t, rfl, -, hsuits⟩
  · exact .nil c
  · exact .cons (hc.allows hsuits) (.nil _)

/-- The kind that is remembered once tokens were passed on. -/
theorem remembered_passed (hc : c.Remembered s.after) (hafter : s'.after = s.after ∨ ts ≠ []) :
    (c.after ts).Remembered (s'.passed ts).after := by
  rcases List.eq_nil_or_concat ts with rfl | ⟨front, t, rfl⟩
  · show c.Remembered s'.after
    rw [hafter.resolve_right fun h => h rfl]
    exact hc
  · have hpassed : (s'.passed (front.concat t)).after = some t.kind := by
      rw [State.passed, List.concat_eq_append, List.getLast?_concat]
    rw [hpassed, List.concat_eq_append, Preceding.after_append]
    exact Preceding.remembered_behind _ t.kind

/-! ## Variables of interpolations -/

theorem opensInterpolation_of_namesVariable (h : namesVariable kind) :
    opensInterpolation kind = false := by
  unfold opensInterpolation
  split
  case h_1 | h_2 => exact nomatch h
  case h_3 => rfl

/-- The code of an interpolation stays what it is, or its first token becomes a variable and stands
alone or before a dot or a bracket. -/
theorem asVariable_shape (ts : List Token) : asVariable ts = ts ∨
    ∃ t v us, ts = t :: us ∧ asVariable ts = v :: us ∧ namesVariable t.kind ∧ v.kind = .variable ∧
      ∀ u ∈ us.head?, u.kind = .mark .dot ∨ u.kind = .mark .openBracket := by
  have hname : ∀ t us, asVariable ts = toVariable t :: us → ts = t :: us →
      (∀ u ∈ us.head?, u.kind = .mark .dot ∨ u.kind = .mark .openBracket) → asVariable ts = ts ∨
      ∃ t v us, ts = t :: us ∧ asVariable ts = v :: us ∧ namesVariable t.kind ∧ v.kind = .variable ∧
        ∀ u ∈ us.head?, u.kind = .mark .dot ∨ u.kind = .mark .openBracket := by
    intro t us heq hts hhead
    rcases toVariable_cases t with hsame | ⟨hnames, value, hvariable⟩
    · exact .inl (by rw [heq, hsame, hts])
    · exact .inr ⟨t, _, us, hts, by rw [heq, hvariable], hnames, rfl, hhead⟩
  cases ts with
  | nil => exact .inl rfl
  | cons t us =>
      cases us with
      | nil => exact hname t [] rfl rfl fun _ h => nomatch h
      | cons u us =>
          by_cases hu : u.kind = .mark .dot || u.kind = .mark .openBracket
          · refine hname t (u :: us) (if_pos hu) rfl ?_
            rintro v hv
            obtain rfl := Option.some.inj hv
            exact (Bool.or_eq_true_iff.1 hu).imp of_decide_eq_true of_decide_eq_true
          · exact .inl (if_neg hu)

/-- A token that becomes a variable changes nothing for those behind it. -/
theorem Suited.asVariable (h : Suited c ts) (hc : (c.after ts).Remembered k) :
    Suited c (asVariable ts) ∧ (c.after (asVariable ts)).Recent k := by
  rcases asVariable_shape ts with heq | ⟨t, v, us, rfl, heq, hnames, hv, hhead⟩
  · rw [heq]
    exact ⟨h, hc.recent⟩
  · rw [heq]
    have hallows : c.Allows v.kind := Preceding.allows_of_not_isContextual (by rw [hv]; rfl)
    cases us with
    | nil =>
        refine ⟨.cons hallows (.nil _), ?_⟩
        -- the name is remembered, and is no question mark
        rintro rfl
        have hquestion := hc.last t.kind rfl (opensInterpolation_of_namesVariable hnames)
        rw [← Option.some.inj hquestion] at hnames
        exact nomatch hnames
    | cons u us =>
        have hu : fades u.kind = false ∧ u.kind.isContextual = false := by
          rcases hhead u rfl with hkind | hkind <;> (rw [hkind]; exact ⟨rfl, rfl⟩)
        have hsame : (c.behind v.kind).behind u.kind = (c.behind t.kind).behind u.kind := by
          rw [Preceding.behind_of_lasts hu.1, Preceding.behind_of_lasts hu.1]
        cases h with
        | cons _ hrest =>
            cases hrest with
            | cons _ hus =>
                refine ⟨.cons hallows (.cons (Preceding.allows_of_not_isContextual hu.2) ?_), ?_⟩
                · rw [hsame]
                  exact hus
                · show (((c.behind v.kind).behind u.kind).after us).Recent k
                  rw [hsame]
                  exact hc.recent

/-! ## Runs -/

/-- What a task gives suits what stands before it. A step that gives a lone brace remembers what it
did. -/
def Task.Suits (s : State) (ts : List Token) (s' : State) : Task → Prop
  | .step => (s'.after = s.after ∨ ∃ t us, ts = t :: us ∧ t.kind ≠ .mark .closeBrace) ∧
      ∀ c : Preceding, c.Remembered s.after → Suited c ts
  | .fragments .. => (∃ t us, ts = t :: us ∧ t.kind ≠ .mark .closeBrace) ∧
      ∀ c : Preceding, c.Recent s.after → Suited c ts
  | .code _ tokens => ∀ c : Preceding, Suited c tokens → (c.after tokens).Remembered s.after →
      Suited c ts ∧ (c.after ts).Recent s'.after
  | .hereDoc => s'.after = s.after ∧ ∀ c : Preceding, Suited c ts

/-- A fragment suits any token before it. -/
theorem suited_fragment (first : Bool) (h : Suited (c.behind t.kind) ts)
    (ht : t.kind = fragmentKind first) : Suited c (t :: ts) := by
  refine .cons (Preceding.allows_of_not_isContextual ?_) h
  rw [ht]
  cases first <;> rfl

/-- What a scan gives suits what stands before it. -/
theorem Runs.suited (h : Runs task s ts s') : task.Suits s ts s' := by
  induction h with
  | nothing => exact ⟨.inl rfl, fun c _ => .nil c⟩
  | quoted h hrun ih => exact ⟨.inr ih.1, fun c hc => ih.2 c hc.recent⟩
  | documented h hrun ih => exact ⟨.inl ih.1, fun c _ => ih.2 c⟩
  | @plain s s' ts o h hhereDoc hquote htake =>
      by_cases htag : ∃ trims, o = .tagEnd trims
      · obtain ⟨trims, rfl⟩ := htag
        obtain ⟨text, found, rfl, hreads⟩ := takeTagEnd_ok htake
        have htemplate : ∀ t ∈ s.valueEnd trims ++ text, t.kind.isTemplate :=
          List.forall_mem_append.2 ⟨s.isTemplate_valueEnd trims, hreads.isTemplate⟩
        obtain rfl := hreads.state
        exact ⟨.inl rfl, fun c _ => suited_of_not_isContextual
          (fun t ht => isContextual_of_isTemplate (htemplate t ht)) c⟩
      · obtain ⟨hremembers, hlone⟩ := takePlain_lone h (fun trims heq => htag ⟨trims, heq⟩) htake
        exact ⟨.inl hremembers.after, fun c hc => hlone.suited hc⟩
  | @last q start first pending s s' run hrun hstop =>
      refine ⟨⟨_, _, rfl, ?_⟩, fun c _ => .cons (Preceding.allows_of_not_isContextual ?_) (.nil _)⟩
      · cases first <;> exact nofun
      · cases first <;> rfl
  | @braces q start first pending s s₁ s₂ s₃ run code rest hrun hstop hcode hrest ihcode ihrest =>
      refine ⟨⟨_, _, rfl, by cases first <;> exact nofun⟩, ?_⟩
      intro c hc
      rw [← (takeRun_remembers hrun).after] at hc
      obtain ⟨hcode, hrecent⟩ := ihcode _ (.nil _) (hc.remembered first)
      exact suited_fragment first (hcode.append (ihrest.2 _ hrecent)) rfl
  | @reference q start first pending s s₁ s₂ run name rest hrun hstop hname hrest ih =>
      refine ⟨⟨_, _, rfl, by cases first <;> exact nofun⟩, ?_⟩
      intro c hc
      rw [← (takeRun_remembers hrun).after] at hc
      have hvariable : fades .variable := rfl
      have hrecent := (hc.remembered first).recent.behind hvariable
      refine suited_fragment first (.cons (Preceding.allows_of_not_isContextual rfl) ?_) rfl
      exact ih.2 _ hrecent
  | dollar hrun hstop hname hrest ih =>
      refine ⟨ih.1, ?_⟩
      intro c hc
      rw [← (takeRun_remembers hrun).after] at hc
      exact ih.2 c hc
  | ended => exact fun c htokens hc => ⟨htokens, hc.recent⟩
  | @closed depth tokens batch s s' hend hstep hcloses ih =>
      intro c htokens hc
      have hafter : s'.after = s.after := by
        refine ih.1.resolve_right ?_
        rintro ⟨t, us, rfl, ht⟩
        unfold closes at hcloses
        split at hcloses
        next u heq =>
          rw [Bool.and_eq_true, decide_eq_true_iff] at hcloses
          exact ht ((List.cons.inj heq).1 ▸ hcloses.1)
        next => exact nomatch hcloses
      rw [hafter]
      exact htokens.asVariable hc
  | @more depth tokens batch ts s s' s'' hend hstep hcloses hrest ihstep ihrest =>
      intro c htokens hc
      have hafter : s'.after = s.after ∨ batch ≠ [] := by
        refine ihstep.1.imp_right ?_
        rintro ⟨t, us, rfl, -⟩
        exact List.cons_ne_nil t us
      refine ihrest c (htokens.append (ihstep.2 _ hc)) ?_
      rw [Preceding.after_append]
      exact remembered_passed hc hafter
  | @hereDoc s s₁ done found tokens hfound hbody ih =>
      refine ⟨(takeHereDoc_remembers hfound).after, ?_⟩
      intro c
      refine .cons (Preceding.allows_of_not_isContextual rfl) ?_
      refine .cons (Preceding.allows_of_not_isContextual rfl) ?_
      -- nothing is remembered at the start of the body
      exact ih.2 _ fun h => nomatch h

end Manifest.Scan
