import Manifest.Proofs.Scan.Progress

/-!
# Fuel that is enough

A rule that stands alone fails with a problem or succeeds. The rules that call one another spend a
unit of fuel for a call, and two calls in a row move on; twice what is ahead is enough fuel.

* `Task.need` — the fuel that a task needs.
* `enough` — a task that has this fuel is not exhausted.
* `State.ahead_le_budget` — the budget of a stream is more than that.
-/

namespace Manifest.Scan

open Text (byteLength)

variable {α β : Type} {s s' : State} {cs : List Char} {fuel : Nat}

/-! ## Scanners without fuel -/

/-- The scanner does not run out of fuel. -/
def Unfueled (x : Scanner α) : Prop := ∀ s s', x s ≠ .error .exhausted s'

theorem unfueled_pure (a : α) : Unfueled (pure a : Scanner α) := fun _ _ => nofun

/-- A rule that fails with a problem does not lack fuel. -/
theorem unfueled_fail (p : Problem) (offset : Nat) : Unfueled (fail p offset : Scanner α) :=
  fun _ _ => nofun

theorem unfueled_modifyGet (f : State → α × State) : Unfueled (modifyGet f : Scanner α) :=
  fun _ _ => nofun

theorem unfueled_get {f : State → Scanner β} (h : ∀ s, Unfueled (f s)) : Unfueled (get >>= f) :=
  fun s => h s s

theorem unfueled_set {f : PUnit → Scanner β} (s : State) (h : Unfueled (f ⟨⟩)) :
    Unfueled (set s >>= f) :=
  fun _ => h s

/-- Rules that lack none do not when they follow one another. -/
theorem unfueled_bind {x : Scanner α} {f : α → Scanner β} (hx : Unfueled x)
    (hf : ∀ a, Unfueled (f a)) : Unfueled (x >>= f) := by
  intro s s' h
  change EStateM.bind x f s = _ at h
  unfold EStateM.bind at h
  split at h
  next a s₁ _ => exact hf a s₁ s' h
  next e s₁ heq =>
    obtain ⟨rfl, rfl⟩ := EStateM.Result.error.inj h
    exact hx s s₁ heq

/-- A choice between rules that lack no fuel lacks none. -/
theorem unfueled_ite {x y : Scanner α} {p : Prop} [Decidable p] (hx : Unfueled x)
    (hy : Unfueled y) : Unfueled (if p then x else y) := by
  split
  · exact hx
  · exact hy

/-! ## Rules -/

/-- Text of a template lacks none, and so does every rule that calls no other. -/
theorem unfueled_takeTemplateText (skipLeading : Bool) :
    Unfueled (takeTemplateText skipLeading) := by
  refine unfueled_get ?_
  intro s
  cases Template.stretch skipLeading s.pos s.rest with
  | error e => exact unfueled_set _ (unfueled_fail _ _)
  | ok stretch =>
      dsimp only
      cases stretch.ending with
      | endOfText => exact unfueled_set _ (unfueled_pure _)
      | code tag => exact unfueled_set _ (unfueled_pure _)
      | render tag => exact unfueled_set _ (unfueled_pure _)

theorem unfueled_takeTagEnd (trims : Bool) : Unfueled (takeTagEnd trims) := by
  refine unfueled_get fun s => unfueled_set _ ?_
  exact unfueled_bind (unfueled_takeTemplateText trims) fun _ => unfueled_pure _

theorem unfueled_takeSingleQuoted : Unfueled takeSingleQuoted := by
  refine unfueled_get ?_
  intro s
  dsimp only
  cases (Quote.collect .single .singleQuoted (s.pos + 1) (s.rest.drop 1)).run with
  | ok run => exact unfueled_set _ (unfueled_pure _)
  | error fault => exact unfueled_set _ (unfueled_fail _ _)

theorem unfueled_takeComment : Unfueled takeComment := by
  refine unfueled_get ?_
  intro s
  cases Text.findOffset (['*', '/'].isPrefixOf ·) (s.pos + 2) (s.rest.drop 2) with
  | some offset => exact unfueled_set _ (unfueled_pure _)
  | none => exact unfueled_fail _ _

theorem unfueled_takeSlash : Unfueled takeSlash := by
  refine unfueled_get ?_
  intro s
  dsimp only
  cases (if s.after.all Token.Kind.allowsRegexAfter then Token.regex?
    (s.rest.drop 1) else none) with
  | some body => exact unfueled_modifyGet _
  | none => exact unfueled_modifyGet _

theorem unfueled_takeNumber : Unfueled takeNumber := by
  refine unfueled_get ?_
  intro s
  dsimp only
  cases Number.fault? (Token.number s.rest) with
  | some rule => exact unfueled_fail _ _
  | none => exact unfueled_modifyGet _

theorem unfueled_takeWord : Unfueled takeWord := by
  refine unfueled_get ?_
  intro s
  cases Token.word? s.rest with
  | none => exact unfueled_fail _ _
  | some word => exact unfueled_set _ (unfueled_ite (unfueled_pure _) (unfueled_fail _ _))

theorem unfueled_takeReference (dangling : Code) : Unfueled (takeReference dangling) := by
  refine unfueled_get ?_
  intro s
  cases Token.reference? s.rest with
  | none => exact unfueled_fail _ _
  | some name => exact unfueled_set _ (unfueled_ite (unfueled_pure _) (unfueled_fail _ _))

/-- A rule that does not lead back into code needs no fuel. -/
theorem unfueled_takePlain (o : Opening) : Unfueled (takePlain o) := by
  cases o with
  | mark m => exact unfueled_modifyGet _
  | bracket => exact unfueled_get fun s => unfueled_modifyGet _
  | paren => exact unfueled_get fun s => unfueled_modifyGet _
  | brace => exact unfueled_get fun s => unfueled_set _ (unfueled_modifyGet _)
  | closeBrace => exact unfueled_bind (unfueled_modifyGet _) fun _ => unfueled_modifyGet _
  | tagEnd trims => exact unfueled_takeTagEnd trims
  | singleQuote => exact unfueled_takeSingleQuoted
  | lineComment => exact unfueled_get fun s => unfueled_modifyGet _
  | blockComment => exact unfueled_takeComment
  | slash => exact unfueled_takeSlash
  | dollar => exact unfueled_get fun s => unfueled_modifyGet _
  | number => exact unfueled_takeNumber
  | word => exact unfueled_takeWord
  | reference dangling => exact unfueled_takeReference dangling
  | separator => exact unfueled_modifyGet _
  | newline => exact unfueled_modifyGet _
  | blank => exact unfueled_get fun s => unfueled_modifyGet _
  | foreignLetter c => exact unfueled_get fun s => unfueled_fail _ _
  | other c => exact unfueled_modifyGet _
  | hereDoc => exact unfueled_pure _
  | doubleQuote => exact unfueled_pure _

/-- A run of quoted text lacks none. -/
theorem unfueled_takeRun (q : Quoting) : Unfueled (takeRun q) := by
  refine unfueled_get ?_
  intro s
  dsimp only
  cases (Quote.collect q.mode q.escapes s.pos s.rest).run with
  | ok run => exact unfueled_set _ (unfueled_pure _)
  | error fault =>
      cases fault with
      | unclosed => exact unfueled_set _ (unfueled_fail _ _)
      | unicode offset => exact unfueled_set _ (unfueled_fail _ _)

theorem unfueled_takeHeader : Unfueled takeHeader := by
  refine unfueled_get ?_
  intro s
  dsimp only
  refine unfueled_ite (unfueled_set _ (unfueled_fail _ _)) ?_
  cases HereDoc.Header.parse ((s.rest.drop 2).takeWhile (· ≠ ')')) with
  | error rule => exact unfueled_fail _ _
  | ok header => exact unfueled_ite (unfueled_set _ (unfueled_pure _)) (unfueled_pure _)

/-- A here-doc lacks none before its body is scanned. -/
theorem unfueled_takeHereDoc : Unfueled takeHereDoc := by
  refine unfueled_bind unfueled_takeHeader fun (header, next) => unfueled_get ?_
  intro s
  cases bodyStart? s next with
  | none => exact unfueled_fail _ _
  | some start =>
      dsimp only
      cases HereDoc.takeBody header.tag (HereDoc.linesOf (Text.dropBytes s.text start)) with
      | none => exact unfueled_fail _ _
      | some result => exact unfueled_pure _

/-! ## Fuel -/

/-- The scanner runs out of fuel at the state. -/
def Exhausts (x : Scanner α) (s : State) : Prop := ∃ s', x s = .error .exhausted s'

/-- Such a rule never exhausts its fuel. -/
theorem Unfueled.not_exhausts {x : Scanner α} (h : Unfueled x) (s : State) : ¬ Exhausts x s :=
  fun ⟨s', hs⟩ => h s s' hs

/-- A scanner and what follows it have fuel enough, when what follows has it wherever the scanner
leads. -/
theorem not_exhausts_bind {x : Scanner α} {f : α → Scanner β} (hx : ¬ Exhausts x s)
    (hf : ∀ a s₁, x s = .ok a s₁ → ¬ Exhausts (f a) s₁) : ¬ Exhausts (x >>= f) s := by
  rintro ⟨s', h⟩
  change EStateM.bind x f s = _ at h
  unfold EStateM.bind at h
  split at h
  next a s₁ heq => exact hf a s₁ heq ⟨s', h⟩
  next e s₁ heq =>
    obtain ⟨rfl, rfl⟩ := EStateM.Result.error.inj h
    exact hx ⟨s₁, heq⟩

/-- The fuel that a task needs. -/
def Task.need (s : State) : Task → Nat
  | .step => 2 * s.ahead + 1
  | .fragments .. => 2 * s.ahead + 1
  | .code .. => 2 * s.ahead + 2
  | .hereDoc => 2 * s.ahead

/-- With a unit of fuel less, every task has enough of it. -/
def Enough (fuel : Nat) : Prop := ∀ (task : Task) (s : State), s.Sound → task.Ready s →
  task.need s ≤ fuel → ¬ Exhausts (task.run fuel) s

/-- A step has enough fuel if what it calls has. -/
theorem not_exhausts_step (ih : Enough fuel) (hsound : s.Sound) (hfuel : 2 * s.ahead ≤ fuel) :
    ¬ Exhausts (step (fuel + 1)) s := by
  rintro ⟨s', h⟩
  cases ho : opening? s.template.isSome s.rest with
  | none =>
      rw [step_none ho] at h
      exact nomatch h
  | some o =>
      by_cases hquote : o = .doubleQuote
      · subst hquote
        obtain ⟨hkeeps, hahead⟩ := quote_advances hsound ho
        rw [step_doubleQuote ho] at h
        refine ih (.fragments s.quoting s.pos true []) _ hkeeps.sound trivial ?_ ⟨s', h⟩
        show 2 * State.ahead { s with pos := s.pos + 1 } + 1 ≤ fuel
        omega
      · by_cases hhereDoc : o = .hereDoc
        · subst hhereDoc
          obtain ⟨cs, hat, ho'⟩ := at_of_opening hsound ho
          obtain ⟨rest, rfl⟩ := opening?_begins ho'
          rw [step_hereDoc ho] at h
          exact ih .hereDoc s hsound ⟨rest, hat⟩ hfuel ⟨s', h⟩
        · rw [step_plain ho hhereDoc hquote] at h
          exact (unfueled_takePlain o).not_exhausts s ⟨s', h⟩

/-- Fragments have enough fuel if what they call has: each one ends behind the cursor. -/
theorem not_exhausts_fragments {q : Quoting} {start : Nat} {first : Bool} {pending : List Char}
    (ih : Enough fuel) (hsound : s.Sound) (hfuel : 2 * s.ahead ≤ fuel) :
    ¬ Exhausts (fragments (fuel + 1) q start first pending) s := by
  rw [fragments_succ]
  -- a run takes a byte at least, and what is ahead of it needs less fuel
  refine not_exhausts_bind ((unfueled_takeRun q).not_exhausts s) ?_
  intro run s₁ hrun
  obtain ⟨front, rest, hkeeps, hahead, hpos, -, hstops⟩ := takeRun_advances hsound hrun
  rintro ⟨s', h⟩
  rw [afterRun, get_bind] at h
  cases hstop : run.stop with
  | quote =>
      rw [hstop] at h
      cases h
  | endOfText =>
      rw [hstop] at h
      cases h
  | dollarBrace =>
      have hfront := (stopsAt_length hstops).2 hstop
      have hsame : State.ahead { s₁ with braceDepth := s₁.braceDepth + 1 } = s₁.ahead :=
        State.ahead_congr rfl rfl rfl
      have hsound₁ : State.Sound { s₁ with braceDepth := s₁.braceDepth + 1 } :=
        hkeeps.sound.congr rfl rfl rfl
      simp only [hstop, set_bind] at h
      refine not_exhausts_bind ?_ ?_ ⟨s', h⟩
      · refine ih (.code s₁.braceDepth []) _ hsound₁ trivial ?_
        show 2 * State.ahead { s₁ with braceDepth := s₁.braceDepth + 1 } + 2 ≤ fuel
        omega
      · intro code s₂ hcode
        have hruns : Runs (.code s₁.braceDepth []) { s₁ with braceDepth := s₁.braceDepth + 1 }
          code s₂ := runs_of_run hcode
        obtain ⟨hkeeps₂, hadvances⟩ := hruns.advances hsound₁ trivial
        change code.length + s₂.ahead ≤ State.ahead { s₁ with braceDepth := s₁.braceDepth + 1 } + 0
          at hadvances
        rintro ⟨s₃, h⟩
        rw [get_bind] at h
        refine not_exhausts_bind ?_ (fun _ _ _ => (unfueled_pure _).not_exhausts _) ⟨s₃, h⟩
        refine ih (.fragments q s₂.pos false []) s₂ hkeeps₂.sound trivial ?_
        show 2 * s₂.ahead + 1 ≤ fuel
        omega
  | dollar =>
      have hfront := (stopsAt_length hstops).1 hstop
      cases hname : Token.variableName? s₁.rest with
      | none =>
          simp only [hstop, hname] at h
          refine ih (.fragments q start first _) s₁ hkeeps.sound trivial ?_ ⟨s', h⟩
          show 2 * s₁.ahead + 1 ≤ fuel
          omega
      | some name =>
          obtain ⟨hkeeps', hahead'⟩ := name_advances hkeeps.sound hname
          rw [hpos] at hkeeps' hahead'
          simp only [hstop, hname, set_bind] at h
          refine not_exhausts_bind ?_ (fun _ _ _ => (unfueled_pure _).not_exhausts _) ⟨s', h⟩
          refine ih (.fragments q _ false []) _ hkeeps'.sound trivial ?_
          show 2 * State.ahead { s₁ with pos := run.next + byteLength name } + 1 ≤ fuel
          omega

/-- Code in braces has enough fuel if what it calls has; its first step takes one unit more. -/
theorem not_exhausts_code {depth : Nat} {tokens : List Token} (ih : Enough fuel)
    (hsound : s.Sound) (hfuel : 2 * s.ahead + 1 ≤ fuel) :
    ¬ Exhausts (codeUntil (fuel + 1) depth tokens) s := by
  rintro ⟨s', h⟩
  cases hend : s.atEnd with
  | true =>
      rw [codeUntil_end hend] at h
      cases h
  | false =>
      rw [codeUntil_more hend] at h
      refine not_exhausts_bind (ih .step s hsound trivial hfuel) ?_ ⟨s', h⟩
      intro batch s₁ hbatch
      have hruns : Runs .step s batch s₁ := runs_of_run hbatch
      obtain ⟨hkeeps, hlength, hlt⟩ := hruns.advances hsound trivial
      have hlt := hlt hend
      rintro ⟨s₂, h⟩
      rw [afterStep, get_bind] at h
      split at h
      · cases h
      · obtain ⟨k, hk⟩ := passed_eq s₁ batch
        have hsame : State.ahead { s₁ with after := k } = s₁.ahead := State.ahead_congr rfl rfl rfl
        rw [set_bind, hk] at h
        refine ih (.code depth (tokens ++ batch)) { s₁ with after := k }
          (hkeeps.sound.congr rfl rfl rfl) trivial ?_ ⟨s₂, h⟩
        show 2 * State.ahead { s₁ with after := k } + 2 ≤ fuel
        omega

/-- A here-doc has enough fuel: its body is shorter than the text by what opens it. -/
theorem not_exhausts_hereDoc (ih : Enough fuel) (hsound : s.Sound) (hat : s.At ('@' :: '(' :: cs))
    (hfuel : 2 * s.ahead ≤ fuel + 1) : ¬ Exhausts (hereDoc (fuel + 1)) s := by
  rw [hereDoc_succ]
  refine not_exhausts_bind (unfueled_takeHereDoc.not_exhausts s) ?_
  intro found s₁ hfound
  obtain ⟨hfits, ds, hs₁⟩ := takeHereDoc_ok hsound hat hfound
  have hbudget : (found.bodyState s₁).ahead + State.ahead { s with
      pos := found.next, resume := some found.bodyStop } + 3 ≤ s.ahead := hfits.ahead rfl rfl rfl
  -- the body may not run out either: it is scanned with the fuel that is left
  rintro ⟨s', h⟩
  rw [readBody] at h
  split at h
  next => cases h
  next stop done hbody =>
    obtain ⟨rfl, rfl⟩ := EStateM.Result.error.inj h
    refine ih (.fragments (found.quoting s₁) 0 true []) (found.bodyState s₁)
      (State.sound_start _ rfl rfl) trivial ?_ ⟨done, hbody⟩
    show 2 * (found.bodyState s₁).ahead + 1 ≤ fuel
    omega

/-- A task with the fuel that it needs is not exhausted. -/
theorem enough (fuel : Nat) : Enough fuel := by
  induction fuel with
  | zero =>
      intro task s hsound hready hfuel
      cases task with
      | step => exact absurd hfuel (Nat.not_succ_le_zero _)
      | fragments q start first pending => exact absurd hfuel (Nat.not_succ_le_zero _)
      | code depth tokens => exact absurd hfuel (Nat.not_succ_le_zero _)
      | hereDoc =>
          -- the opening of a here-doc is ahead
          obtain ⟨cs, hat⟩ := hready
          have hmove := (s.moves_pos ['@', '(']).ahead hat
          change 2 * s.ahead ≤ 0 at hfuel
          change 2 + _ ≤ s.ahead at hmove
          omega
  | succ fuel ih =>
      intro task s hsound hready hfuel
      cases task with
      | step => exact not_exhausts_step ih hsound (Nat.le_of_succ_le_succ hfuel)
      | fragments q start first pending =>
          exact not_exhausts_fragments ih hsound (Nat.le_of_succ_le_succ hfuel)
      | code depth tokens => exact not_exhausts_code ih hsound (Nat.le_of_succ_le_succ hfuel)
      | hereDoc =>
          obtain ⟨cs, hat⟩ := hready
          exact not_exhausts_hereDoc ih hsound hat hfuel

/-! ## The budget -/

/-- What is ahead of a scan is less than its length and two, squared. -/
theorem State.ahead_lt (s : State) : s.ahead + s.size + 2 < (s.size + 2) * (s.size + 2) := by
  have hsquare : (s.size + 2) * (s.size + 2) = s.size * (s.size + 2) + 2 * s.size + 4 := by ring
  rw [hsquare]
  unfold State.ahead
  cases s.resume with
  | none =>
      have hle := Nat.mul_le_mul_right (s.size + 2) (Nat.sub_le s.size s.pos)
      dsimp only
      omega
  | some r =>
      have hle := Nat.mul_le_mul_right (s.size + 2) (Nat.sub_le s.size r)
      dsimp only
      omega

/-- The budget is the fourth power of a size beyond that of the text. -/
theorem budget_eq (size : Nat) :
    budget size = (size + 2) * (size + 2) * ((size + 2) * (size + 2)) := by
  show (size + 2) ^ 4 = _
  ring

/-- The budget covers four times what is ahead of any scan. -/
theorem State.ahead_le_budget (s : State) : 4 * (s.ahead + s.size + 3) ≤ budget s.size := by
  have hahead := s.ahead_lt
  have hfour : 4 ≤ (s.size + 2) * (s.size + 2) :=
    Nat.mul_le_mul (Nat.le_add_left 2 s.size) (Nat.le_add_left 2 s.size)
  rw [budget_eq]
  exact Nat.mul_le_mul hfour hahead

end Manifest.Scan
