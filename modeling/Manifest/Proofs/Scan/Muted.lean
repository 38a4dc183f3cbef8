import Manifest.Proofs.Scan.Retold

/-!
# Scans that keep quiet about escapes

Whether unknown escapes are reported changes nothing else. The muted image of a state reports none
of them, and has none among its diagnostics. A scan from the image gives what the scan from the
state gives, tokens and problems, and leaves the image of what that leaves.

* `State.muted` — the image of a state that reports no unknown escape.
* `mutes_run` — the rules that call one another do the same from there.
-/

namespace Manifest.Scan

variable {s : State} {q : Quoting} {fuel : Nat}

/-! ## The muted state -/

/-- The state without unknown escapes: those that come are not reported, and those that came are
taken out. -/
def State.muted : State → State := State.retold false (·.filter (·.code ≠ .unknownEscape))

/-- Text that is read without reports of unknown escapes. -/
def Quoting.muted (q : Quoting) : Quoting := { q with warns := false }

/-- Two scanners do the same, but for unknown escapes. -/
abbrev Mutes {α : Type} (x x' : Scanner α) (s : State) : Prop := Mirrors State.muted x x' s

@[simp] theorem State.muted_text (s : State) : s.muted.text = s.text := rfl
@[simp] theorem State.muted_source (s : State) : s.muted.source = s.source := rfl
@[simp] theorem State.muted_pos (s : State) : s.muted.pos = s.pos := rfl
@[simp] theorem State.muted_template (s : State) : s.muted.template = s.template := rfl
@[simp] theorem State.muted_size (s : State) : s.muted.size = s.size := rfl
@[simp] theorem State.muted_rest (s : State) : s.muted.rest = s.rest := rfl

/-- Where a body begins does not depend on warnings. -/
theorem muted_bodyStart? (s : State) (next : Nat) : bodyStart? s.muted next = bodyStart? s next :=
  rfl

theorem mutes_fail {α : Type} (p : Problem) (offset : Nat) :
    Mutes (fail p offset : Scanner α) (fail p offset) s := rfl

/-! ## Here-docs -/

/-- The report of an empty segment is no report of an escape. -/
theorem muted_report_segment (s : State) (offset : Nat) :
    (s.report .emptyFormatSegment offset).muted = s.muted.report .emptyFormatSegment offset := by
  simp [State.report, State.muted, State.retold, Problem.located, Problem.code]

/-- A header is read without its warnings. -/
theorem mutes_takeHeader : Mutes takeHeader takeHeader s := by
  refine mirrors_get ?_
  dsimp only [State.muted_rest, State.muted_pos]
  refine mirrors_ite (mirrors_set (mutes_fail _ _)) ?_
  cases HereDoc.Header.parse ((s.rest.drop 2).takeWhile (· ≠ ')')) with
  | error rule => exact mutes_fail _ _
  | ok header =>
      refine mirrors_ite ?_ (mirrors_pure _)
      rw [← muted_report_segment]
      exact mirrors_set (mirrors_pure _)

/-- A here-doc is read without its warnings. -/
theorem mutes_takeHereDoc : Mutes takeHereDoc takeHereDoc s := by
  refine mirrors_bind mutes_takeHeader ?_
  rintro ⟨header, next⟩ s₁
  refine mirrors_get ?_
  dsimp only [State.muted_text, State.muted_pos, State.muted_size, State.muted_source]
  rw [muted_bodyStart?]
  cases bodyStart? s₁ next with
  | none => exact mutes_fail _ _
  | some start =>
      dsimp only
      cases HereDoc.takeBody header.tag (HereDoc.linesOf (Text.dropBytes s₁.text start)) with
      | none => exact mutes_fail _ _
      | some result => exact mirrors_pure _

/-! ## Text with interpolations -/

/-- Reports of unknown escapes are taken out. -/
theorem muted_reports (s : State) (unknown : List (Nat × Char)) :
    (unknown.foldl (fun s (offset, c) => s.report (.unknownEscape c) offset) s).muted =
      s.muted := by
  induction unknown generalizing s with
  | nil => rfl
  | cons escape unknown ih =>
      rw [List.foldl_cons, ih]
      simp [State.report, State.muted, State.retold, Problem.located, Problem.code]

/-- A run of quoted text is collected without its warnings. -/
theorem mutes_takeRun : Mutes (takeRun q) (takeRun q.muted) s := by
  refine mirrors_get ?_
  dsimp only [State.muted_rest, State.muted_pos, Quoting.muted]
  generalize hreported :
    (if q.warns then (Quote.collect q.mode q.escapes s.pos s.rest).unknown.foldl
      (fun s (offset, c) => s.report (.unknownEscape c) offset) s else s) = s₁
  have hmuted : s₁.muted = s.muted := by
    rw [← hreported]
    split
    · exact muted_reports s _
    · rfl
  simp only [Bool.false_eq_true, if_false]
  rw [← hmuted]
  cases (Quote.collect q.mode q.escapes s.pos s.rest).run with
  | ok run => exact mirrors_set (mirrors_pure _)
  | error fault =>
      cases fault with
      | unclosed => exact mirrors_set (mutes_fail _ _)
      | unicode offset => exact mirrors_set (mutes_fail _ _)

/-! ## Rules that call one another -/

/-- The task without reports of unknown escapes. -/
def Task.muted : Task → Task
  | .fragments q start first pending => .fragments q.muted start first pending
  | task => task

/-- With that much fuel, every task does the same when unknown escapes are not reported. -/
def MutesWithin (fuel : Nat) : Prop := ∀ (task : Task) (s : State),
  Mutes (task.run fuel) (task.muted.run fuel) s

/-- A step without warnings, if what it calls has none. -/
theorem mutes_step (ih : MutesWithin fuel) : Mutes (step (fuel + 1)) (step (fuel + 1)) s := by
  rw [step]
  refine mirrors_get ?_
  dsimp only [State.muted_rest, State.muted_template]
  cases opening? s.template.isSome s.rest with
  | none => exact mirrors_pure _
  | some o =>
      cases o with
      | doubleQuote => exact mirrors_set (ih (.fragments s.quoting s.pos true []) _)
      | hereDoc => exact ih .hereDoc s
      | _ => exact mirrors_takePlain _

/-- Fragments without warnings. -/
theorem mutes_fragments (ih : MutesWithin fuel) (start : Nat) (first : Bool) (pending : List Char) :
    Mutes (fragments (fuel + 1) q start first pending)
      (fragments (fuel + 1) q.muted start first pending) s := by
  rw [fragments_succ, fragments_succ]
  refine mirrors_bind mutes_takeRun fun run s₁ => mirrors_get ?_
  dsimp only
  cases run.stop with
  | quote => exact mirrors_pure _
  | endOfText => exact mirrors_pure _
  | dollarBrace =>
      refine mirrors_set (mirrors_bind (ih (.code s₁.braceDepth []) _) fun code s₂ =>
        mirrors_get ?_)
      exact mirrors_bind (ih (.fragments q s₂.pos false []) s₂) fun rest s₃ => mirrors_pure _
  | dollar =>
      dsimp only [State.muted_rest]
      cases Token.variableName? s₁.rest with
      | none => exact ih (.fragments q start first _) s₁
      | some name =>
          refine mirrors_set (mirrors_bind (ih (.fragments q _ false []) _) fun rest s₂ => ?_)
          exact mirrors_pure _

/-- Tokens are passed on in the same way. -/
theorem muted_passed (s : State) (batch : List Token) :
    (s.passed batch).muted = s.muted.passed batch := by
  unfold State.passed
  cases batch.getLast? with
  | none => rfl
  | some t => rfl

/-- Code in braces without warnings. -/
theorem mutes_code (ih : MutesWithin fuel) (depth : Nat) (tokens : List Token) :
    Mutes (codeUntil (fuel + 1) depth tokens) (codeUntil (fuel + 1) depth tokens) s := by
  rw [codeUntil]
  refine mirrors_get (mirrors_ite (mirrors_pure _) (mirrors_bind (ih .step s) fun batch s₁ => ?_))
  refine mirrors_get (mirrors_ite (mirrors_pure _) ?_)
  rw [← muted_passed]
  exact mirrors_set (ih (.code depth (tokens ++ batch)) _)

/-- A here-doc without warnings. -/
theorem mutes_hereDoc (ih : MutesWithin fuel) :
    Mutes (hereDoc (fuel + 1)) (hereDoc (fuel + 1)) s := by
  rw [hereDoc_succ]
  refine mirrors_bind mutes_takeHereDoc fun found s₁ => ?_
  have hbody : fragments fuel (found.quoting s₁.muted) 0 true [] (found.bodyState s₁.muted) =
      mapState State.muted (fragments fuel (found.quoting s₁) 0 true [] (found.bodyState s₁)) :=
    ih (.fragments (found.quoting s₁) 0 true []) (found.bodyState s₁)
  show readBody fuel found s₁.muted = mapState State.muted (readBody fuel found s₁)
  rw [readBody, readBody, hbody]
  cases fragments fuel (found.quoting s₁) 0 true [] (found.bodyState s₁) with
  | ok tokens done =>
      -- the diagnostics of the body come after those before it, in both scans
      have hdiagnostics := List.filter_append s₁.diagnostics done.diagnostics
        (p := (·.code ≠ .unknownEscape))
      simp only [mapState, State.muted, State.retold, hdiagnostics]
      rfl
  | error stop done => rfl

/-- The rules that call one another do the same when unknown escapes are not reported. -/
theorem mutes_run (fuel : Nat) : MutesWithin fuel := by
  induction fuel with
  | zero =>
      intro task s
      cases task <;> rfl
  | succ fuel ih =>
      intro task s
      cases task with
      | step => exact mutes_step ih
      | fragments q start first pending => exact mutes_fragments ih start first pending
      | code depth tokens => exact mutes_code ih depth tokens
      | hereDoc => exact mutes_hereDoc ih

end Manifest.Scan
