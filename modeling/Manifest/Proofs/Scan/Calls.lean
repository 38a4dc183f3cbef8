import Manifest.Proofs.Scan.Unique

/-!
# The tasks of a scan

On its way a task calls other tasks, at states that are settled by what ran before: text calls the
code in its braces, code calls steps, and a step calls the string or the here-doc that it begins
with. None of the calls of a task that runs has failed.

* `Calls` — the calls of a task.
* `Calls.runs` — those of a task that runs have run.
-/

namespace Manifest.Scan

variable {task task' : Task} {s s' s'' s₁ : State} {ts : List Token}

/-- On its way, a task calls another one at a state. -/
inductive Calls : Task → State → Task → State → Prop
  | quoted {s : State} (h : opening? s.template.isSome s.rest = some .doubleQuote) :
      Calls .step s (.fragments s.quoting s.pos true []) { s with pos := s.pos + 1 }
  | documented {s : State} (h : opening? s.template.isSome s.rest = some .hereDoc) :
      Calls .step s .hereDoc s
  /-- the code of an interpolation -/
  | code {q : Quoting} {start : Nat} {first : Bool} {pending : List Char} {s s₁ : State}
      {run : Quote.Run} (hrun : takeRun q s = .ok run s₁) (hstop : run.stop = .dollarBrace) :
      Calls (.fragments q start first pending) s (.code s₁.braceDepth [])
        { s₁ with braceDepth := s₁.braceDepth + 1 }
  /-- the text behind the code of an interpolation -/
  | behindCode {q : Quoting} {start : Nat} {first : Bool} {pending : List Char} {s s₁ s₂ : State}
      {run : Quote.Run} {code : List Token} (hrun : takeRun q s = .ok run s₁)
      (hstop : run.stop = .dollarBrace)
      (hcode : Runs (.code s₁.braceDepth []) { s₁ with braceDepth := s₁.braceDepth + 1 } code s₂) :
      Calls (.fragments q start first pending) s (.fragments q s₂.pos false []) s₂
  /-- the text behind a variable -/
  | behindName {q : Quoting} {start : Nat} {first : Bool} {pending : List Char} {s s₁ : State}
      {run : Quote.Run} {name : List Char} (hrun : takeRun q s = .ok run s₁)
      (hstop : run.stop = .dollar) (hname : Token.variableName? s₁.rest = some name) :
      Calls (.fragments q start first pending) s
        (.fragments q (run.next + Text.byteLength name) false [])
        { s₁ with pos := run.next + Text.byteLength name }
  /-- the text behind a dollar sign that begins nothing -/
  | behindDollar {q : Quoting} {start : Nat} {first : Bool} {pending : List Char} {s s₁ : State}
      {run : Quote.Run} (hrun : takeRun q s = .ok run s₁) (hstop : run.stop = .dollar)
      (hname : Token.variableName? s₁.rest = none) :
      Calls (.fragments q start first pending) s
        (.fragments q start first (pending ++ run.text ++ ['$'])) s₁
  | step {depth : Nat} {tokens : List Token} {s : State} (hend : s.atEnd = false) :
      Calls (.code depth tokens) s .step s
  /-- the code behind a step -/
  | behindStep {depth : Nat} {tokens batch : List Token} {s s' : State} (hend : s.atEnd = false)
      (hstep : Runs .step s batch s') (hcloses : closes depth batch s' = false) :
      Calls (.code depth tokens) s (.code depth (tokens ++ batch)) (s'.passed batch)
  /-- the body of a here-doc -/
  | body {s s₁ : State} {found : OpenHereDoc} (hfound : takeHereDoc s = .ok found s₁) :
      Calls .hereDoc s (.fragments (found.quoting s₁) 0 true []) (found.bodyState s₁)

/-- Where text with interpolations goes on behind a run, what it goes on with runs. -/
theorem Runs.behind_run {q : Quoting} {start : Nat} {first : Bool} {pending : List Char}
    {run : Quote.Run} (h : Runs (.fragments q start first pending) s ts s')
    (hrun : takeRun q s = .ok run s₁) : match run.stop with
    | .quote | .endOfText => True
    | .dollarBrace => ∃ code s₂,
        Runs (.code s₁.braceDepth []) { s₁ with braceDepth := s₁.braceDepth + 1 } code s₂ ∧
          ∃ rest s₃, Runs (.fragments q s₂.pos false []) s₂ rest s₃
    | .dollar => match Token.variableName? s₁.rest with
      | some name => ∃ rest s₂, Runs (.fragments q (run.next + Text.byteLength name) false [])
          { s₁ with pos := run.next + Text.byteLength name } rest s₂
      | none =>
          ∃ us s₂, Runs (.fragments q start first (pending ++ run.text ++ ['$'])) s₁ us s₂ := by
  cases h with
  | last hrun' hstop =>
      obtain ⟨rfl, rfl⟩ := EStateM.Result.ok.inj (hrun.symm.trans hrun')
      rcases hstop with hstop | hstop
      · rw [hstop]
        trivial
      · rw [hstop]
        trivial
  | braces hrun' hstop hcode hrest =>
      obtain ⟨rfl, rfl⟩ := EStateM.Result.ok.inj (hrun.symm.trans hrun')
      rw [hstop]
      exact ⟨_, _, hcode, _, _, hrest⟩
  | reference hrun' hstop hname hrest =>
      obtain ⟨rfl, rfl⟩ := EStateM.Result.ok.inj (hrun.symm.trans hrun')
      rw [hstop]
      dsimp only
      rw [hname]
      exact ⟨_, _, hrest⟩
  | dollar hrun' hstop hname hrest =>
      obtain ⟨rfl, rfl⟩ := EStateM.Result.ok.inj (hrun.symm.trans hrun')
      rw [hstop]
      dsimp only
      rw [hname]
      exact ⟨_, _, hrest⟩

/-- The calls of a task that runs do not fail. -/
theorem Calls.runs (h : Calls task s task' s') (hruns : Runs task s ts s'') :
    ∃ us s₁, Runs task' s' us s₁ := by
  -- no other rule fits the same state, so a run of the caller has one of the callee in it
  cases h with
  | quoted h =>
      cases hruns with
      | quoted _ hrun => exact ⟨_, _, hrun⟩
      | nothing hnone => exact nomatch h.symm.trans hnone
      | documented hhereDoc => exact nomatch h.symm.trans hhereDoc
      | plain hplain _ hquote => exact absurd (Option.some.inj (hplain.symm.trans h)) hquote
  | documented h =>
      cases hruns with
      | documented _ hrun => exact ⟨_, _, hrun⟩
      | nothing hnone => exact nomatch h.symm.trans hnone
      | quoted hquote => exact nomatch h.symm.trans hquote
      | plain hplain hhereDoc => exact absurd (Option.some.inj (hplain.symm.trans h)) hhereDoc
  | code hrun hstop =>
      have hbehind := hruns.behind_run hrun
      rw [hstop] at hbehind
      obtain ⟨code, s₂, hcode, -⟩ := hbehind
      exact ⟨code, s₂, hcode⟩
  | behindCode hrun hstop hcode =>
      have hbehind := hruns.behind_run hrun
      rw [hstop] at hbehind
      obtain ⟨code, s₂, hcode', hrest⟩ := hbehind
      obtain ⟨-, rfl⟩ := hcode.unique hcode'
      exact hrest
  | behindName hrun hstop hname =>
      have hbehind := hruns.behind_run hrun
      rw [hstop] at hbehind
      dsimp only at hbehind
      rw [hname] at hbehind
      exact hbehind
  | behindDollar hrun hstop hname =>
      have hbehind := hruns.behind_run hrun
      rw [hstop] at hbehind
      dsimp only at hbehind
      rw [hname] at hbehind
      exact hbehind
  | step hend =>
      cases hruns with
      | ended hend' => exact nomatch hend.symm.trans hend'
      | closed _ hstep => exact ⟨_, _, hstep⟩
      | more _ hstep => exact ⟨_, _, hstep⟩
  | behindStep hend hstep hcloses =>
      cases hruns with
      | ended hend' => exact nomatch hend.symm.trans hend'
      | closed _ hstep' hcloses' =>
          obtain ⟨rfl, rfl⟩ := hstep.unique hstep'
          exact nomatch hcloses.symm.trans hcloses'
      | more _ hstep' _ hrest =>
          obtain ⟨rfl, rfl⟩ := hstep.unique hstep'
          exact ⟨_, _, hrest⟩
  | body hfound =>
      cases hruns with
      | hereDoc hfound' hbody =>
          obtain ⟨rfl, rfl⟩ := EStateM.Result.ok.inj (hfound.symm.trans hfound')
          exact ⟨_, _, hbody⟩

end Manifest.Scan
