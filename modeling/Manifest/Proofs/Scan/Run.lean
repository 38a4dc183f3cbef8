import Manifest.Proofs.Scan.Cursor
import Manifest.Scan.Step

/-!
# Runs of a scan

The rules for steps, text with interpolations, code between braces and here-docs call one another.
`Runs` says what they do when they succeed, without their fuel: what every scan preserves is proved
by induction on it.

* `Runs` — what a task gives, and the state it leaves behind.
* `runs_of_run` — a task that succeeds within its fuel runs as `Runs` says.
-/

namespace Manifest.Scan

/-- The rules that call one another. -/
inductive Task
  | step
  | fragments (q : Quoting) (start : Nat) (first : Bool) (pending : List Char)
  | code (depth : Nat) (tokens : List Token)
  | hereDoc

/-- The scanner of a task. -/
def Task.run (fuel : Nat) : Task → Scanner (List Token)
  | .step => Scan.step fuel
  | .fragments q start first pending => Scan.fragments fuel q start first pending
  | .code depth tokens => codeUntil fuel depth tokens
  | .hereDoc => Scan.hereDoc fuel

/-- How text in double quotes is read from a state on. -/
def State.quoting (s : State) : Quoting :=
  ⟨.double, .doubleQuoted, s.options.warnUnknownEscapes, s.pos⟩

/-- How the body of a here-doc is read. -/
def OpenHereDoc.quoting (h : OpenHereDoc) (s : State) : Quoting :=
  ⟨(h.bodyState s).mode, (h.bodyState s).escapes, false, 0⟩

/-- The task succeeds with these tokens and leaves this state. -/
inductive Runs : Task → State → List Token → State → Prop
  | nothing {s : State} (h : opening? s.template.isSome s.rest = none) : Runs .step s [] s
  | quoted {s s' : State} {ts : List Token}
      (h : opening? s.template.isSome s.rest = some .doubleQuote)
      (hrun : Runs (.fragments s.quoting s.pos true []) { s with pos := s.pos + 1 } ts s') :
      Runs .step s ts s'
  | documented {s s' : State} {ts : List Token}
      (h : opening? s.template.isSome s.rest = some .hereDoc) (hrun : Runs .hereDoc s ts s') :
      Runs .step s ts s'
  | plain {s s' : State} {ts : List Token} {o : Opening}
      (h : opening? s.template.isSome s.rest = some o) (hhereDoc : o ≠ .hereDoc)
      (hquote : o ≠ .doubleQuote) (htake : takePlain o s = .ok ts s') : Runs .step s ts s'
  /-- the last fragment of a text -/
  | last {q : Quoting} {start : Nat} {first : Bool} {pending : List Char} {s s' : State}
      {run : Quote.Run} (hrun : takeRun q s = .ok run s')
      (hstop : run.stop = .quote ∨ run.stop = .endOfText) :
      Runs (.fragments q start first pending) s
        [s'.textToken (if first then .string else .stringEnd)
          (pending ++ run.text) start run.next] s'
  /-- a fragment, code in braces and the rest of the text -/
  | braces {q : Quoting} {start : Nat} {first : Bool} {pending : List Char} {s s₁ s₂ s₃ : State}
      {run : Quote.Run} {code rest : List Token} (hrun : takeRun q s = .ok run s₁)
      (hstop : run.stop = .dollarBrace)
      (hcode : Runs (.code s₁.braceDepth []) { s₁ with braceDepth := s₁.braceDepth + 1 } code s₂)
      (hrest : Runs (.fragments q s₂.pos false []) s₂ rest s₃) :
      Runs (.fragments q start first pending) s
        (s₁.textToken (fragmentKind first) (pending ++ run.text) start run.next :: code ++ rest) s₃
  /-- a fragment, a variable and the rest of the text -/
  | reference {q : Quoting} {start : Nat} {first : Bool} {pending : List Char} {s s₁ s₂ : State}
      {run : Quote.Run} {name : List Char} {rest : List Token} (hrun : takeRun q s = .ok run s₁)
      (hstop : run.stop = .dollar) (hname : Token.variableName? s₁.rest = some name)
      (hrest : Runs (.fragments q (run.next + Text.byteLength name) false [])
        { s₁ with pos := run.next + Text.byteLength name } rest s₂) :
      Runs (.fragments q start first pending) s
        (s₁.textToken (fragmentKind first) (pending ++ run.text) start (run.next - 1) ::
          s₁.textToken .variable name (run.next - 1) (run.next + Text.byteLength name) :: rest)
        s₂
  /-- a dollar sign that begins nothing -/
  | dollar {q : Quoting} {start : Nat} {first : Bool} {pending : List Char} {s s₁ s₂ : State}
      {run : Quote.Run} {ts : List Token} (hrun : takeRun q s = .ok run s₁)
      (hstop : run.stop = .dollar) (hname : Token.variableName? s₁.rest = none)
      (hrest : Runs (.fragments q start first (pending ++ run.text ++ ['$'])) s₁ ts s₂) :
      Runs (.fragments q start first pending) s ts s₂
  /-- the text ends in the code -/
  | ended {depth : Nat} {tokens : List Token} {s : State} (hend : s.atEnd) :
      Runs (.code depth tokens) s tokens s
  /-- the brace that closes the code -/
  | closed {depth : Nat} {tokens batch : List Token} {s s' : State} (hend : s.atEnd = false)
      (hstep : Runs .step s batch s') (hcloses : closes depth batch s') :
      Runs (.code depth tokens) s (asVariable tokens) s'
  | more {depth : Nat} {tokens batch ts : List Token} {s s' s'' : State} (hend : s.atEnd = false)
      (hstep : Runs .step s batch s') (hcloses : closes depth batch s' = false)
      (hrest : Runs (.code depth (tokens ++ batch)) (s'.passed batch) ts s'') :
      Runs (.code depth tokens) s ts s''
  | hereDoc {s s₁ done : State} {found : OpenHereDoc} {tokens : List Token}
      (hfound : takeHereDoc s = .ok found s₁)
      (hbody : Runs (.fragments (found.quoting s₁) 0 true []) (found.bodyState s₁) tokens done) :
      Runs .hereDoc s (found.tokens s₁ ++ tokens)
        { s₁ with pos := found.next, resume := some found.bodyStop,
                  diagnostics := s₁.diagnostics ++ done.diagnostics }

variable {s s' : State} {ts : List Token} {fuel : Nat} {task : Task}

/-! ## Interpolations -/

/-- A token stays what it is, or becomes a variable over the same range. -/
theorem toVariable_cases (t : Token) : toVariable t = t ∨
    namesVariable t.kind ∧ ∃ value, toVariable t = { t with kind := .variable, value } := by
  unfold toVariable
  split
  next h => exact .inr ⟨h, _, rfl⟩
  next => exact .inl rfl

/-- The code of an interpolation stays what it is, or its first token becomes a variable. -/
theorem asVariable_cases (ts : List Token) : asVariable ts = ts ∨
    ∃ t us, ts = t :: us ∧ asVariable ts = toVariable t :: us := by
  unfold asVariable
  split
  next t => exact .inr ⟨t, [], rfl, rfl⟩
  next t u us =>
    split
    · exact .inr ⟨t, u :: us, rfl, rfl⟩
    · exact .inl rfl
  next => exact .inl rfl

/-- It stays what it is, or begins with what could name a variable, and then with that variable. -/
theorem asVariable_changes (ts : List Token) : asVariable ts = ts ∨
    ∃ t us value, ts = t :: us ∧ namesVariable t.kind ∧
      asVariable ts = { t with kind := .variable, value } :: us := by
  rcases asVariable_cases ts with heq | ⟨t, us, rfl, heq⟩
  · exact .inl heq
  · rcases toVariable_cases t with hsame | ⟨hnames, value, hvariable⟩
    · rw [hsame] at heq
      exact .inl heq
    · rw [hvariable] at heq
      exact .inr ⟨t, us, value, rfl, hnames, heq⟩

/-! ## One unit of fuel -/

/-- At the end of the text a step gives nothing. -/
theorem step_none (h : opening? s.template.isSome s.rest = none) :
    step (fuel + 1) s = .ok [] s := by
  rw [step, get_bind, h]
  rfl

/-- At a double quote a step reads fragments. -/
theorem step_doubleQuote (h : opening? s.template.isSome s.rest = some .doubleQuote) :
    step (fuel + 1) s = fragments fuel s.quoting s.pos true [] { s with pos := s.pos + 1 } := by
  rw [step, get_bind, h]
  rfl

/-- At `@(` it reads a here-doc. -/
theorem step_hereDoc (h : opening? s.template.isSome s.rest = some .hereDoc) :
    step (fuel + 1) s = hereDoc fuel s := by
  rw [step, get_bind, h]

/-- Anywhere else one rule decides. -/
theorem step_plain {o : Opening} (h : opening? s.template.isSome s.rest = some o)
    (hhereDoc : o ≠ .hereDoc) (hquote : o ≠ .doubleQuote) :
    step (fuel + 1) s = takePlain o s := by
  rw [step, get_bind, h]
  cases o with
  | hereDoc => exact absurd rfl hhereDoc
  | doubleQuote => exact absurd rfl hquote
  | _ => rfl

/-- What follows a run of text. -/
def afterRun (fuel : Nat) (q : Quoting) (start : Nat) (first : Bool) (pending : List Char)
    (run : Quote.Run) : Scanner (List Token) := do
  let text := pending ++ run.text
  let s ← get
  match run.stop with
  | .quote | .endOfText =>
      return [s.textToken (if first then .string else .stringEnd) text start run.next]
  | .dollarBrace =>
      let fragment := s.textToken (fragmentKind first) text start run.next
      set { s with braceDepth := s.braceDepth + 1 }
      let code ← codeUntil fuel s.braceDepth []
      let rest ← fragments fuel q (← get).pos false []
      return fragment :: code ++ rest
  | .dollar =>
      match Token.variableName? s.rest with
      | some name =>
          let dollar := run.next - 1
          let stop := run.next + Text.byteLength name
          let fragment := s.textToken (fragmentKind first) text start dollar
          let reference := s.textToken .variable name dollar stop
          set { s with pos := stop }
          let rest ← fragments fuel q stop false []
          return fragment :: reference :: rest
      | none => fragments fuel q start first (text ++ ['$'])

/-- Fragments begin with a run of text. -/
theorem fragments_succ (fuel : Nat) (q : Quoting) (start : Nat) (first : Bool)
    (pending : List Char) : fragments (fuel + 1) q start first pending
      = takeRun q >>= afterRun fuel q start first pending := by
  rw [fragments]
  rfl

/-- Code ends with the text. -/
theorem codeUntil_end {depth : Nat} {tokens : List Token} (h : s.atEnd) :
    codeUntil (fuel + 1) depth tokens s = .ok tokens s := by
  rw [codeUntil, get_bind, if_pos h]
  rfl

/-- What follows a step of code. -/
def afterStep (fuel depth : Nat) (tokens batch : List Token) : Scanner (List Token) := do
  let s ← get
  if closes depth batch s then return asVariable tokens
  set (s.passed batch)
  codeUntil fuel depth (tokens ++ batch)

/-- Before the end it goes on with a step. -/
theorem codeUntil_more {depth : Nat} {tokens : List Token} (h : s.atEnd = false) :
    codeUntil (fuel + 1) depth tokens s = (step fuel >>= afterStep fuel depth tokens) s := by
  rw [codeUntil, get_bind, if_neg (by rw [h]; exact Bool.false_ne_true)]
  rfl

/-- The body of a here-doc whose header was read. -/
def readBody (fuel : Nat) (found : OpenHereDoc) : Scanner (List Token) := fun s =>
  match fragments fuel (found.quoting s) 0 true [] (found.bodyState s) with
  | .ok tokens done => .ok (found.tokens s ++ tokens)
      { s with pos := found.next, resume := some found.bodyStop,
               diagnostics := s.diagnostics ++ done.diagnostics }
  | .error stop _ => .error stop s

/-- A here-doc begins with its header. -/
theorem hereDoc_succ (fuel : Nat) : hereDoc (fuel + 1) = takeHereDoc >>= readBody fuel := by
  rw [hereDoc]
  congr 1
  funext found s
  rw [get_bind, readBody]
  dsimp only [OpenHereDoc.quoting]
  cases fragments fuel ⟨(found.bodyState s).mode, (found.bodyState s).escapes, false, 0⟩ 0 true []
    (found.bodyState s) with
  | ok tokens done => rfl
  | error stop done => rfl

/-! ## Runs from fuel -/

/-- A step that succeeds is a run. -/
theorem runs_step (ih : ∀ (task : Task) {s ts s'}, task.run fuel s = .ok ts s' → Runs task s ts s')
    (h : step (fuel + 1) s = .ok ts s') : Runs .step s ts s' := by
  cases ho : opening? s.template.isSome s.rest with
  | none =>
      rw [step_none ho] at h
      obtain ⟨rfl, rfl⟩ := EStateM.Result.ok.inj h
      exact .nothing ho
  | some o =>
      by_cases hquote : o = .doubleQuote
      · subst hquote
        rw [step_doubleQuote ho] at h
        exact .quoted ho (ih (.fragments _ _ _ _) h)
      · by_cases hhereDoc : o = .hereDoc
        · subst hhereDoc
          rw [step_hereDoc ho] at h
          exact .documented ho (ih .hereDoc h)
        · rw [step_plain ho hhereDoc hquote] at h
          exact .plain ho hhereDoc hquote h

/-- Fragments that succeed are a run. -/
theorem runs_fragments {q : Quoting} {start : Nat} {first : Bool} {pending : List Char}
    (ih : ∀ (task : Task) {s ts s'}, task.run fuel s = .ok ts s' → Runs task s ts s')
    (h : fragments (fuel + 1) q start first pending s = .ok ts s') :
    Runs (.fragments q start first pending) s ts s' := by
  rw [fragments_succ] at h
  obtain ⟨run, s₁, hrun, h⟩ := bind_eq_ok h
  rw [afterRun, get_bind] at h
  cases hstop : run.stop with
  | quote =>
      rw [hstop] at h
      obtain ⟨rfl, rfl⟩ := EStateM.Result.ok.inj h
      exact .last hrun (.inl hstop)
  | endOfText =>
      rw [hstop] at h
      obtain ⟨rfl, rfl⟩ := EStateM.Result.ok.inj h
      exact .last hrun (.inr hstop)
  | dollarBrace =>
      simp only [hstop, set_bind] at h
      obtain ⟨code, s₂, hcode, h⟩ := bind_eq_ok h
      rw [get_bind] at h
      obtain ⟨rest, s₃, hrest, h⟩ := bind_eq_ok h
      obtain ⟨rfl, rfl⟩ := EStateM.Result.ok.inj h
      exact .braces hrun hstop (ih (.code _ _) hcode) (ih (.fragments _ _ _ _) hrest)
  | dollar =>
      rw [hstop] at h
      cases hname : Token.variableName? s₁.rest with
      | none =>
          simp only [hname] at h
          exact .dollar hrun hstop hname (ih (.fragments _ _ _ _) h)
      | some name =>
          simp only [hname, set_bind] at h
          obtain ⟨rest, s₂, hrest, h⟩ := bind_eq_ok h
          obtain ⟨rfl, rfl⟩ := EStateM.Result.ok.inj h
          exact .reference hrun hstop hname (ih (.fragments _ _ _ _) hrest)

/-- Code in braces that succeeds is a run. -/
theorem runs_code {depth : Nat} {tokens : List Token}
    (ih : ∀ (task : Task) {s ts s'}, task.run fuel s = .ok ts s' → Runs task s ts s')
    (h : codeUntil (fuel + 1) depth tokens s = .ok ts s') : Runs (.code depth tokens) s ts s' := by
  cases hend : s.atEnd with
  | true =>
      rw [codeUntil_end hend] at h
      obtain ⟨rfl, rfl⟩ := EStateM.Result.ok.inj h
      exact .ended hend
  | false =>
      rw [codeUntil_more hend] at h
      obtain ⟨batch, s₁, hbatch, h⟩ := bind_eq_ok h
      rw [afterStep, get_bind] at h
      cases hcloses : closes depth batch s₁ with
      | true =>
          rw [hcloses, if_pos rfl] at h
          obtain ⟨rfl, rfl⟩ := EStateM.Result.ok.inj h
          exact .closed hend (ih .step hbatch) hcloses
      | false =>
          rw [hcloses, if_neg Bool.false_ne_true, set_bind] at h
          exact .more hend (ih .step hbatch) hcloses (ih (.code _ _) h)

/-- A here-doc that succeeds is a run. -/
theorem runs_hereDoc
    (ih : ∀ (task : Task) {s ts s'}, task.run fuel s = .ok ts s' → Runs task s ts s')
    (h : hereDoc (fuel + 1) s = .ok ts s') : Runs .hereDoc s ts s' := by
  rw [hereDoc_succ] at h
  obtain ⟨found, s₁, hfound, h⟩ := bind_eq_ok h
  rw [readBody] at h
  split at h
  next tokens done hbody =>
    obtain ⟨rfl, rfl⟩ := EStateM.Result.ok.inj h
    exact .hereDoc hfound (ih (.fragments _ _ _ _) hbody)
  next => exact nomatch h

/-- A task that succeeds runs as `Runs` says. -/
theorem runs_of_run (h : task.run fuel s = .ok ts s') : Runs task s ts s' := by
  induction fuel generalizing task s ts s' with
  | zero => cases task <;> exact nomatch h
  | succ fuel ih =>
      cases task with
      | step => exact runs_step (fun _ => ih) h
      | fragments q start first pending => exact runs_fragments (fun _ => ih) h
      | code depth tokens => exact runs_code (fun _ => ih) h
      | hereDoc => exact runs_hereDoc (fun _ => ih) h

end Manifest.Scan
