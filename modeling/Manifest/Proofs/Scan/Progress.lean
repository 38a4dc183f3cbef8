import Manifest.Proofs.Scan.HereDoc
import Manifest.Proofs.Scan.Rule
import Manifest.Proofs.Scan.Run
import Mathlib.Tactic.Ring

/-!
# Scans move on

The cursor of a scan may go back: a line feed leads to the end of the last here-doc body, which a
string or a comment may have passed. What is ahead of a scan decreases all the same. It counts the
bytes behind the place where a line feed leads, each as much as the whole text, and then the bytes
behind the cursor; the body of a here-doc, scanned on its own, takes less than its bytes count.

* `State.Sound` — the cursor, and the place that a line feed leads to, are boundaries.
* `State.ahead` — what is ahead of a scan.
* `Runs.advances` — a scan that succeeds keeps the first and decreases the second, by no less than
  the number of its tokens.
* `Runs.inner` — none of its tokens marks the end of the text.
-/

namespace Manifest.Scan

open Text (Boundary byteLength byteLength_append)

variable {s s' s₁ : State} {cs ds rest : List Char} {ts : List Token} {q : Quoting}
  {run : Quote.Run} {found : OpenHereDoc}

/-! ## Text with interpolations -/

/-- Escapes without a meaning as diagnostics. -/
def escapeIssues (source : Text.Source) (unknown : List (Nat × Char)) : List Diagnostic :=
  unknown.map fun (offset, c) => (Problem.unknownEscape c).located (source.positionAt offset)

/-- Unknown escapes are reported in their order. -/
theorem foldl_report (s : State) (unknown : List (Nat × Char)) :
    unknown.foldl (fun s (offset, c) => s.report (.unknownEscape c) offset) s
      = { s with diagnostics := s.diagnostics ++ escapeIssues s.source unknown } := by
  induction unknown generalizing s with
  | nil =>
      show s = { s with diagnostics := s.diagnostics ++ [] }
      rw [List.append_nil]
  | cons escape unknown ih =>
      rw [List.foldl_cons, ih]
      show ({ s with
        diagnostics := s.diagnostics ++ [_] ++ escapeIssues s.source unknown } : State) = _
      rw [List.append_assoc]
      rfl

/-- A run that is taken was collected at the cursor, and the cursor stands behind it. The escapes
that it notes are reported. -/
theorem takeRun_eq (h : takeRun q s = .ok run s') :
    (Quote.collect q.mode q.escapes s.pos s.rest).run = .ok run ∧
      s' = { s with pos := run.next, diagnostics := s.diagnostics ++ if q.warns then
        escapeIssues s.source (Quote.collect q.mode q.escapes s.pos s.rest).unknown else [] } := by
  unfold takeRun at h
  rw [get_bind] at h
  dsimp only at h
  rw [foldl_report] at h
  cases hrun : (Quote.collect q.mode q.escapes s.pos s.rest).run with
  | error fault =>
      rw [hrun] at h
      cases fault <;> exact nomatch h
  | ok run' =>
      rw [hrun] at h
      obtain ⟨rfl, rfl⟩ := EStateM.Result.ok.inj h
      refine ⟨rfl, ?_⟩
      cases q.warns with
      | true => rfl
      | false =>
          rw [if_neg Bool.false_ne_true, if_neg Bool.false_ne_true, List.append_nil]

/-- A run is what is collected from the rest, and only diagnostics are added. -/
theorem takeRun_ok (h : takeRun q s = .ok run s') :
    (Quote.collect q.mode q.escapes s.pos s.rest).run = .ok run ∧
      ∃ ds, s' = { s with pos := run.next, diagnostics := ds } := by
  obtain ⟨hrun, rfl⟩ := takeRun_eq h
  exact ⟨hrun, _, rfl⟩

/-- A run takes a front of the text that is left. -/
theorem takeRun_spec (hat : s.At cs) (h : takeRun q s = .ok run s') :
    ∃ front rest, cs = front ++ rest ∧ s.Moves front s' ∧ s'.pos = run.next ∧
      Quote.StopsAt q.mode run.stop front rest := by
  obtain ⟨hrun, ds, rfl⟩ := takeRun_ok h
  rw [hat.rest] at hrun
  obtain ⟨front, rest, rfl, hnext, hstop⟩ := Quote.collect_spec hrun
  exact ⟨front, rest, rfl, ⟨rfl, rfl, rfl, rfl, hnext⟩, rfl, hstop⟩

/-! ## Soundness -/

/-- The cursor stands on a boundary, and a line feed leads to one. -/
structure State.Sound (s : State) : Prop where
  cursor : Boundary s.text s.pos
  resume : ∀ r ∈ s.resume, Boundary s.text r

/-- At the start of a text the state is sound. -/
theorem State.sound_start (s : State) (hpos : s.pos = 0) (hresume : s.resume = none) : s.Sound := by
  constructor
  · rw [hpos]
    exact Text.boundary_zero _
  · intro r hr
    rw [hresume] at hr
    exact nomatch hr

/-- A cursor that moves over a part of the text stays sound. -/
theorem State.Moves.sound (h : s.Moves ds s') (hsound : s.Sound) (hat : s.At (ds ++ cs)) :
    s'.Sound := by
  constructor
  · exact (h.at hat).boundary
  · rw [h.resume, h.text]
    exact hsound.resume

/-! ## What is ahead -/

/-- What is ahead of a scan; it is zero at the end of the text. -/
def State.ahead (s : State) : Nat :=
  match s.resume with
  | none => (s.size - s.pos) * (s.size + 2)
  | some r => (s.size - r) * (s.size + 2) + (s.size - s.pos) + 1

/-- What is ahead depends on the text, the cursor and the place that a line feed leads to. -/
theorem State.ahead_congr (htext : s'.text = s.text) (hpos : s'.pos = s.pos)
    (hresume : s'.resume = s.resume) : s'.ahead = s.ahead := by
  unfold State.ahead State.size
  rw [htext, hpos, hresume]

/-- Moving on decreases what is ahead by the bytes that are passed, at least. -/
theorem State.Moves.ahead (h : s.Moves ds s') (hat : s.At (ds ++ cs)) :
    byteLength ds + s'.ahead ≤ s.ahead := by
  have hsize : s.size = s.pos + (byteLength ds + byteLength cs) := by
    rw [hat.size, byteLength_append]
  have hsize' : s'.size = s.size := congrArg byteLength h.text
  unfold State.ahead
  rw [h.resume, h.pos, hsize', hsize]
  generalize byteLength ds = d
  generalize byteLength cs = c
  cases s.resume with
  -- each byte counts as much as the text and two are long
  | none =>
      rw [show s.pos + (d + c) - (s.pos + d) = c by omega, Nat.add_sub_cancel_left, Nat.add_mul]
      exact Nat.add_le_add_right (Nat.le_mul_of_pos_right d (Nat.succ_pos _)) _
  | some r =>
      dsimp only
      omega

/-! ## Rules -/

/-- A line feed leads to the end of the last here-doc body, or behind itself. -/
theorem newline_progress {next : Nat} (hsound : s.Sound) (hat : s.At ('\n' :: rest))
    (hnext : next = s.resume.getD (s.pos + 1)) :
    State.Sound { s with pos := next, lineStart := next, resume := none } ∧
      State.ahead { s with pos := next, lineStart := next, resume := none } < s.ahead := by
  have hmove := s.moves_pos ['\n']
  cases hresume : s.resume with
  | none =>
      have hpos : next = s.pos + 1 := by rw [hnext, hresume]; rfl
      have hahead := hmove.ahead hat
      have hsame : State.ahead { s with pos := next, lineStart := next, resume := none }
          = State.ahead { s with pos := s.pos + byteLength ['\n'] } :=
        State.ahead_congr rfl hpos hresume.symm
      refine ⟨⟨?_, nofun⟩, ?_⟩
      · rw [hpos]
        exact (hmove.at hat).boundary
      · rw [hsame]
        exact Nat.lt_of_lt_of_le (Nat.lt_add_of_pos_left Nat.one_pos) hahead
  | some r =>
      have hr : next = r := by rw [hnext, hresume]; rfl
      refine ⟨⟨?_, nofun⟩, ?_⟩
      · rw [hr]
        exact hsound.resume r hresume
      · unfold State.ahead
        rw [hresume, hr]
        exact Nat.lt_succ_of_le (Nat.le_add_right _ _)

/-- A rule that succeeds moves on. -/
theorem Took.progress (h : Took s cs ts s') (hsound : s.Sound) (hat : s.At cs) :
    s'.Sound ∧ s'.text = s.text ∧ ts.length + s'.ahead ≤ s.ahead ∧ s'.ahead < s.ahead := by
  cases h with
  | skipped hpiece hmove =>
      have hahead := hmove.ahead hat
      have hpos := Text.byteLength_pos hpiece.ne_nil
      exact ⟨hmove.sound hsound hat, hmove.text, by rw [List.length_nil]; omega, by omega⟩
  | newline rest =>
      obtain ⟨hsound', hahead⟩ := newline_progress hsound hat rfl
      exact ⟨hsound', rfl, by rw [List.length_nil, Nat.zero_add]; exact Nat.le_of_lt hahead, hahead⟩
  | token hne hmove _ _ =>
      have hahead := hmove.ahead hat
      have hpos := Text.byteLength_pos hne
      exact ⟨hmove.sound hsound hat, hmove.text, by rw [List.length_singleton]; omega, by omega⟩
  | template _ hne hmove hlength _ =>
      have hahead := hmove.ahead hat
      have hpos := Text.byteLength_pos hne
      exact ⟨hmove.sound hsound hat, hmove.text, by omega, by omega⟩

/-! ## Here-docs -/

/-- The parts of a here-doc in a text: its header, and its body with the end line. -/
structure OpenHereDoc.Fits (h : OpenHereDoc) (s : State) : Prop where
  next : Boundary s.text h.next
  next_le : s.pos + 3 ≤ h.next
  bodyStop : Boundary s.text h.bodyStop
  body_le : h.bodyStart + byteLength h.body.excerpt.body.text ≤ h.bodyStop
  /-- the body begins on the next line, or where the last one ended -/
  bodyStart : match s.resume with
    | none => h.next < h.bodyStart
    | some r => h.bodyStart = r

/-- Where the body of a here-doc begins is a boundary. -/
theorem bodyStart?_spec {next start : Nat} (hsound : s.Sound) (hnext : Boundary s.text next)
    (h : bodyStart? s next = some start) : Boundary s.text start ∧ match s.resume with
      | none => next < start
      | some r => start = r := by
  cases hresume : s.resume with
  | some r =>
      obtain rfl := eq_of_bodyStart? hresume h
      exact ⟨hsound.resume start hresume, rfl⟩
  | none =>
      obtain ⟨front, line, rest, htext, -, rfl, rfl⟩ := nextLine_of_bodyStart? hresume hnext h
      refine ⟨⟨front ++ line ++ ['\n'], rest, ?_, rfl⟩, ?_⟩
      · rw [htext, List.append_assoc _ ['\n']]
        rfl
      · rw [byteLength_append, byteLength_append]
        exact Nat.lt_succ_of_le (Nat.le_add_right _ _)

/-- Behind the header of a here-doc stands a boundary. -/
theorem OpenHereDoc.ReadFrom.next_boundary {raw : List (List Char)} {line : List Char}
    {ending : HereDoc.EndLine} (h : found.ReadFrom s raw line ending)
      (hat : s.At ('@' :: '(' :: cs)) :
    Boundary s.text found.next ∧ s.pos + 3 ≤ found.next := by
  obtain ⟨spelling, rest, hrest, -, hnext⟩ := h.header
  rw [hat.rest] at hrest
  obtain rfl : cs = spelling ++ ')' :: rest := hrest
  rw [hnext]
  refine ⟨?_, Nat.le_add_right _ _⟩
  obtain ⟨front, htext, hpos⟩ := hat
  refine ⟨front ++ '@' :: '(' :: spelling ++ [')'], rest, ?_, ?_⟩
  · rw [htext, List.append_assoc, List.append_assoc]
    rfl
  · rw [byteLength_append, byteLength_append, hpos]
    show byteLength front + 3 + byteLength spelling
      = byteLength front + (1 + (1 + byteLength spelling)) + 1
    omega

/-- From where its body begins on, the text is made up of the lines of the body, the end line, and
further lines. -/
theorem OpenHereDoc.ReadFrom.exists_split {raw : List (List Char)} {line : List Char}
    {ending : HereDoc.EndLine} (h : found.ReadFrom s raw line ending) (hsound : s.Sound)
    (hat : s.At ('@' :: '(' :: cs)) : ∃ front more,
      s.text = front ++ (raw.flatten ++ (line ++ more.flatten)) ∧
      found.bodyStart = byteLength front ∧
      HereDoc.linesOf (raw.flatten ++ (line ++ more.flatten)) = raw ++ line :: more := by
  obtain ⟨⟨front, rest, htext, hstart⟩, -⟩ := bodyStart?_spec hsound (h.next_boundary hat).1 h.start
  obtain ⟨more, hlines⟩ := h.lines
  rw [htext, hstart, Text.dropBytes_byteLength] at hlines
  have hrest : rest = raw.flatten ++ (line ++ more.flatten) := by
    rw [← HereDoc.linesOf_flatten rest, hlines, List.flatten_append, List.flatten_cons]
  rw [hrest] at htext hlines
  exact ⟨front, more, htext, hstart, hlines⟩

/-- A here-doc that was read from parts of the text fits into it. -/
theorem OpenHereDoc.ReadFrom.fits {raw : List (List Char)} {line : List Char}
    {ending : HereDoc.EndLine} (h : found.ReadFrom s raw line ending) (hsound : s.Sound)
    (hat : s.At ('@' :: '(' :: cs)) : found.Fits s := by
  obtain ⟨hnext, hle⟩ := h.next_boundary hat
  obtain ⟨-, horder⟩ := bodyStart?_spec hsound hnext h.start
  obtain ⟨front, more, htext, hstart, -⟩ := h.exists_split hsound hat
  refine ⟨hnext, hle, ⟨front ++ raw.flatten ++ line, more.flatten, ?_, ?_⟩, ?_, horder⟩
  · rw [htext]
    simp only [List.append_assoc]
  · rw [h.bodyStop, h.endLine, hstart, byteLength_append, byteLength_append]
  · rw [h.bodyStop, h.endLine, h.body]
    refine Nat.le_trans (Nat.add_le_add_left ?_ _) (Nat.le_add_right _ _)
    exact HereDoc.shapeBody_length_le ending raw

/-- A here-doc that is found fits into the text. -/
theorem takeHereDoc_ok (hsound : s.Sound) (hat : s.At ('@' :: '(' :: cs))
    (h : takeHereDoc s = .ok found s') :
    found.Fits s ∧ ∃ ds, s' = { s with diagnostics := ds } := by
  obtain ⟨⟨raw, line, ending, hread⟩, hs'⟩ := takeHereDoc_read h
  exact ⟨hread.fits hsound hat, hs'⟩

/-- The body of a here-doc, scanned on its own, is less than the here-doc brings ahead. -/
theorem OpenHereDoc.Fits.ahead (h : found.Fits s) (hs : s'.text = s.text)
    (hpos : s'.pos = found.next) (hresume : s'.resume = some found.bodyStop) :
    (found.bodyState s₁).ahead + s'.ahead + 3 ≤ s.ahead := by
  have hnext := h.next.le
  have hstop := h.bodyStop.le
  have hbody := h.body_le
  have hpos' := h.next_le
  have horder := h.bodyStart
  have hsize : s'.size = s.size := congrArg byteLength hs
  have hown : (found.bodyState s₁).ahead
      = byteLength found.body.excerpt.body.text *
        (byteLength found.body.excerpt.body.text + 2) := rfl
  rw [hown]
  generalize byteLength found.body.excerpt.body.text = k at hbody ⊢
  change found.next ≤ s.size at hnext
  change found.bodyStop ≤ s.size at hstop
  unfold State.ahead
  rw [hresume, hpos, hsize]
  dsimp only
  -- the bytes of the body, with each of them counted as much as the whole text
  have hk : k * (k + 2) ≤ k * (s.size + 2) := Nat.mul_le_mul_left _ (by omega)
  cases hr : s.resume with
  | none =>
      rw [hr] at horder
      have hsplit : (s.size - found.bodyStop + (k + 4)) * (s.size + 2)
          ≤ (s.size - s.pos) * (s.size + 2) := Nat.mul_le_mul_right _ (by omega)
      rw [Nat.add_mul, Nat.add_mul] at hsplit
      dsimp only
      omega
  | some r =>
      rw [hr] at horder
      have hsplit : (s.size - found.bodyStop + k) * (s.size + 2)
          ≤ (s.size - r) * (s.size + 2) := Nat.mul_le_mul_right _ (by omega)
      rw [Nat.add_mul] at hsplit
      dsimp only
      omega

/-! ## Runs -/

/-- What a task expects of the text at the cursor. -/
def Task.Ready (s : State) : Task → Prop
  | .hereDoc => ∃ cs, s.At ('@' :: '(' :: cs)
  | .step | .fragments .. | .code .. => True

/-- What a task that succeeds uses up. Text with interpolations may end at the end of the text, and
its last token uses up nothing there. -/
def Task.Advances (s : State) (ts : List Token) (s' : State) : Task → Prop
  | .step => ts.length + s'.ahead ≤ s.ahead ∧ (s.atEnd = false → s'.ahead < s.ahead)
  | .fragments .. => ts.length + s'.ahead ≤ s.ahead + 1 ∧ s'.ahead ≤ s.ahead
  | .code _ tokens => ts.length + s'.ahead ≤ s.ahead + tokens.length
  | .hereDoc => ts.length + s'.ahead ≤ s.ahead ∧ s'.ahead < s.ahead

/-- The text stays what it is, and so does the soundness of the cursor. -/
structure State.Keeps (s s' : State) : Prop where
  sound : s'.Sound
  text : s'.text = s.text

/-- Nothing is opened only at the end of the text. -/
theorem opening?_eq_none {inTemplate : Bool} (h : opening? inTemplate cs = none) : cs = [] := by
  unfold opening? at h
  split at h
  case h_1 => rfl
  case h_15 => split at h <;> exact nomatch h
  all_goals exact nomatch h

/-- Names become variables one for one. -/
theorem length_asVariable (ts : List Token) : (asVariable ts).length = ts.length := by
  rcases asVariable_cases ts with h | ⟨t, us, rfl, h⟩
  · rw [h]
  · rw [h]
    rfl

/-- A batch of tokens changes what is remembered, and nothing else. -/
theorem passed_eq (s : State) (batch : List Token) :
    ∃ k, s.passed batch = { s with after := k } := by
  unfold State.passed
  split
  · exact ⟨_, rfl⟩
  · exact ⟨_, rfl⟩

/-- A state that differs in what is kept beside the text and the cursor. -/
theorem State.Sound.congr (h : s.Sound) (htext : s'.text = s.text) (hpos : s'.pos = s.pos)
    (hresume : s'.resume = s.resume) : s'.Sound := by
  constructor
  · rw [htext, hpos]
    exact h.cursor
  · rw [htext, hresume]
    exact h.resume

/-- A run of text that is taken keeps the state and uses up its bytes. -/
theorem takeRun_advances (hsound : s.Sound) (h : takeRun q s = .ok run s') :
    ∃ front rest, s.Keeps s' ∧ byteLength front + s'.ahead ≤ s.ahead ∧ s'.pos = run.next ∧
      s'.At rest ∧ Quote.StopsAt q.mode run.stop front rest := by
  obtain ⟨cs, hat⟩ := s.at_of_boundary hsound.cursor
  obtain ⟨front, rest, rfl, hmove, hpos, hstop⟩ := takeRun_spec hat h
  exact ⟨front, rest, ⟨hmove.sound hsound hat, hmove.text⟩, hmove.ahead hat, hpos, hmove.at hat,
    hstop⟩

/-- What stops a run at a dollar sign takes a byte at least, and two with a brace. -/
theorem stopsAt_length {mode : Quote.Mode} {stop : Quote.Stop} {front : List Char}
    (h : Quote.StopsAt mode stop front rest) :
    (stop = .dollar → 1 ≤ byteLength front) ∧ (stop = .dollarBrace → 2 ≤ byteLength front) := by
  constructor
  · intro hstop
    exact Text.byteLength_pos (h.ne_nil (by rw [hstop]; exact nofun))
  · rintro rfl
    cases h with
    | dollarBrace body rest hmode =>
        rw [byteLength_append]
        exact Nat.le_add_left 2 _

/-- What is kept over two steps. -/
theorem State.Keeps.trans {s'' : State} (h : s.Keeps s') (h' : s'.Keeps s'') : s.Keeps s'' :=
  ⟨h'.sound, h'.text.trans h.text⟩

/-- The text at the cursor begins as the rule says. -/
theorem at_of_opening (hsound : s.Sound) {o : Opening}
    (h : opening? s.template.isSome s.rest = some o) :
    ∃ cs, s.At cs ∧ opening? s.template.isSome cs = some o := by
  obtain ⟨cs, hat⟩ := s.at_of_boundary hsound.cursor
  rw [hat.rest] at h
  exact ⟨cs, hat, h⟩

/-- A step over an opening quote, before the text in it. -/
theorem quote_advances (hsound : s.Sound)
    (h : opening? s.template.isSome s.rest = some .doubleQuote) :
    s.Keeps { s with pos := s.pos + 1 } ∧
      State.ahead { s with pos := s.pos + 1 } + 1 ≤ s.ahead := by
  obtain ⟨cs, hat, ho⟩ := at_of_opening hsound h
  obtain ⟨rest, rfl⟩ := opening?_begins ho
  have hmove := s.moves_pos ['"']
  have hahead := hmove.ahead hat
  exact ⟨⟨hmove.sound hsound hat, rfl⟩, by rw [Nat.add_comm]; exact hahead⟩

/-- The name of a variable is a front of the text at the cursor. -/
theorem name_advances {name : List Char} (hsound : s.Sound)
    (h : Token.variableName? s.rest = some name) :
    s.Keeps { s with pos := s.pos + byteLength name } ∧
      State.ahead { s with pos := s.pos + byteLength name } < s.ahead := by
  obtain ⟨cs, hat⟩ := s.at_of_boundary hsound.cursor
  rw [hat.rest] at h
  obtain ⟨⟨rest, rfl⟩, hne⟩ := Token.variableName?_isPrefix h
  have hmove := s.moves_pos name
  have hahead := hmove.ahead hat
  have hpos := Text.byteLength_pos hne
  exact ⟨⟨hmove.sound hsound hat, rfl⟩, by omega⟩

/-- A task that succeeds keeps the text and the soundness of the state, and moves on. -/
theorem Runs.advances {task : Task} (h : Runs task s ts s') (hsound : s.Sound)
    (hready : task.Ready s) : s.Keeps s' ∧ task.Advances s ts s' := by
  induction h with
  | @nothing s h =>
      obtain ⟨cs, hat⟩ := s.at_of_boundary hsound.cursor
      rw [hat.rest] at h
      -- nothing begins at the end of the text, and only there
      have hend : s.atEnd := hat.atEnd_iff.2 (opening?_eq_none h)
      refine ⟨⟨hsound, rfl⟩, Nat.le_of_eq (Nat.zero_add _), ?_⟩
      intro hne
      exact Bool.noConfusion (hend.symm.trans hne)
  | quoted h hrun ih =>
      obtain ⟨hkeeps, hahead⟩ := quote_advances hsound h
      obtain ⟨hkeeps', hlength, hle⟩ := ih hkeeps.sound trivial
      refine ⟨hkeeps.trans hkeeps', ?_, ?_⟩
      · omega
      · intro _
        omega
  | documented h hrun ih =>
      obtain ⟨cs, hat, ho⟩ := at_of_opening hsound h
      obtain ⟨rest, rfl⟩ := opening?_begins ho
      obtain ⟨hkeeps, hlength, hlt⟩ := ih hsound ⟨rest, hat⟩
      exact ⟨hkeeps, hlength, fun _ => hlt⟩
  | plain h hhereDoc hquote htake =>
      obtain ⟨cs, hat, ho⟩ := at_of_opening hsound h
      obtain ⟨hsound', htext, hlength, hlt⟩ :=
        (takePlain_took hat ho hhereDoc hquote htake).progress hsound hat
      exact ⟨⟨hsound', htext⟩, hlength, fun _ => hlt⟩
  | last hrun hstop =>
      obtain ⟨front, rest, hkeeps, hahead, -⟩ := takeRun_advances hsound hrun
      refine ⟨hkeeps, ?_, ?_⟩
      · rw [List.length_singleton]
        omega
      · omega
  | @braces q start first pending s s₁ s₂ s₃ run code rest hrun hstop hcode hrest ihcode ihrest =>
      obtain ⟨front, after, hkeeps, hahead, -, -, hstops⟩ := takeRun_advances hsound hrun
      -- the two bytes of `${` pay for the token before it and the one at the end of the text
      have hfront := (stopsAt_length hstops).2 hstop
      have hsame : State.ahead { s₁ with braceDepth := s₁.braceDepth + 1 } = s₁.ahead :=
        State.ahead_congr rfl rfl rfl
      obtain ⟨hkeeps', hcode⟩ := ihcode (hkeeps.sound.congr rfl rfl rfl) trivial
      obtain ⟨hkeeps'', hrest, hle⟩ := ihrest hkeeps'.sound trivial
      change code.length + s₂.ahead ≤ State.ahead { s₁ with braceDepth := s₁.braceDepth + 1 } + 0
        at hcode
      refine ⟨⟨hkeeps''.sound, ?_⟩, ?_, ?_⟩
      · rw [hkeeps''.text, hkeeps'.text, hkeeps.text]
      · rw [List.cons_append, List.length_cons, List.length_append]
        omega
      · omega
  | @reference q start first pending s s₁ s₂ run name rest hrun hstop hname hrest ih =>
      obtain ⟨front, after, hkeeps, hahead, hpos, -, hstops⟩ := takeRun_advances hsound hrun
      have hfront := (stopsAt_length hstops).1 hstop
      obtain ⟨hkeeps', hahead'⟩ := name_advances hkeeps.sound hname
      rw [hpos] at hkeeps' hahead'
      obtain ⟨hkeeps'', hrest, hle⟩ := ih hkeeps'.sound trivial
      refine ⟨hkeeps.trans (hkeeps'.trans hkeeps''), ?_, ?_⟩
      · rw [List.length_cons, List.length_cons]
        omega
      · omega
  | dollar hrun hstop hname hrest ih =>
      obtain ⟨front, after, hkeeps, hahead, -, -, hstops⟩ := takeRun_advances hsound hrun
      obtain ⟨hkeeps', hrest, hle⟩ := ih hkeeps.sound trivial
      refine ⟨hkeeps.trans hkeeps', ?_, ?_⟩
      · omega
      · omega
  | ended hend => exact ⟨⟨hsound, rfl⟩, Nat.le_of_eq (Nat.add_comm _ _)⟩
  | @closed depth tokens batch s s' hend hstep hcloses ih =>
      obtain ⟨hkeeps, hlength, hlt⟩ := ih hsound trivial
      refine ⟨hkeeps, ?_⟩
      show (asVariable tokens).length + s'.ahead ≤ s.ahead + tokens.length
      rw [length_asVariable]
      omega
  | @more depth tokens batch ts s s' s'' hend hstep hcloses hrest ihstep ihrest =>
      obtain ⟨hkeeps, hlength, hlt⟩ := ihstep hsound trivial
      obtain ⟨k, hk⟩ := passed_eq s' batch
      rw [hk] at ihrest
      obtain ⟨hkeeps', hrest⟩ := ihrest (hkeeps.sound.congr rfl rfl rfl) trivial
      have hsame : State.ahead { s' with after := k } = s'.ahead := State.ahead_congr rfl rfl rfl
      refine ⟨⟨hkeeps'.sound, hkeeps'.text.trans hkeeps.text⟩, ?_⟩
      change ts.length + s''.ahead ≤ State.ahead { s' with after := k } + (tokens ++ batch).length
        at hrest
      rw [List.length_append] at hrest
      show ts.length + s''.ahead ≤ s.ahead + tokens.length
      omega
  | @hereDoc s s₁ done found tokens hfound hbody ih =>
      obtain ⟨cs, hat⟩ := hready
      obtain ⟨hfits, ds, hs₁⟩ := takeHereDoc_ok hsound hat hfound
      have htext : s₁.text = s.text := by rw [hs₁]
      obtain ⟨-, hlength, -⟩ := ih (State.sound_start _ rfl rfl) trivial
      -- the body, a text of its own, and what is ahead behind the here-doc are less than before it
      have hbudget : (found.bodyState s₁).ahead + State.ahead { s₁ with
          pos := found.next, resume := some found.bodyStop,
          diagnostics := s₁.diagnostics ++ done.diagnostics } + 3 ≤ s.ahead :=
        hfits.ahead htext rfl rfl
      have htokens : (found.tokens s₁ ++ tokens).length = 2 + tokens.length := List.length_append
      refine ⟨⟨⟨?_, ?_⟩, htext⟩, ?_, ?_⟩
      · show Boundary s₁.text found.next
        rw [htext]
        exact hfits.next
      · intro r hr
        obtain rfl := Option.some.inj hr
        show Boundary s₁.text found.bodyStop
        rw [htext]
        exact hfits.bodyStop
      · rw [htokens]
        omega
      · omega

/-! ## The end of the text -/

theorem Inner.asVariable (h : Inner ts) : Inner (asVariable ts) := by
  rcases asVariable_changes ts with heq | ⟨t, us, value, rfl, -, heq⟩
  · rwa [heq]
  · rw [heq]
    exact .cons nofun (List.forall_mem_cons.1 h).2

/-- A rule never takes the end of the text. -/
theorem Took.inner (h : Took s cs ts s') : Inner ts := by
  cases h with
  | skipped => exact inner_nil
  | newline => exact inner_nil
  | token _ _ _ htoken => exact .cons htoken.inner inner_nil
  | template _ _ _ _ hplain => exact hplain.inner

/-- The tokens of a here-doc are not the end of the text. -/
theorem OpenHereDoc.inner_tokens (found : OpenHereDoc) (s : State) : Inner (found.tokens s) :=
  .cons nofun (.cons nofun inner_nil)

theorem fragmentKind_inner (first : Bool) : fragmentKind first ≠ .endOfText := by
  cases first <;> exact nofun

/-- The tokens that a task was given. -/
def Task.given : Task → List Token
  | .code _ tokens => tokens
  | .step | .fragments .. | .hereDoc => []

/-- A scan that succeeds does not make the token that marks the end of the text. -/
theorem Runs.inner {task : Task} (h : Runs task s ts s') (hsound : s.Sound)
    (hready : task.Ready s) (hgiven : Inner task.given) : Inner ts := by
  induction h with
  | nothing => exact inner_nil
  | quoted h hrun ih => exact ih (quote_advances hsound h).1.sound trivial inner_nil
  | documented h hrun ih =>
      obtain ⟨cs, hat, ho⟩ := at_of_opening hsound h
      obtain ⟨rest, rfl⟩ := opening?_begins ho
      exact ih hsound ⟨rest, hat⟩ inner_nil
  | plain h hhereDoc hquote htake =>
      obtain ⟨cs, hat, ho⟩ := at_of_opening hsound h
      exact (takePlain_took hat ho hhereDoc hquote htake).inner
  | @last q start first pending s s' run hrun hstop =>
      refine .cons ?_ inner_nil
      cases first <;> exact nofun
  | @braces q start first pending s s₁ s₂ s₃ run code rest hrun hstop hcode hrest ihcode ihrest =>
      obtain ⟨front, after, hkeeps, -⟩ := takeRun_advances hsound hrun
      have hsound₁ : State.Sound { s₁ with braceDepth := s₁.braceDepth + 1 } :=
        hkeeps.sound.congr rfl rfl rfl
      refine .cons (fragmentKind_inner first) (.append (ihcode hsound₁ trivial inner_nil) ?_)
      exact ihrest (hcode.advances hsound₁ trivial).1.sound trivial inner_nil
  | @reference q start first pending s s₁ s₂ run name rest hrun hstop hname hrest ih =>
      obtain ⟨front, after, hkeeps, -, hpos, -⟩ := takeRun_advances hsound hrun
      have hkeeps' := (name_advances hkeeps.sound hname).1
      rw [hpos] at hkeeps'
      exact .cons (fragmentKind_inner first) (.cons nofun (ih hkeeps'.sound trivial inner_nil))
  | dollar hrun hstop hname hrest ih =>
      obtain ⟨front, after, hkeeps, -⟩ := takeRun_advances hsound hrun
      exact ih hkeeps.sound trivial inner_nil
  | ended => exact hgiven
  | closed hend hstep hcloses ih => exact .asVariable hgiven
  | @more depth tokens batch ts s s' s'' hend hstep hcloses hrest ihstep ihrest =>
      obtain ⟨k, hk⟩ := passed_eq s' batch
      rw [hk] at ihrest
      have hsound' := (hstep.advances hsound trivial).1.sound
      refine ihrest (hsound'.congr rfl rfl rfl) trivial (.append hgiven ?_)
      exact ihstep hsound trivial inner_nil
  | @hereDoc s s₁ done found tokens hfound hbody ih =>
      exact .append (found.inner_tokens s₁) (ih (State.sound_start _ rfl rfl) trivial inner_nil)

end Manifest.Scan
