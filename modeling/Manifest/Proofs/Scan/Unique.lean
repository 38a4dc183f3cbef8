import Manifest.Proofs.Scan.Fuel

/-!
# One run of a task

Fuel decides whether a task is exhausted, and nothing else: with more of it, a task that was not
exhausted does what it did. So a task that runs succeeds with every fuel that is enough for it, and
it runs in one way only.

* `Grows`, `run_grows` — what more fuel does to a task.
* `Runs.run_eq` — a task that runs succeeds with any fuel that is enough.
* `Runs.unique` — a task has one run at most.
-/

namespace Manifest.Scan

variable {α β : Type} {x y : Scanner α} {f g : α → Scanner β} {a : α} {task : Task}
  {s s' s'' s₁ : State} {ts us : List Token} {fuel : Nat}

/-! ## More fuel -/

/-- A result takes no more fuel. -/
theorem not_exhausts_of_ok (h : x s = .ok a s') : ¬ Exhausts x s := by
  rintro ⟨s', hs'⟩
  exact nomatch h.symm.trans hs'

/-- A scanner does what another one does wherever that one has fuel enough. -/
def Grows (x y : Scanner α) : Prop := ∀ s, ¬ Exhausts x s → y s = x s

theorem Grows.rfl : Grows x x := fun _ _ => Eq.refl _

theorem grows_get {f g : State → Scanner β} (h : ∀ s, Grows (f s) (g s)) :
    Grows (get >>= f) (get >>= g) :=
  fun s => h s s

theorem grows_set {f g : PUnit → Scanner β} (s : State) (h : Grows (f ⟨⟩) (g ⟨⟩)) :
    Grows (set s >>= f) (set s >>= g) :=
  fun _ => h s

/-- More fuel does not change rules in a row. -/
theorem grows_bind (hx : Grows x y) (hf : ∀ a, Grows (f a) (g a)) : Grows (x >>= f) (y >>= g) := by
  intro s hfuel
  show EStateM.bind y g s = EStateM.bind x f s
  change ¬ ∃ s', EStateM.bind x f s = _ at hfuel
  unfold EStateM.bind at hfuel ⊢
  cases h : x s with
  | ok a s₁ =>
      rw [h] at hfuel
      rw [hx s (not_exhausts_of_ok h), h]
      exact hf a s₁ hfuel
  | error stop s₁ =>
      rw [h] at hfuel
      rw [hx s ?_, h]
      rintro ⟨s', hs'⟩
      obtain ⟨rfl, rfl⟩ := EStateM.Result.error.inj (h.symm.trans hs')
      exact hfuel ⟨s₁, rfl⟩

section

variable (ih : ∀ task : Task, Grows (task.run fuel) (task.run (fuel + 1)))

include ih

/-- More fuel does not change a step. -/
theorem grows_step : Grows (step (fuel + 1)) (step (fuel + 2)) := by
  rw [step, step]
  refine grows_get fun s => ?_
  split
  · exact Grows.rfl
  · exact grows_set _ (ih (.fragments _ _ _ _))
  · exact ih .hereDoc
  · exact Grows.rfl

theorem grows_afterRun (q : Quoting) (start : Nat) (first : Bool) (pending : List Char)
    (run : Quote.Run) : Grows (afterRun fuel q start first pending run)
      (afterRun (fuel + 1) q start first pending run) := by
  refine grows_get fun s => ?_
  split
  · exact Grows.rfl
  · exact Grows.rfl
  · refine grows_set _ (grows_bind (ih (.code _ _)) fun code => ?_)
    exact grows_get fun s => grows_bind (ih (.fragments _ _ _ _)) fun rest => Grows.rfl
  · split
    · exact grows_set _ (grows_bind (ih (.fragments _ _ _ _)) fun rest => Grows.rfl)
    · exact ih (.fragments _ _ _ _)

/-- More fuel does not change code in braces. -/
theorem grows_code (depth : Nat) (tokens : List Token) :
    Grows (codeUntil (fuel + 1) depth tokens) (codeUntil (fuel + 2) depth tokens) := by
  rw [codeUntil, codeUntil]
  refine grows_get fun s => ?_
  split
  · exact Grows.rfl
  · refine grows_bind (ih .step) fun batch => grows_get fun s => ?_
    split
    · exact Grows.rfl
    · exact grows_set _ (ih (.code _ _))

theorem grows_readBody (found : OpenHereDoc) :
    Grows (readBody fuel found) (readBody (fuel + 1) found) := by
  intro s hfuel
  have hbody := ih (.fragments (found.quoting s) 0 true []) (found.bodyState s)
  unfold readBody at hfuel ⊢
  rw [Task.run, Task.run] at hbody
  rw [hbody]
  rintro ⟨s', hs'⟩
  refine hfuel ⟨s, ?_⟩
  dsimp only
  rw [hs']

end

/-- With a unit of fuel more, a task does what it did, unless it was exhausted. -/
theorem run_grows (fuel : Nat) (task : Task) : Grows (task.run fuel) (task.run (fuel + 1)) := by
  induction fuel generalizing task with
  | zero =>
      intro s hfuel
      refine absurd ⟨s, ?_⟩ hfuel
      cases task <;> rfl
  | succ fuel ih =>
      cases task with
      | step => exact grows_step ih
      | fragments q start first pending =>
          rw [Task.run, Task.run, fragments_succ, fragments_succ]
          exact grows_bind Grows.rfl (grows_afterRun ih q start first pending)
      | code depth tokens => exact grows_code ih depth tokens
      | hereDoc =>
          rw [Task.run, Task.run, hereDoc_succ, hereDoc_succ]
          exact grows_bind Grows.rfl (grows_readBody ih)

/-- As soon as the fuel is enough, more of it changes nothing. -/
theorem run_of_le {fuel' : Nat} (hle : fuel ≤ fuel') (hfuel : ¬ Exhausts (task.run fuel) s) :
    task.run fuel' s = task.run fuel s := by
  induction hle with
  | refl => rfl
  | step _ ih =>
      refine (run_grows _ task s ?_).trans ih
      rwa [Exhausts, ih]

/-! ## Fuel for a run -/

theorem bind_of_ok (h : x s = .ok a s₁) : (x >>= f) s = f a s₁ := by
  show EStateM.bind x f s = _
  rw [EStateM.bind, h]

/-- A task that runs succeeds with some fuel. -/
theorem Runs.exists_fuel (h : Runs task s ts s') : ∃ fuel, task.run fuel s = .ok ts s' := by
  induction h with
  | nothing h => exact ⟨1, step_none h⟩
  | quoted h hrun ih =>
      obtain ⟨n, hn⟩ := ih
      exact ⟨n + 1, (step_doubleQuote h).trans hn⟩
  | documented h hrun ih =>
      obtain ⟨n, hn⟩ := ih
      exact ⟨n + 1, (step_hereDoc h).trans hn⟩
  | plain h hhereDoc hquote htake => exact ⟨1, (step_plain h hhereDoc hquote).trans htake⟩
  | last hrun hstop =>
      refine ⟨1, ?_⟩
      rw [Task.run, fragments_succ, bind_of_ok hrun, afterRun, get_bind]
      rcases hstop with hstop | hstop
      · rw [hstop]
        rfl
      · rw [hstop]
        rfl
  | @braces q start first pending s s₁ s₂ s₃ run code rest hrun hstop hcode hrest ihcode ihrest =>
      obtain ⟨n, hn⟩ := ihcode
      -- the greater of the two fuels is enough for both parts
      obtain ⟨m, hm⟩ := ihrest
      have hcode' : codeUntil (max n m) s₁.braceDepth []
          { s₁ with braceDepth := s₁.braceDepth + 1 } = .ok code s₂ :=
        (run_of_le (Nat.le_max_left n m) (not_exhausts_of_ok hn)).trans hn
      have hrest' : fragments (max n m) q s₂.pos false [] s₂ = .ok rest s₃ :=
        (run_of_le (Nat.le_max_right n m) (not_exhausts_of_ok hm)).trans hm
      refine ⟨max n m + 1, ?_⟩
      rw [Task.run, fragments_succ, bind_of_ok hrun, afterRun, get_bind, hstop]
      dsimp only
      rw [set_bind, bind_of_ok hcode', get_bind, bind_of_ok hrest']
      rfl
  | @reference q start first pending s s₁ s₂ run name rest hrun hstop hname hrest ih =>
      obtain ⟨n, hn⟩ := ih
      have hrest' : fragments n q (run.next + Text.byteLength name) false []
          { s₁ with pos := run.next + Text.byteLength name } = .ok rest s₂ := hn
      refine ⟨n + 1, ?_⟩
      rw [Task.run, fragments_succ, bind_of_ok hrun, afterRun, get_bind, hstop]
      dsimp only
      rw [hname]
      dsimp only
      rw [set_bind, bind_of_ok hrest']
      rfl
  | dollar hrun hstop hname hrest ih =>
      obtain ⟨n, hn⟩ := ih
      refine ⟨n + 1, ?_⟩
      rw [Task.run, fragments_succ, bind_of_ok hrun, afterRun, get_bind, hstop]
      dsimp only
      rw [hname]
      exact hn
  | ended hend => exact ⟨1, codeUntil_end hend⟩
  | @closed depth tokens batch s s' hend hstep hcloses ih =>
      obtain ⟨n, hn⟩ := ih
      have hstep' : step n s = .ok batch s' := hn
      refine ⟨n + 1, ?_⟩
      rw [Task.run, codeUntil_more hend, bind_of_ok hstep', afterStep, get_bind, if_pos hcloses]
      rfl
  | @more depth tokens batch ts s s' s'' hend hstep hcloses hrest ihstep ihrest =>
      obtain ⟨n, hn⟩ := ihstep
      obtain ⟨m, hm⟩ := ihrest
      have hstep' : step (max n m) s = .ok batch s' :=
        (run_of_le (Nat.le_max_left n m) (not_exhausts_of_ok hn)).trans hn
      refine ⟨max n m + 1, ?_⟩
      rw [Task.run, codeUntil_more hend, bind_of_ok hstep', afterStep, get_bind,
        if_neg (Bool.eq_false_iff.1 hcloses), set_bind]
      exact (run_of_le (Nat.le_max_right n m) (not_exhausts_of_ok hm)).trans hm
  | hereDoc hfound hbody ih =>
      obtain ⟨n, hn⟩ := ih
      rw [Task.run] at hn
      refine ⟨n + 1, ?_⟩
      rw [Task.run, hereDoc_succ, bind_of_ok hfound, readBody, hn]

/-- A task that runs succeeds with any fuel that is enough. -/
theorem Runs.run_eq (h : Runs task s ts s') (hfuel : ¬ Exhausts (task.run fuel) s) :
    task.run fuel s = .ok ts s' := by
  obtain ⟨n, hn⟩ := h.exists_fuel
  rw [← run_of_le (Nat.le_max_left fuel n) hfuel,
    run_of_le (Nat.le_max_right fuel n) (not_exhausts_of_ok hn), hn]

/-- A task runs in one way only. -/
theorem Runs.unique (h : Runs task s ts s') (h' : Runs task s us s'') : ts = us ∧ s' = s'' := by
  obtain ⟨n, hn⟩ := h'.exists_fuel
  exact EStateM.Result.ok.inj ((h.run_eq (not_exhausts_of_ok hn)).symm.trans hn)

end Manifest.Scan
