import Manifest.Proofs.Legacy.Steps

/-!
# Where an error stems from

A conversion that fails converts a part that fails, and that one a part of its own, down to the
expression whose rule refuses it or one of its parts. On its way back the error passes each of these
expressions, and the innermost of them that has a range gives it its place. From there on nothing
of it changes.

* `Trail` — the expressions that an error passes, and the error with which it leaves each.
* `Placed` — one expression of a trail gives the error its place, and none inside it could.
* `convert_eq_orAt` — an error is given a place once at most.
* `convert_placed` — every failure has a trail, and its error is placed in this way.
-/

namespace Manifest.Legacy

open Text (Range Source SourcePosition place)

variable {source : Option Source} {e c : Expr} {es : List Expr} {form : Form} {err : Error}
  {p : Problem}

/-! ## Converted parts are smaller -/

/-- Every part that the steps convert is smaller than `size`. -/
def StepsBelow (size : Nat) (ss : List Step) : Prop :=
  ∀ form c, .convert form c ∈ ss → sizeOf c < size

variable {size : Nat} {ss ts : List Step}

theorem stepsBelow_each (h : Below size es) : StepsBelow size (convertEach es) := by
  intro form c hc
  obtain ⟨d, hd, heq⟩ := List.mem_map.1 hc
  cases heq
  exact h c hd

theorem stepsBelow_map (form : Form) (h : Below size es) :
    StepsBelow size (es.map (.convert form)) := by
  intro form' c hc
  obtain ⟨d, hd, heq⟩ := List.mem_map.1 hc
  cases heq
  exact h c hd

/-- Steps that follow one another. -/
theorem StepsBelow.append (hss : StepsBelow size ss) (hts : StepsBelow size ts) :
    StepsBelow size (ss ++ ts) := fun form c hc =>
  (List.mem_append.1 hc).elim (hss form c) (hts form c)

theorem stepsBelow_refuse (p : Problem) : StepsBelow size [.refuse p] := by
  intro form c hc
  cases List.mem_singleton.1 hc

theorem stepsBelow_refusePart (part : Expr) (p : Problem) :
    StepsBelow size [.refusePart part p] := by
  intro form c hc
  cases List.mem_singleton.1 hc

theorem stepsBelow_nil : StepsBelow size [] := fun _ _ hc => nomatch hc

theorem stepsBelow_dollar : StepsBelow size (dollarSteps e) := by
  unfold dollarSteps
  split
  · exact stepsBelow_nil
  · exact stepsBelow_refuse _

theorem stepsBelow_target (h : sizeOf e < size) : StepsBelow size (targetSteps e) := by
  unfold targetSteps
  split
  · split
    · exact stepsBelow_nil
    · exact stepsBelow_refusePart _ _
  · exact stepsBelow_each (.cons h (.nil _))
  · exact stepsBelow_refusePart _ _

/-- An access converts its left side and its keys. -/
theorem stepsBelow_access {left : Expr} {keys : List Expr} (h : Below size (left :: keys)) :
    StepsBelow size (accessSteps left keys) := by
  obtain ⟨hleft, hkeys⟩ := List.forall_mem_cons.1 h
  have hfirst : Below size (left :: keys.take 1) :=
    .cons hleft fun c hc => hkeys c (List.mem_of_mem_take hc)
  unfold accessSteps
  split
  · exact stepsBelow_each hkeys
  · exact stepsBelow_each hkeys
  · exact stepsBelow_each hfirst
  · exact stepsBelow_each hfirst
  · exact stepsBelow_refuse _

theorem stepsBelow_key (h : sizeOf e < size) : StepsBelow size (keySteps e) := by
  unfold keySteps
  split
  · exact stepsBelow_nil
  · exact stepsBelow_each (.cons h (.nil _))
  · exact stepsBelow_each (.cons h (.nil _))
  · exact stepsBelow_refusePart _ _

/-- A hash converts its keys and values. -/
theorem stepsBelow_hash {entries : List (Entry Expr)}
    (h : Below size (entries.flatMap Entry.children)) :
    StepsBelow size (entries.flatMap entrySteps) := by
  intro form c hc
  obtain ⟨entry, hentry, hc⟩ := List.mem_flatMap.1 hc
  have hparts : Below size entry.children := fun d hd =>
    h d (List.mem_flatMap.2 ⟨entry, hentry, hd⟩)
  obtain ⟨hkey, hvalue⟩ := List.forall_mem_cons.1 hparts
  exact ((stepsBelow_key hkey).append (stepsBelow_each hvalue)) form c hc

/-- A branch converts its test and its bodies. -/
theorem stepsBelow_branch {form : BranchForm} {test thenBody elseBody : Expr}
    (h : Below size [test, thenBody, elseBody]) :
    StepsBelow size (branchSteps form test thenBody elseBody) := by
  obtain ⟨htest, hbodies⟩ := List.forall_mem_cons.1 h
  unfold branchSteps
  split
  · exact stepsBelow_each (.cons htest (.cons (List.forall_mem_cons.1 hbodies).1 (.nil _)))
  · cases form with
    | ifTrue => exact stepsBelow_each h
    | unlessTrue => exact stepsBelow_refuse _

theorem stepsBelow_selector {left : Expr} {entries : List (Entry Expr)}
    (h : Below size (left :: entries.flatMap Entry.children)) :
    StepsBelow size (selectorSteps left entries) := by
  obtain ⟨hleft, hentries⟩ := List.forall_mem_cons.1 h
  unfold selectorSteps
  split
  · exact stepsBelow_each (.append hentries (.cons hleft (.nil _)))
  · exact stepsBelow_refuse _

/-- A call converts its arguments, and a method what it is called on, which stands below the
functor. -/
theorem stepsBelow_call {form : CallForm} {functor : Expr} {args : List Expr} {block : Option Expr}
    (hfunctor : sizeOf functor < size) (h : Below size (args ++ block.toList)) :
    StepsBelow size (callSteps form functor args block) := by
  unfold callSteps
  split
  · exact stepsBelow_refuse _
  · exact stepsBelow_each h
  · exact stepsBelow_refuse _
  · rename_i receiver right hnode
    split
    · have hreceiver : receiver ∈ functor.children := by
        rw [Expr.children, hnode]
        exact List.mem_cons_self
      have hsize := Nat.lt_trans (Expr.sizeOf_lt_of_mem_children hreceiver) hfunctor
      exact stepsBelow_each (.cons hsize h)
    · exact stepsBelow_refuse _
  · exact stepsBelow_refuse _

/-- A body is converted with the defaults of the parameters. -/
theorem stepsBelow_body {params : List (Parameter Expr)} {body : Option Expr}
    (hparams : Below size (params.flatMap Parameter.children)) (hbody : Below size body.toList) :
    StepsBelow size (bodySteps params body) := by
  refine .append (fun form c hc => ?_) (stepsBelow_each hbody)
  obtain ⟨p, hp, hc⟩ := List.mem_flatMap.1 hc
  have hparts : Below size p.children := fun d hd => hparams d (List.mem_flatMap.2 ⟨p, hp, hd⟩)
  unfold parameterSteps at hc
  split at hc
  · exact stepsBelow_refuse _ form c hc
  · exact stepsBelow_each (List.forall_mem_append.1 hparts).2 form c hc

/-- A collect expression converts its query and the values of its operations. -/
theorem stepsBelow_collect {type : Expr} {query : Query Expr} {operations : List (Operation Expr)}
    (hquery : Below size query.expr.toList)
    (hoperations : Below size (operations.map Operation.value)) :
    StepsBelow size (collectSteps type query operations) := by
  unfold collectSteps
  split
  · refine .append ?_ fun form c hc => ?_
    · obtain ⟨kind, expr, range⟩ := query
      cases expr with
      | none => exact stepsBelow_nil
      | some e =>
          unfold conditionSteps
          dsimp only
          split
          · exact stepsBelow_nil
          · exact stepsBelow_map .query hquery
    · obtain ⟨operation, hmem, hstep⟩ := List.mem_map.1 hc
      cases operation with
      | «attribute» name op value range =>
          cases hstep
          exact hoperations c (List.mem_map.2 ⟨_, hmem, rfl⟩)
      | attributes values range => cases hstep
  · exact stepsBelow_refuse _

/-- The steps of a node convert what stands below it. -/
theorem stepsBelow_value (n : Manifest.Node Expr) : StepsBelow (sizeOf n) (valueSteps n) := by
  have hbelow := n.below
  cases n with
  | leaf l =>
      cases l with
      | renderString s => exact stepsBelow_refuse _
      | _ => exact stepsBelow_nil
  | binary op left right =>
      obtain ⟨hleft, hright⟩ := List.forall_mem_cons.1 hbelow
      cases op with
      | assignment op =>
          cases op with
          | delete => exact stepsBelow_refuse _
          | _ => exact (stepsBelow_target hleft).append (stepsBelow_each hright)
      | dot => exact stepsBelow_refuse _
      | _ => exact stepsBelow_each hbelow
  | unary op e =>
      cases op with
      | dollar => exact stepsBelow_dollar
      | unfold => exact stepsBelow_refuse _
      | render => exact stepsBelow_refuse _
      | _ => exact stepsBelow_each hbelow
  | access left keys => exact stepsBelow_access hbelow
  | hash entries => exact stepsBelow_hash hbelow
  | branch form test thenBody elseBody => exact stepsBelow_branch hbelow
  | selector left entries => exact stepsBelow_selector hbelow
  | call form valueRequired functor args block =>
      obtain ⟨hfunctor, hargs⟩ := List.forall_mem_cons.1 hbelow
      exact stepsBelow_call hfunctor hargs
  | lambda params returns body =>
      obtain ⟨hparams, hbody⟩ := List.forall_mem_append.1 hbelow
      cases returns with
      | some type => exact stepsBelow_refusePart _ _
      | none => exact stepsBelow_body (List.forall_mem_append.1 hparams).1 hbody
  | definition form name params body =>
      obtain ⟨hparams, hbody⟩ := List.forall_mem_append.1 hbelow
      cases form with
      | application => exact stepsBelow_refuse _
      | _ => exact stepsBelow_body hparams hbody
  | host names parent body =>
      obtain ⟨hnames, hbody⟩ := List.forall_mem_append.1 hbelow
      obtain ⟨hnames, hparent⟩ := List.forall_mem_append.1 hnames
      exact (stepsBelow_map .host hnames).append (stepsBelow_each (Below.append hparent hbody))
  | collect type query operations =>
      obtain ⟨hquery, hoperations⟩ := List.forall_mem_append.1 hbelow
      exact stepsBelow_collect (List.forall_mem_cons.1 hquery).2 hoperations
  | items sequence es => exact stepsBelow_each hbelow
  | hereDoc format text => exact stepsBelow_each hbelow
  | located excerpt e => exact stepsBelow_each hbelow
  | cases test options => exact stepsBelow_each hbelow
  | _ => exact stepsBelow_refuse _

/-- The steps of a query convert what stands below it. -/
theorem stepsBelow_query (n : Manifest.Node Expr) : StepsBelow (sizeOf n) (querySteps n) := by
  have hbelow := n.below
  unfold querySteps
  split
  · split
    · exact stepsBelow_map .query hbelow
    · exact stepsBelow_refuse _
  · exact stepsBelow_map .query hbelow
  · exact stepsBelow_dollar
  · exact stepsBelow_nil
  · exact stepsBelow_nil
  · exact stepsBelow_nil
  · exact stepsBelow_each hbelow
  · exact stepsBelow_refuse _

/-- What the steps of a conversion convert is smaller than the expression. -/
theorem stepsBelow_steps (form : Form) (e : Expr) : StepsBelow (sizeOf e) (steps form e) := by
  obtain ⟨n, range⟩ := e
  have hsize : sizeOf n < sizeOf (Expr.mk n range) := by simp +arith
  cases form with
  | value => exact fun form c hc => Nat.lt_trans (stepsBelow_value n form c hc) hsize
  | query => exact fun form c hc => Nat.lt_trans (stepsBelow_query n form c hc) hsize
  | host =>
      show StepsBelow _ (hostSteps _)
      unfold hostSteps
      split
      · exact stepsBelow_nil
      · exact stepsBelow_refuse _

/-! ## The way of an error -/

/-- An expression that an error passes, and the error as it leaves the expression. -/
structure Stage where
  expr : Expr
  error : Error

/-- A step of a conversion is taken: no step before it fails. -/
def Takes (form : Form) (source : Option Source) (e : Expr) (s : Step) : Prop :=
  ∃ before after, steps form e = before ++ s :: after ∧
    ∀ t ∈ before, t.error? (sourceBelow source e.node) = none

/-- The way of an error out of a conversion, from the expression down to the rule that refuses: the
conversions that fail, each a step of the one before it, and the part that the rule hands on for
its place. -/
inductive Trail : Form → Option Source → Expr → Problem → List Stage → Prop
  | refused {form : Form} {source : Option Source} {e : Expr} {p : Problem} {err : Error}
      (hstep : Takes form source e (.refuse p)) (herr : convert form source e = .error err) :
      Trail form source e p [⟨e, err⟩]
  | refusedPart {form : Form} {source : Option Source} {e part : Expr} {p : Problem} {err : Error}
      (hstep : Takes form source e (.refusePart part p))
      (herr : convert form source e = .error err) :
      Trail form source e p
        [⟨e, err⟩, ⟨part, (Error.plain p).orAt (place (sourceBelow source e.node) part.range)⟩]
  | converted {form below : Form} {source : Option Source} {e part : Expr} {p : Problem}
      {err : Error} {stages : List Stage} (hstep : Takes form source e (.convert below part))
      (hpart : Trail below (sourceBelow source e.node) part p stages)
      (herr : convert form source e = .error err) :
      Trail form source e p (⟨e, err⟩ :: stages)

/-! ## The first failure -/

theorem errorOf?_eq_some {α : Type} {x : Except Error α} :
    errorOf? x = some err ↔ x = .error err := by
  cases x with
  | error d =>
      exact ⟨fun h => congrArg _ (Option.some.inj h), fun h => congrArg _ (Except.error.inj h)⟩
  | ok a => exact ⟨nofun, nofun⟩

/-- The conversion fails with what a step fails with that is taken, placed at the expression. -/
theorem convert_of_takes {s : Step} (h : Takes form source e s)
    (hs : s.error? (sourceBelow source e.node) = some err) :
    convert form source e = .error (err.orAt (place source e.range)) := by
  obtain ⟨before, after, hsteps, hbefore⟩ := h
  have hfirst := List.findSome?_eq_some_iff.2 ⟨before, s, after, hsteps, hs, hbefore⟩
  rw [← errorOf?_eq_some, errorOf?_convert, hfirst, Option.map_some]

/-- A conversion that fails takes a step that fails. -/
theorem exists_takes (h : convert form source e = .error err) :
    ∃ s d, Takes form source e s ∧ s.error? (sourceBelow source e.node) = some d ∧
      d.orAt (place source e.range) = err := by
  rw [← errorOf?_eq_some, errorOf?_convert] at h
  obtain ⟨d, hfirst, hd⟩ := Option.map_eq_some_iff.1 h
  obtain ⟨before, s, after, hsteps, hs, hbefore⟩ := List.findSome?_eq_some_iff.1 hfirst
  exact ⟨s, d, ⟨before, after, hsteps, hbefore⟩, hs, hd⟩

/-- Every failure has a trail. -/
theorem exists_trail {form : Form} {source : Option Source} {e : Expr} {err : Error}
    (h : convert form source e = .error err) :
    ∃ stages, Trail form source e err.problem stages := by
  obtain ⟨s, d, hstep, hs, hd⟩ := exists_takes h
  rw [← hd, Error.problem_orAt]
  cases s with
  | refuse p =>
      obtain rfl := Option.some.inj hs
      exact ⟨_, .refused hstep h⟩
  | refusePart part p =>
      obtain rfl := Option.some.inj hs
      rw [Error.problem_orAt]
      exact ⟨_, .refusedPart hstep h⟩
  | convert below part =>
      have hpart : convert below (sourceBelow source e.node) part = .error d :=
        errorOf?_eq_some.1 hs
      obtain ⟨stages, htrail⟩ := exists_trail hpart
      exact ⟨_, .converted hstep htrail h⟩
termination_by sizeOf e
decreasing_by
  obtain ⟨before, after, hsteps, -⟩ := hstep
  exact stepsBelow_steps form e below part (hsteps ▸ List.mem_append_right _ List.mem_cons_self)

/-- An error is a problem that was given a place once, or not at all. -/
theorem convert_eq_orAt {form : Form} {source : Option Source} {e : Expr} {err : Error}
    (h : convert form source e = .error err) :
    ∃ p position, err = (Error.plain p).orAt position := by
  obtain ⟨s, d, hstep, hs, rfl⟩ := exists_takes h
  cases s with
  | refuse p =>
      obtain rfl := Option.some.inj hs
      exact ⟨p, _, rfl⟩
  | refusePart part p =>
      obtain rfl := Option.some.inj hs
      exact ⟨p, _, Error.orAt_orAt ..⟩
  | convert below part =>
      have hpart : convert below (sourceBelow source e.node) part = .error d :=
        errorOf?_eq_some.1 hs
      obtain ⟨p, position, rfl⟩ := convert_eq_orAt hpart
      exact ⟨p, _, Error.orAt_orAt ..⟩
termination_by sizeOf e
decreasing_by
  obtain ⟨before, after, hsteps, -⟩ := hstep
  exact stepsBelow_steps form e below part (hsteps ▸ List.mem_append_right _ List.mem_cons_self)

/-! ## The place of an error -/

/-- The excerpt that ranges below the expression refer to. -/
def excerpt? (e : Expr) : Option Text.Excerpt :=
  match e.node with
  | .located excerpt _ => some excerpt
  | _ => none

/-- What ranges below some expressions refer to, each of them inside the one before: the innermost
excerpt among them, or else the source. -/
def sourceUnder (source : Source) (enclosing : List Expr) : Source :=
  (enclosing.filterMap excerpt?).getLast?.elim source .excerpt

/-- How an error with the problem is placed that passes the stages: it has no place as long as no
expression has a range; the first one on its way with a range gives it that place, in what ranges
there refer to; then it is passed on as it is. -/
inductive Placed (source : Source) (p : Problem) : List Stage → Error → Prop
  | nowhere {stages : List Stage}
      (h : ∀ s ∈ stages, s.expr.range = none ∧ s.error = .plain p) :
      Placed source p stages (.plain p)
  | at {outer inner : List Stage} {s : Stage} {range : Range} {err : Error}
      (hinner : ∀ t ∈ inner, t.expr.range = none ∧ t.error = .plain p)
      (hrange : s.expr.range = some range)
      (herr : err = .placed ((sourceUnder source (outer.map Stage.expr)).position range) (.plain p))
      (houter : ∀ t ∈ outer ++ [s], t.error = err) :
      Placed source p (outer ++ s :: inner) err

/-- An excerpt on the way is what ranges further down refer to. -/
theorem sourceUnder_cons (source : Source) (e : Expr) (es : List Expr) :
    sourceUnder source (e :: es) = sourceUnder ((excerpt? e).elim source .excerpt) es := by
  unfold sourceUnder
  cases he : excerpt? e with
  | none => rw [List.filterMap_cons_none he, Option.elim_none]
  | some excerpt =>
      rw [List.filterMap_cons_some he, Option.elim_some, List.getLast?_cons]
      cases (es.filterMap excerpt?).getLast? <;> rfl

theorem sourceBelow_eq (source : Source) (e : Expr) :
    sourceBelow (some source) e.node = some ((excerpt? e).elim source .excerpt) := by
  obtain ⟨n, range⟩ := e
  cases n <;> rfl

/-- The error passes one expression more. -/
theorem Placed.step {source : Source} {stages : List Stage}
    (h : Placed ((excerpt? e).elim source .excerpt) p stages err) :
    Placed source p (⟨e, err.orAt (place (some source) e.range)⟩ :: stages)
      (err.orAt (place (some source) e.range)) := by
  cases h with
  | nowhere h =>
      cases hrange : e.range with
      | none => exact .nowhere (List.forall_mem_cons.2 ⟨⟨hrange, rfl⟩, h⟩)
      | some range =>
          have houter : ∀ t ∈ ([] : List Stage) ++
              [⟨e, (Error.plain p).orAt (place (some source) (some range))⟩],
              t.error = (Error.plain p).orAt (place (some source) (some range)) := by simp
          exact .at h hrange rfl houter
  | «at» hinner hrange herr houter =>
      rename_i outer inner s range
      have hpassed : err.orAt (place (some source) e.range) = err := by
        rw [herr]
        rfl
      rw [hpassed]
      have houter' : ∀ t ∈ (⟨e, err⟩ :: outer) ++ [s], t.error = err :=
        List.forall_mem_cons.2 ⟨rfl, houter⟩
      refine .at hinner hrange ?_ houter'
      rw [herr, List.map_cons, sourceUnder_cons]

/-- Where no expression is passed, the error is the problem. -/
theorem placed_nil (source : Source) (p : Problem) : Placed source p [] (.plain p) :=
  .nowhere (List.forall_mem_nil _)

/-- An error that passes an expression is the error of its conversion. -/
theorem Trail.fails {stages : List Stage} (h : Trail form source e p stages) :
    ∃ err, convert form source e = .error err := by
  cases h with
  | refused _ herr => exact ⟨_, herr⟩
  | refusedPart _ herr => exact ⟨_, herr⟩
  | converted _ _ herr => exact ⟨_, herr⟩

/-- The error of a failure is placed along its trail. -/
theorem Trail.placed {source : Source} {stages : List Stage}
    (h : Trail form (some source) e p stages) (herr : convert form (some source) e = .error err) :
    Placed source p stages err := by
  generalize hsource : some source = o at h
  induction h generalizing source err with
  | refused hstep hfailed =>
      subst hsource
      have hown := convert_of_takes hstep rfl
      obtain rfl := Except.error.inj (hown.symm.trans herr)
      obtain rfl := Except.error.inj (hown.symm.trans hfailed)
      exact (placed_nil _ _).step
  | refusedPart hstep hfailed =>
      subst hsource
      have hown := convert_of_takes hstep rfl
      obtain rfl := Except.error.inj (hown.symm.trans herr)
      obtain rfl := Except.error.inj (hown.symm.trans hfailed)
      rw [sourceBelow_eq]
      exact Placed.step (placed_nil _ _).step
  | converted hstep hpart hfailed ih =>
      subst hsource
      obtain ⟨d, hd⟩ := hpart.fails
      have hown := convert_of_takes hstep (errorOf?_eq_some.2 hd)
      obtain rfl := Except.error.inj (hown.symm.trans herr)
      obtain rfl := Except.error.inj (hown.symm.trans hfailed)
      rw [sourceBelow_eq] at hd ih
      exact (ih hd rfl).step

/-- A failure has one problem along its trail. -/
theorem Trail.problem {stages : List Stage} (h : Trail form source e p stages)
    (herr : convert form source e = .error err) : err.problem = p := by
  induction h generalizing err with
  | refused hstep =>
      obtain rfl := Except.error.inj ((convert_of_takes hstep rfl).symm.trans herr)
      rw [Error.problem_orAt, Error.problem]
  | refusedPart hstep =>
      obtain rfl := Except.error.inj ((convert_of_takes hstep rfl).symm.trans herr)
      rw [Error.problem_orAt, Error.problem_orAt, Error.problem]
  | converted hstep hpart _ ih =>
      obtain ⟨d, hd⟩ := hpart.fails
      have hown := convert_of_takes hstep (errorOf?_eq_some.2 hd)
      obtain rfl := Except.error.inj (hown.symm.trans herr)
      rw [Error.problem_orAt]
      exact ih hd

/-- The error inside an error with a place has no place of its own. -/
theorem not_placed_twice (h : convert form source e = .error err) (outer inner : SourcePosition)
    (d : Error) : err ≠ .placed outer (.placed inner d) := by
  rintro rfl
  obtain ⟨p, position, heq⟩ := convert_eq_orAt h
  cases position with
  | none => exact nomatch heq
  | some position => exact nomatch (Error.placed.inj heq).2

/-- A conversion that fails does so with an error that was given a place once at most. It fails
along a trail, and only along trails on which its error is placed as the innermost expression with a
range says. -/
theorem convert_placed {form : Form} {source : Source} {e : Expr} {err : Error}
    (h : convert form (some source) e = .error err) :
    (∀ outer inner d, err ≠ .placed outer (.placed inner d)) ∧
      (∃ stages, Trail form (some source) e err.problem stages) ∧
      ∀ p stages, Trail form (some source) e p stages →
        err.problem = p ∧ Placed source p stages err :=
  ⟨not_placed_twice h, exists_trail h, fun _ _ htrail => ⟨htrail.problem h, htrail.placed h⟩⟩

/-- Two lines of a text with three lines before them and a margin of two columns. -/
def twoLines : Text.Excerpt := .ofText "ab\ncd".toList "a" 3 20 2

/-- A block in a document, around a list on the second line of an excerpt; in the list stands a
site, which has no range. -/
def siteInExcerpt : Expr :=
  ⟨.items .block [.ofNode (.located twoLines ⟨.items .list [.ofNode (.site none)], some ⟨3, 5⟩⟩)],
    some ⟨0, 9⟩⟩

/-- The site has no legacy form, and the error stands at the list. -/
def siteError : Error := .placed ⟨"a", 5, 3, ⟨3, 5⟩⟩ (.plain (.noLegacyForm "SiteDefinition"))

/-- The site itself has no range, so that its error stands at the list around it, in the excerpt. -/
theorem convert_placed_site :
    convert .value (some hashSource) siteInExcerpt = .error siteError ∧
      (∀ outer inner d, siteError ≠ .placed outer (.placed inner d)) ∧
      (∃ stages, Trail .value (some hashSource) siteInExcerpt siteError.problem stages) ∧
      ∀ p stages, Trail .value (some hashSource) siteInExcerpt p stages →
        siteError.problem = p ∧ Placed hashSource p stages siteError := by
  have herror : convert .value (some hashSource) siteInExcerpt = .error siteError :=
    errorOf?_eq_some.1 (by decide +kernel)
  exact ⟨herror, convert_placed herror⟩

end Manifest.Legacy
