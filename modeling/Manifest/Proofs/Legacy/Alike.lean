import Manifest.Proofs.Legacy.Erasure
import Manifest.Proofs.Legacy.Refusal
import Manifest.Proofs.Tree.Bare

/-!
# Two conversions side by side

An expression is converted with its ranges and without them. Either conversion fails when the other
one does, with the same problem, or the one gives what the other gives without places. This is said
of results, and follows the conversion from one part of an expression to the next.

* `Alike` — two results agree.
* `Agrees` — the legacy form of an expression without ranges is the form with them without places.
* `alike_access`, `alike_target` — what is read of an expression is not its range.
-/

namespace Manifest.Legacy

open Text (Range Source)

variable {α β γ δ : Type} {P : Prop} {R : α → β → Prop} {T : γ → δ → Prop}
  {source source' : Option Source} {e : Expr} {es : List Expr} {t u : Tree}

/-! ## Results that agree -/

/-- Two results agree: their values are related, or they fail with the same problem. -/
inductive Alike (R : α → β → Prop) : Except Error α → Except Error β → Prop
  | ok {a : α} {b : β} (h : R a b) : Alike R (.ok a) (.ok b)
  | error {d e : Error} (h : d.problem = e.problem) : Alike R (.error d) (.error e)

/-- Alike results are continued alike. -/
theorem alike_bind {x : Except Error α} {y : Except Error β} {f : α → Except Error γ}
    {g : β → Except Error δ} (h : Alike R x y) (hf : ∀ a b, R a b → Alike T (f a) (g b)) :
    Alike T (x >>= f) (y >>= g) := by
  cases h with
  | ok h => exact hf _ _ h
  | error h => exact .error h

theorem alike_self (x : Except Error α) : Alike Eq x x := by
  cases x with
  | ok a => exact .ok rfl
  | error e => exact .error rfl

/-- The same problem is refused alike. -/
theorem alike_refuse (p : Problem) : Alike R (refuse p) (refuse p) := .error rfl

/-- A problem is refused alike at different places. -/
theorem alike_refuseAt {range range' : Option Range} (p : Problem) :
    Alike R (refuseAt source range p) (refuseAt source' range' p) := by
  refine .error ?_
  rw [Error.problem_orAt, Error.problem_orAt]

/-- The second value is what `f` leaves of the first one, as far as `P` holds. -/
def Leaves (P : Prop) (f : α → α) (a b : α) : Prop := P → f a = b

/-- A tree that stems from no range stems from no place. -/
theorem stamp_none (t : Tree) : stamp source none t = t := by
  obtain ⟨n, a⟩ := t
  cases source <;> cases a <;> rfl

/-- A place is erased. -/
theorem erase_stamp {range : Option Range} (t : Tree) : (stamp source range t).erase = t.erase := by
  obtain ⟨n, a⟩ := t
  show Tree.erase ⟨n, _⟩ = _
  rw [Tree.erase, Tree.erase]

/-- A tree is stamped with a place, and without ranges with none. -/
theorem leaves_stamp {range : Option Range} (h : Leaves P Tree.erase t u) :
    Leaves P Tree.erase (stamp source range t) (stamp source' none u) := by
  intro hP
  rw [erase_stamp, stamp_none, h hP]

/-- A leaf has no places. -/
theorem leaves_leaf (l : Leaf) : Leaves P Tree.erase (.ofLeaf l) (.ofLeaf l) := by
  intro
  rw [Tree.ofLeaf, Tree.ofNode, Tree.erase, Node.erase]

/-- Settling a result does not change what is left of it. -/
theorem alike_settle {range : Option Range} {x y : Except Error Tree}
    (h : Alike (Leaves P Tree.erase) x y) :
    Alike (Leaves P Tree.erase) (settle source range x) (settle source' none y) := by
  cases h with
  | ok h => exact .ok (leaves_stamp h)
  | error h =>
      refine .error ?_
      rw [Error.problem_orAt, Error.problem_orAt, h]

/-! ## Expressions -/

/-- Without ranges, the expression has the legacy form that is left of the one with them without
places, as an expression and as a query. -/
def Agrees (P : Prop) (source : Option Source) (e : Expr) : Prop := ∀ source',
  Alike (Leaves P Tree.erase) (e.toLegacy source) (e.bare.toLegacy source') ∧
  Alike (Leaves P Tree.erase) (e.toLegacyQuery source) (e.bare.toLegacyQuery source')

/-- Each of the expressions does so. -/
def AllAgree (P : Prop) (source : Option Source) (es : List Expr) : Prop :=
  ∀ e ∈ es, Agrees P source e

/-- An expression and its bare form have alike legacy forms. -/
theorem Agrees.toLegacy (h : Agrees P source e) :
    Alike (Leaves P Tree.erase) (e.toLegacy source) (e.bare.toLegacy source') := (h source').1

/-- An expression and its bare form have alike legacy forms as queries. -/
theorem Agrees.toLegacyQuery (h : Agrees P source e) :
    Alike (Leaves P Tree.erase) (e.toLegacyQuery source) (e.bare.toLegacyQuery source') :=
  (h source').2

/-- Expressions one after another are converted alike. -/
theorem alike_each (h : AllAgree P source es) : Alike (Leaves P eraseEach)
    (firstError (legacyEach source es)) (firstError (legacyEach source' (bareEach es))) := by
  induction es with
  | nil =>
      rw [bareEach, legacyEach, legacyEach]
      exact .ok fun _ => rfl
  | cons e es ih =>
      obtain ⟨he, hes⟩ := List.forall_mem_cons.1 h
      rw [bareEach, legacyEach, legacyEach, firstError, firstError]
      refine alike_bind he.toLegacy fun t u ht => alike_bind (ih hes) fun ts us hts => ?_
      refine .ok fun hP => ?_
      rw [eraseEach, ht hP, hts hP]

/-- An expression that may be missing is converted alike. -/
theorem alike_option {o : Option Expr} (h : AllAgree P source o.toList) :
    Alike (Leaves P erase?) (legacy? source o) (legacy? source' (bare? o)) := by
  cases o with
  | none =>
      rw [bare?, legacy?, legacy?]
      exact .ok fun _ => rfl
  | some e =>
      rw [bare?, legacy?, legacy?]
      refine alike_bind (h e List.mem_cons_self).toLegacy fun t u ht => .ok fun hP => ?_
      rw [erase?, ht hP]

/-- A body is converted alike. -/
theorem alike_body {o : Option Expr} (h : AllAgree P source o.toList) :
    Alike (Leaves P Tree.erase) (bodyLegacy source o) (bodyLegacy source' (bare? o)) := by
  cases o with
  | none =>
      rw [bare?, bodyLegacy, bodyLegacy]
      exact .ok (leaves_leaf _)
  | some e =>
      rw [bare?, bodyLegacy, bodyLegacy]
      exact (h e List.mem_cons_self).toLegacy

/-- What is known of entries is known of the first and of those behind it. -/
theorem AllAgree.entries_cons {entry : Entry Expr} {entries : List (Entry Expr)}
    (h : AllAgree P source ((entry :: entries).flatMap Entry.children)) :
    Agrees P source entry.key ∧ Agrees P source entry.value ∧
      AllAgree P source (entries.flatMap Entry.children) := by
  rw [List.flatMap_cons, Entry.children, AllAgree, List.forall_mem_append] at h
  obtain ⟨hentry, hentries⟩ := h
  obtain ⟨hkey, hvalue⟩ := List.forall_mem_cons.1 hentry
  exact ⟨hkey, List.forall_mem_singleton.1 hvalue, hentries⟩

theorem alike_pairs {entries : List (Entry Expr)}
    (h : AllAgree P source (entries.flatMap Entry.children)) :
    Alike (Leaves P erasePairs) (pairsLegacy source entries)
      (pairsLegacy source' (bareEntries entries)) := by
  induction entries with
  | nil =>
      rw [bareEntries, pairsLegacy, pairsLegacy]
      exact .ok fun _ => rfl
  | cons entry entries ih =>
      obtain ⟨hkey, hvalue, hentries⟩ := h.entries_cons
      obtain ⟨key, value, range⟩ := entry
      rw [bareEntries, pairsLegacy, pairsLegacy]
      refine alike_bind hkey.toLegacy fun k l hk => alike_bind hvalue.toLegacy fun v w hv => ?_
      refine alike_bind (ih hentries) fun ps qs hps => .ok fun hP => ?_
      rw [erasePairs, hk hP, hv hP, hps hP]

theorem alike_choices {options : List (CaseOption Expr)}
    (h : AllAgree P source (options.flatMap CaseOption.children)) :
    Alike (Leaves P eraseChoices) (choicesLegacy source options)
      (choicesLegacy source' (bareOptions options)) := by
  induction options with
  | nil =>
      rw [bareOptions, choicesLegacy, choicesLegacy]
      exact .ok fun _ => rfl
  | cons option options ih =>
      obtain ⟨values, body, range⟩ := option
      rw [List.flatMap_cons, CaseOption.children, AllAgree, List.forall_mem_append,
        List.forall_mem_append, List.forall_mem_singleton] at h
      obtain ⟨⟨hvalues, hbody⟩, hoptions⟩ := h
      rw [bareOptions, choicesLegacy, choicesLegacy]
      refine alike_bind (alike_each hvalues) fun vs ws hvs => ?_
      refine alike_bind hbody.toLegacy fun b c hb => ?_
      refine alike_bind (ih hoptions) fun cs ds hcs => .ok fun hP => ?_
      rw [eraseChoices, hvs hP, hb hP, hcs hP]

/-- Parameters are converted alike. -/
theorem alike_arguments {params : List (Parameter Expr)}
    (h : AllAgree P source (params.flatMap Parameter.children)) :
    Alike (Leaves P eraseArguments) (argumentsLegacy source params)
      (argumentsLegacy source' (bareParameters params)) := by
  induction params with
  | nil =>
      rw [bareParameters, argumentsLegacy, argumentsLegacy]
      exact .ok fun _ => rfl
  | cons param params ih =>
      obtain ⟨name, value, type, capturesRest, range⟩ := param
      rw [List.flatMap_cons, Parameter.children, AllAgree, List.forall_mem_append,
        List.forall_mem_append] at h
      obtain ⟨⟨-, hvalue⟩, hparams⟩ := h
      have htype : (bare? type).isSome = type.isSome := by
        cases type <;> rw [bare?]
        rfl
      rw [bareParameters, argumentsLegacy, argumentsLegacy, htype]
      split
      · exact alike_refuse _
      · refine alike_bind (alike_option hvalue) fun v w hv => ?_
        refine alike_bind (ih hparams) fun ps qs hps => .ok fun hP => ?_
        rw [eraseArguments, hv hP, hps hP]

/-- Operations are converted alike. -/
theorem alike_settings {operations : List (Operation Expr)}
    (h : AllAgree P source (operations.map Operation.value)) :
    Alike (Leaves P eraseSettings) (settingsLegacy source operations)
      (settingsLegacy source' (bareOperations operations)) := by
  induction operations with
  | nil =>
      rw [bareOperations, settingsLegacy, settingsLegacy]
      exact .ok fun _ => rfl
  | cons operation operations ih =>
      obtain ⟨hvalue, hoperations⟩ := List.forall_mem_cons.1 h
      cases operation with
      | «attribute» name op value range =>
          rw [bareOperations, settingsLegacy, settingsLegacy]
          refine alike_bind hvalue.toLegacy fun v w hv => ?_
          refine alike_bind (ih hoperations) fun ss ts hss => .ok fun hP => ?_
          rw [eraseSettings, hv hP, hss hP]
      | attributes values range =>
          rw [bareOperations, settingsLegacy, settingsLegacy]
          exact alike_refuseAt _

/-! ## What is read of an expression without its places -/

/-- A bare expression is empty when the expression is. -/
theorem isNop_bare (e : Expr) : e.bare.isNop = e.isNop := by
  obtain ⟨n, range⟩ := e
  unfold Expr.isNop
  rw [Expr.bare_node]
  cases n <;> rw [Manifest.Node.bare]

/-- A variable has its name without places. -/
theorem variableName?_bare (e : Expr) : variableName? e.bare = variableName? e := by
  obtain ⟨n, range⟩ := e
  unfold variableName?
  rw [Expr.bare_node]
  cases n <;> rw [Manifest.Node.bare]

/-- A host is told without places. -/
theorem hostLeaf?_bare (e : Expr) : hostLeaf? e.bare = hostLeaf? e := by
  obtain ⟨n, range⟩ := e
  unfold hostLeaf?
  rw [Expr.bare_node]
  cases n <;> rw [Manifest.Node.bare]

/-- The name of a type is told without places. -/
theorem typeName?_bare (e : Expr) : typeName? e.bare = typeName? e := by
  obtain ⟨n, range⟩ := e
  unfold typeName?
  rw [Expr.bare_node]
  cases n <;> rw [Manifest.Node.bare]

/-- What can be selected from is told without places. -/
theorem isSelectable_bare (e : Expr) : isSelectable e.bare = isSelectable e := by
  obtain ⟨n, range⟩ := e
  unfold isSelectable
  rw [Expr.bare_node]
  cases n with
  | unary op e => rw [Manifest.Node.bare]; cases op <;> rfl
  | items sequence es => rw [Manifest.Node.bare]; cases sequence <;> rfl
  | call form _ _ _ _ => rw [Manifest.Node.bare]; cases form <;> rfl
  | _ => rw [Manifest.Node.bare]

/-! ## Leaves -/

theorem alike_ofLeaf (l : Manifest.Leaf) :
    Alike (Leaves P Tree.erase) (ofLeaf l) (ofLeaf l) := by
  cases l with
  | renderString s => exact alike_refuse _
  | _ => exact .ok (leaves_leaf _)

theorem alike_ofDollar (e : Expr) : Alike (Leaves P Tree.erase) (ofDollar e) (ofDollar e.bare) := by
  rw [ofDollar, ofDollar, variableName?_bare]
  split
  · exact .ok (leaves_leaf _)
  · exact alike_refuse _

theorem alike_ofHost (e : Expr) :
    Alike (Leaves P Tree.erase) (ofHost source e) (ofHost source' e.bare) := by
  rw [ofHost, ofHost, hostLeaf?_bare, Expr.label_bare, Expr.bare_range]
  split
  · exact .ok (leaves_stamp (leaves_leaf _))
  · exact alike_refuseAt _

/-- Hosts are converted alike. -/
theorem alike_hosts (es : List Expr) : Alike (Leaves P eraseEach)
    (firstError (es.map (ofHost source))) (firstError ((bareEach es).map (ofHost source'))) := by
  induction es with
  | nil =>
      rw [bareEach]
      exact .ok fun _ => rfl
  | cons e es ih =>
      rw [bareEach, List.map_cons, List.map_cons, firstError, firstError]
      refine alike_bind (alike_ofHost (P := P) e) fun t u ht => alike_bind ih fun ts us hts => ?_
      refine .ok fun hP => ?_
      rw [eraseEach, ht hP, hts hP]

/-! ## Accesses and assignments -/

theorem alike_headD (h : AllAgree P source es) : Alike (Leaves P Tree.erase)
    ((legacyEach source es).headD (.ok .nop))
    ((legacyEach source' (bareEach es)).headD (.ok .nop)) := by
  cases es with
  | nil =>
      rw [bareEach, legacyEach, legacyEach]
      exact .ok fun _ => rfl
  | cons e es =>
      rw [bareEach, legacyEach, legacyEach]
      exact (h e List.mem_cons_self).toLegacy

/-- The element under the first key. -/
theorem alike_element (source' : Option Source) {left : Expr} (hleft : Agrees P source left)
    (hkeys : AllAgree P source es) : Alike (Leaves P Tree.erase)
      (do
        let target ← left.toLegacy source
        let key ← (legacyEach source es).headD (.ok .nop)
        return Tree.ofNode (.access target key))
      (do
        let target ← left.bare.toLegacy source'
        let key ← (legacyEach source' (bareEach es)).headD (.ok .nop)
        return Tree.ofNode (.access target key)) := by
  refine alike_bind hleft.toLegacy fun t u ht => alike_bind (alike_headD hkeys) fun k l hk => ?_
  refine .ok fun hP => ?_
  rw [Tree.ofNode, Tree.erase, Node.erase, ht hP, hk hP, Tree.ofNode]

/-- The resources with the keys for titles. -/
theorem alike_titles (source' : Option Source) (type : String) (hkeys : AllAgree P source es) :
    Alike (Leaves P Tree.erase)
      (do
        let titles ← firstError (legacyEach source es)
        return Tree.ofNode (.reference type titles))
      (do
        let titles ← firstError (legacyEach source' (bareEach es))
        return Tree.ofNode (.reference type titles)) := by
  refine alike_bind (alike_each hkeys) fun ts us hts => .ok fun hP => ?_
  rw [Tree.ofNode, Tree.erase, Node.erase, hts hP, Tree.ofNode]

/-- An access is converted alike. -/
theorem alike_access {left : Expr} (hleft : Agrees P source left) (hkeys : AllAgree P source es) :
    Alike (Leaves P Tree.erase) (access left (left.toLegacy source) (legacyEach source es))
      (access left.bare (left.bare.toLegacy source') (legacyEach source' (bareEach es))) := by
  have helement := alike_element source' hleft hkeys
  have hlabel := left.label_bare
  have hnode := left.bare_node
  unfold access
  rw [hnode, hlabel]
  generalize left.toLegacy source = x at helement
  generalize left.bare.toLegacy source' = y at helement
  cases left.node with
  | leaf l =>
      rw [Manifest.Node.bare]
      cases l with
      | name s => exact alike_titles source' s hkeys
      | reference s => exact alike_titles source' s hkeys
      | _ => exact alike_refuse _
  | unary op e =>
      rw [Manifest.Node.bare]
      cases op with
      | dollar => exact helement
      | _ => exact alike_refuse _
  | access left' keys =>
      rw [Manifest.Node.bare]
      exact helement
  | _ =>
      rw [Manifest.Node.bare]
      exact alike_refuse _

/-- The target of an assignment is converted alike. -/
theorem alike_target {left : Expr} (h : Agrees P source left) : Alike (Leaves P Tree.erase)
    (target source left (left.toLegacy source))
    (target source' left.bare (left.bare.toLegacy source')) := by
  have helement := (h source').1
  have hlabel := left.label_bare
  have hnode := left.bare_node
  unfold target
  rw [hnode, hlabel]
  generalize left.toLegacy source = x at helement
  generalize left.bare.toLegacy source' = y at helement
  cases left.node with
  | unary op e =>
      rw [Manifest.Node.bare]
      cases op with
      | dollar =>
          dsimp only
          rw [variableName?_bare, e.label_bare, left.bare_range]
          split
          · exact .ok (leaves_stamp (leaves_leaf _))
          · exact alike_refuseAt _
      | _ => exact alike_refuseAt _
  | access left' keys =>
      rw [Manifest.Node.bare]
      exact helement
  | _ =>
      rw [Manifest.Node.bare]
      exact alike_refuseAt _

end Manifest.Legacy
