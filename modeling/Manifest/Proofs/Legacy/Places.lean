import Manifest.Proofs.Legacy.Merge

/-!
# Places change no legacy form

The legacy form of an expression is the same with its ranges and without them, but for the places it
stems from, and so is the problem when there is none. The keys of hashes are the exception: strings
with interpolations that are equal but for their places are merged without ranges alone.

* `agrees_node` — the step from the sub-expressions of a node to the node.
* `toLegacy_bare` — the legacy form of an expression without its ranges.
* `toLegacy_counts_places` — two keys that are told apart by their places.
-/

namespace Manifest.Legacy

open Text (Source)

variable {P : Prop} {source source' : Option Source} {e : Expr} {n : Manifest.Node Expr}
  {t u : Tree}

/-! ## Parts -/

/-- What the ranges below the node refer to: that of the excerpt below an excerpt. -/
def sourceBelow (source : Option Source) : Manifest.Node Expr → Option Source
  | .located excerpt _ => some (.excerpt excerpt)
  | _ => source

/-- An expression is part of another one: it, or part of a child of it. Each comes with what its
ranges refer to. -/
inductive Part : Option Source → Expr → Option Source → Expr → Prop
  | self (source : Option Source) (e : Expr) : Part source e source e
  | child {source s : Option Source} {e c d : Expr} (hc : c ∈ e.children)
      (h : Part (sourceBelow source e.node) c s d) : Part source e s d

/-- Parts are nodes of the tree. -/
theorem Part.mem_nodes {s : Option Source} {d : Expr} (h : Part source e s d) : d ∈ e.nodes := by
  induction h with
  | self source e => exact mem_nodes_self e
  | child hc _ ih => exact mem_nodes_of_child hc ih

/-- Without ranges, all parts of the expression have the legacy forms that are left of those with
them without places. -/
def PartsAgree (P : Prop) (source : Option Source) (e : Expr) : Prop :=
  ∀ s d, Part source e s d → Agrees P s d

/-- An expression is among its parts. -/
theorem PartsAgree.self (h : PartsAgree P source e) : Agrees P source e :=
  h source e (.self source e)

/-! ## Nodes -/

/-- Without ranges, the node has the legacy form that is left of the one with them without
places. -/
def NodeAgrees (P : Prop) (source : Option Source) (n : Manifest.Node Expr) : Prop := ∀ source',
  Alike (Leaves P Tree.erase) (Node.toLegacy source n) (Node.toLegacy source' n.bare)

theorem leaves_ofNode {n m : Node Tree} (h : P → n.erase = m) :
    Leaves P Tree.erase (.ofNode n) (.ofNode m) := by
  intro hP
  rw [Tree.ofNode, Tree.erase, h hP, Tree.ofNode]

/-- A binary expression agrees when both sides do. -/
theorem agrees_both {op : Manifest.BinaryOp} {left right : Expr} (hleft : Agrees P source left)
    (hright : Agrees P source right) : NodeAgrees P source (.binary op left right) := by
  intro source'
  rw [Manifest.Node.bare]
  have hoperator : ∀ o : BinaryOp, Alike (Leaves P Tree.erase)
      (do
        let left ← left.toLegacy source
        let right ← right.toLegacy source
        return Tree.ofNode (.binary o left right))
      (do
        let left ← left.bare.toLegacy source'
        let right ← right.bare.toLegacy source'
        return Tree.ofNode (.binary o left right)) := by
    intro o
    refine alike_bind hleft.toLegacy fun t u ht => alike_bind hright.toLegacy fun v w hv => ?_
    refine .ok (leaves_ofNode fun hP => ?_)
    rw [Node.erase, ht hP, hv hP]
  have hassignment : ∀ appends : Bool, Alike (Leaves P Tree.erase)
      (do
        let target ← target source left (left.toLegacy source)
        let value ← right.toLegacy source
        return Tree.ofNode (.assignment target value appends))
      (do
        let target ← target source' left.bare (left.bare.toLegacy source')
        let value ← right.bare.toLegacy source'
        return Tree.ofNode (.assignment target value appends)) := by
    intro appends
    refine alike_bind (alike_target hleft) fun t u ht => alike_bind hright.toLegacy fun v w hv => ?_
    refine .ok (leaves_ofNode fun hP => ?_)
    rw [Node.erase, ht hP, hv hP]
  cases op with
  | assignment op =>
      cases op with
      | delete =>
          rw [Node.toLegacy, Node.toLegacy]
          exact alike_refuse _
      | _ =>
          simp only [Node.toLegacy]
          exact hassignment _
  | dot =>
      simp only [Node.toLegacy]
      exact alike_refuse _
  | _ =>
      simp only [Node.toLegacy]
      exact hoperator _

/-- A unary expression agrees when its operand does. -/
theorem agrees_unary {op : Manifest.UnaryOp} (he : Agrees P source e) :
    NodeAgrees P source (.unary op e) := by
  intro source'
  rw [Manifest.Node.bare]
  have hone : ∀ o : UnaryOp, Alike (Leaves P Tree.erase)
      (do return Tree.ofNode (.unary o (← e.toLegacy source)))
      (do return Tree.ofNode (.unary o (← e.bare.toLegacy source'))) := by
    intro o
    refine alike_bind he.toLegacy fun t u ht => .ok (leaves_ofNode fun hP => ?_)
    rw [Node.erase, ht hP]
  cases op with
  | negation =>
      rw [Node.toLegacy, Node.toLegacy]
      exact hone _
  | minus =>
      rw [Node.toLegacy, Node.toLegacy]
      exact hone _
  | parens =>
      rw [Node.toLegacy, Node.toLegacy]
      exact he.toLegacy
  | text =>
      rw [Node.toLegacy, Node.toLegacy]
      exact he.toLegacy
  | dollar =>
      rw [Node.toLegacy, Node.toLegacy]
      exact alike_ofDollar e
  | unfold =>
      simp only [Node.toLegacy]
      exact alike_refuse _
  | render =>
      simp only [Node.toLegacy]
      exact alike_refuse _

/-- A branch agrees when its parts do. -/
theorem agrees_branch {form : BranchForm} {test thenBody elseBody : Expr}
    (htest : Agrees P source test)
    (hthen : Agrees P source thenBody) (helse : Agrees P source elseBody) :
    NodeAgrees P source (.branch form test thenBody elseBody) := by
  intro source'
  rw [Manifest.Node.bare]
  cases form with
  | ifTrue =>
      rw [Node.toLegacy, Node.toLegacy, isNop_bare]
      refine alike_bind htest.toLegacy fun t u ht => alike_bind hthen.toLegacy fun v w hv => ?_
      split
      · refine .ok (leaves_ofNode fun hP => ?_)
        rw [Node.erase, ht hP, hv hP, erase?]
      · refine alike_bind helse.toLegacy fun x y hx => .ok (leaves_ofNode fun hP => ?_)
        rw [Node.erase, ht hP, hv hP, erase?, hx hP]
  | unlessTrue =>
      rw [Node.toLegacy, Node.toLegacy, isNop_bare]
      split
      · refine alike_bind htest.toLegacy fun t u ht => alike_bind hthen.toLegacy fun v w hv => ?_
        refine .ok (leaves_ofNode fun hP => ?_)
        have hnegated : Leaves P Tree.erase (.ofNode (.unary .negation t))
            (.ofNode (.unary .negation u)) := by
          refine leaves_ofNode fun hP => ?_
          rw [Node.erase, ht hP]
        rw [Node.erase, test.bare_range, leaves_stamp hnegated hP, hv hP, erase?]
      · exact alike_refuse _

/-- A method of a receiver, with arguments. -/
theorem agrees_method {valueRequired : Bool} {functor : Expr} {args : List Expr}
    {block : Option Expr} (hfunctor : PartsAgree P source functor) (hargs : AllAgree P source args)
    (hblock : AllAgree P source block.toList) :
    NodeAgrees P source (.call .method valueRequired functor args block) := by
  intro source'
  obtain ⟨n, range⟩ := functor
  rw [Manifest.Node.bare, Expr.bare]
  cases n with
  | binary op receiver right =>
      rw [Manifest.Node.bare]
      cases op with
      | dot =>
          have hreceiver : Agrees P source receiver :=
            hfunctor source receiver (.child List.mem_cons_self (.self source receiver))
          have hlabel := right.label_bare
          have hnode := right.bare_node
          rw [Node.toLegacy, Node.toLegacy, hnode, hlabel]
          cases right.node with
          | leaf l =>
              rw [Manifest.Node.bare]
              cases l with
              | name s =>
                  refine alike_bind hreceiver.toLegacy fun t u ht => ?_
                  refine alike_bind (alike_each hargs) fun ts us hts => ?_
                  refine alike_bind (alike_option hblock) fun o o' ho =>
                    .ok (leaves_ofNode fun hP => ?_)
                  rw [Node.erase, ht hP, hts hP, ho hP]
              | _ => exact alike_refuse _
          | _ =>
              rw [Manifest.Node.bare]
              exact alike_refuse _
      | _ =>
          simp only [Node.toLegacy]
          exact alike_refuse _
  | _ =>
      rw [Manifest.Node.bare]
      simp only [Node.toLegacy]
      exact alike_refuse _

/-- A call agrees when its functor, with its parts, and its arguments do. -/
theorem agrees_call {form : CallForm} {valueRequired : Bool} {functor : Expr} {args : List Expr}
    {block : Option Expr} (hfunctor : PartsAgree P source functor) (hargs : AllAgree P source args)
    (hblock : AllAgree P source block.toList) :
      NodeAgrees P source (.call form valueRequired functor args block) := by
  intro source'
  rw [Manifest.Node.bare]
  cases form with
  | value =>
      rw [Node.toLegacy, Node.toLegacy]
      exact alike_refuse _
  | named =>
      have hlabel := functor.label_bare
      have hnode := functor.bare_node
      rw [Node.toLegacy, Node.toLegacy, hnode, hlabel]
      cases functor.node with
      | leaf l =>
          rw [Manifest.Node.bare]
          cases l with
          | name s =>
              refine alike_bind (alike_each hargs) fun ts us hts => ?_
              refine alike_bind (alike_option hblock) fun o o' ho =>
                .ok (leaves_ofNode fun hP => ?_)
              rw [Node.erase, hts hP, ho hP]
          | _ => exact alike_refuse _
      | _ =>
          rw [Manifest.Node.bare]
          exact alike_refuse _
  | method =>
      exact agrees_method hfunctor hargs hblock source'

/-- A definition agrees when its parameters and its body do. -/
theorem agrees_definition {form : DefinitionForm} {name : String} {params : List (Parameter Expr)}
    {body : Option Expr} (hparams : AllAgree P source (params.flatMap Parameter.children))
    (hbody : AllAgree P source body.toList) :
      NodeAgrees P source (.definition form name params body) := by
  intro source'
  rw [Manifest.Node.bare]
  cases form with
  | application =>
      simp only [Node.toLegacy]
      exact alike_refuse _
  | resourceType =>
      rw [Node.toLegacy, Node.toLegacy]
      refine alike_bind (alike_arguments hparams) fun ps qs hps => ?_
      refine alike_bind (alike_body hbody) fun t u ht => .ok (leaves_ofNode fun hP => ?_)
      rw [Node.erase, hps hP, ht hP]
  | hostClass parent =>
      rw [Node.toLegacy, Node.toLegacy]
      refine alike_bind (alike_arguments hparams) fun ps qs hps => ?_
      refine alike_bind (alike_body hbody) fun t u ht => .ok (leaves_ofNode fun hP => ?_)
      rw [Node.erase, hps hP, ht hP]

/-- Queries are converted alike. -/
theorem alike_query {query : Query Expr} (h : AllAgree P source query.expr.toList) :
    Alike (Leaves P erase?) (queryLegacy source query)
      (queryLegacy source' ⟨query.kind, bare? query.expr, none⟩) := by
  obtain ⟨kind, expr, range⟩ := query
  cases expr with
  | none =>
      rw [bare?, queryLegacy, queryLegacy]
      exact .ok fun _ => rfl
  | some e =>
      rw [bare?, queryLegacy, queryLegacy, isNop_bare]
      split
      · exact .ok fun _ => rfl
      · refine alike_bind (h e List.mem_cons_self).toLegacyQuery fun t u ht => .ok fun hP => ?_
        rw [erase?, ht hP]

/-- The node with ranges and without, when that is so of all that stands below it. -/
theorem agrees_node (h : ∀ c ∈ n.children, PartsAgree P (sourceBelow source n) c)
    (hapart : P → KeysApart source n) : NodeAgrees P source n := by
  have hchildren : AllAgree P (sourceBelow source n) n.children := fun c hc => (h c hc).self
  -- a form is built from the forms of the children, so each variant binds their agreements in turn
  cases n with
  | leaf l =>
      intro source'
      rw [Manifest.Node.bare, Node.toLegacy, Node.toLegacy]
      exact alike_ofLeaf l
  | binary op left right =>
      exact agrees_both (hchildren _ List.mem_cons_self)
        (hchildren _ (List.mem_cons_of_mem _ List.mem_cons_self))
  | unary op e => exact agrees_unary (hchildren _ List.mem_cons_self)
  | items sequence es =>
      intro source'
      rw [Manifest.Node.bare, Node.toLegacy, Node.toLegacy]
      refine alike_bind (alike_each hchildren) fun ts us hts => .ok (leaves_ofNode fun hP => ?_)
      rw [Node.erase, hts hP]
  | access left keys =>
      intro source'
      obtain ⟨hleft, hkeys⟩ := List.forall_mem_cons.1 hchildren
      rw [Manifest.Node.bare, Node.toLegacy, Node.toLegacy]
      exact alike_access hleft hkeys
  | hereDoc format text =>
      intro source'
      rw [Manifest.Node.bare, Node.toLegacy, Node.toLegacy]
      exact (hchildren _ List.mem_cons_self).toLegacy
  | located excerpt e =>
      intro source'
      rw [Manifest.Node.bare, Node.toLegacy, Node.toLegacy]
      exact (hchildren _ List.mem_cons_self).toLegacy
  -- only here do keys have to be told apart
  | hash entries => exact fun source' => alike_mergeAll hchildren hapart
  | branch form test thenBody elseBody =>
      obtain ⟨htest, hchildren⟩ := List.forall_mem_cons.1 hchildren
      obtain ⟨hthen, hchildren⟩ := List.forall_mem_cons.1 hchildren
      exact agrees_branch htest hthen (List.forall_mem_singleton.1 hchildren)
  | cases test options =>
      intro source'
      obtain ⟨htest, hoptions⟩ := List.forall_mem_cons.1 hchildren
      rw [Manifest.Node.bare, Node.toLegacy, Node.toLegacy]
      refine alike_bind htest.toLegacy fun t u ht =>
        alike_bind (alike_choices hoptions) fun cs ds hcs => ?_
      refine .ok (leaves_ofNode fun hP => ?_)
      rw [Node.erase, ht hP, hcs hP]
  | selector left entries =>
      intro source'
      obtain ⟨hleft, hentries⟩ := List.forall_mem_cons.1 hchildren
      rw [Manifest.Node.bare, Node.toLegacy, Node.toLegacy, isSelectable_bare, left.label_bare]
      split
      · refine alike_bind (alike_pairs hentries) fun ps qs hps =>
          alike_bind hleft.toLegacy fun t u ht => ?_
        refine .ok (leaves_ofNode fun hP => ?_)
        rw [Node.erase, ht hP, hps hP]
      · exact alike_refuse _
  | call form valueRequired functor args block =>
      obtain ⟨hargs, hblock⟩ := List.forall_mem_append.1 hchildren
      exact agrees_call (h functor List.mem_cons_self) (List.forall_mem_cons.1 hargs).2 hblock
  | lambda params returns body =>
      intro source'
      rw [Manifest.Node.bare]
      cases returns with
      | some type =>
          rw [bare?, Node.toLegacy, Node.toLegacy]
          exact alike_refuseAt _
      | none =>
          obtain ⟨hparams, hbody⟩ := List.forall_mem_append.1 hchildren
          rw [bare?, Node.toLegacy, Node.toLegacy]
          refine alike_bind (alike_arguments (List.forall_mem_append.1 hparams).1) fun ps qs
            hps => ?_
          refine alike_bind (alike_body hbody) fun t u ht => .ok (leaves_ofNode fun hP => ?_)
          rw [Node.erase, hps hP, ht hP]
  | definition form name params body =>
      obtain ⟨hparams, hbody⟩ := List.forall_mem_append.1 hchildren
      exact agrees_definition hparams hbody
  | host names parent body =>
      intro source'
      obtain ⟨hnames, hbody⟩ := List.forall_mem_append.1 hchildren
      rw [Manifest.Node.bare, Node.toLegacy, Node.toLegacy]
      refine alike_bind (alike_hosts (P := P) names) fun ts us hts => ?_
      refine alike_bind (alike_option (List.forall_mem_append.1 hnames).2) fun o o' ho => ?_
      refine alike_bind (alike_body hbody) fun t u ht => .ok (leaves_ofNode fun hP => ?_)
      rw [Node.erase, hts hP, ho hP, ht hP]
  | collect type query operations =>
      intro source'
      obtain ⟨hquery, hoperations⟩ := List.forall_mem_append.1 hchildren
      obtain ⟨kind, expr, range⟩ := query
      rw [Manifest.Node.bare, Node.toLegacy, Node.toLegacy, typeName?_bare, type.label_bare]
      split
      · refine alike_bind (alike_query (List.forall_mem_cons.1 hquery).2) fun o o' ho => ?_
        refine alike_bind (alike_settings hoperations) fun ss ts hss =>
          .ok (leaves_ofNode fun hP => ?_)
        rw [Node.erase, ho hP, hss hP]
      · exact alike_refuse _
  -- what is left has no legacy form, with ranges or without
  | _ =>
      intro source'
      rw [Manifest.Node.bare]
      simp only [Node.toLegacy]
      exact alike_refuse _

/-! ## Queries -/

/-- Parentheses say nothing of places. -/
theorem erase_inParens (t : Tree) : (inParens t).erase = inParens t.erase := by
  obtain ⟨n, a⟩ := t
  rw [Tree.erase]
  cases n <;> rw [Node.erase] <;> unfold inParens <;> dsimp only <;> rw [Tree.erase, Node.erase]

/-- The node as a query, with ranges and without. -/
theorem alike_toLegacyQuery (hchildren : AllAgree P (sourceBelow source n) n.children) :
    Alike (Leaves P Tree.erase) (Node.toLegacyQuery source n)
      (Node.toLegacyQuery source' n.bare) := by
  cases n with
  | binary op left right =>
      obtain ⟨hleft, hright⟩ := List.forall_mem_cons.1 hchildren
      have hright := List.forall_mem_singleton.1 hright
      rw [Manifest.Node.bare, Node.toLegacyQuery, Node.toLegacyQuery]
      refine alike_bind (alike_self (testOp op)) fun o o' ho => ?_
      obtain rfl := ho
      refine alike_bind hleft.toLegacyQuery fun t u ht => ?_
      refine alike_bind hright.toLegacyQuery fun v w hv => .ok (leaves_ofNode fun hP => ?_)
      rw [Node.erase, ht hP, hv hP]
  | unary op e =>
      have he := List.forall_mem_singleton.1 hchildren
      rw [Manifest.Node.bare]
      cases op with
      | parens =>
          rw [Node.toLegacyQuery, Node.toLegacyQuery]
          refine alike_bind he.toLegacyQuery fun t u ht => .ok fun hP => ?_
          rw [erase_inParens, ht hP]
      | dollar =>
          rw [Node.toLegacyQuery, Node.toLegacyQuery]
          exact alike_ofDollar e
      | _ =>
          simp only [Node.toLegacyQuery]
          exact alike_refuse _
  | leaf l =>
      rw [Manifest.Node.bare]
      cases l with
      | name s => exact alike_ofLeaf (.name s)
      | string s => exact alike_ofLeaf (.string s)
      | integer value radix => exact alike_ofLeaf (.integer value radix)
      | _ => exact alike_refuse _
  | items sequence es =>
      rw [Manifest.Node.bare]
      cases sequence with
      | concatenation =>
          rw [Node.toLegacyQuery, Node.toLegacyQuery]
          refine alike_bind (alike_each hchildren) fun ts us hts => .ok (leaves_ofNode fun hP => ?_)
          rw [Node.erase, hts hP]
      | _ =>
          simp only [Node.toLegacyQuery]
          exact alike_refuse _
  | collect type query operations =>
      obtain ⟨kind, expr, range⟩ := query
      rw [Manifest.Node.bare]
      simp only [Node.toLegacyQuery]
      exact alike_refuse _
  | _ =>
      rw [Manifest.Node.bare]
      simp only [Node.toLegacyQuery]
      exact alike_refuse _

/-! ## Trees -/

/-- In no hash of the expression two keys that are strings with interpolations have legacy forms
that differ in their places alone. -/
def AllKeysApart (source : Option Source) (e : Expr) : Prop :=
  ∀ s d, Part source e s d → KeysApart s d.node

/-- Every part of an expression agrees, as long as its keys are told apart. -/
theorem partsAgree {e : Expr} (source : Option Source) (h : P → AllKeysApart source e) :
    PartsAgree P source e := by
  have hbelow : ∀ c ∈ e.children, PartsAgree P (sourceBelow source e.node) c := fun c hc =>
    partsAgree _ fun hP s d hd => h hP s d (.child hc hd)
  intro s d hd
  cases hd with
  | child hc hd => exact hbelow _ hc s d hd
  | self =>
      have hnode : NodeAgrees P source e.node :=
        agrees_node hbelow fun hP => h hP source e (.self source e)
      have hchildren : AllAgree P (sourceBelow source e.node) e.node.children := fun c hc =>
        (hbelow c hc).self
      intro source'
      obtain ⟨n, range⟩ := e
      rw [Expr.bare, Expr.toLegacy, Expr.toLegacy, Expr.toLegacyQuery, Expr.toLegacyQuery]
      exact ⟨alike_settle (hnode source'), alike_settle (alike_toLegacyQuery hchildren)⟩
termination_by sizeOf e
decreasing_by exact Expr.sizeOf_lt_of_mem_children hc

/-- The problem that a result fails with. -/
def failure? : Except Error Tree → Option Problem
  | .ok _ => none
  | .error e => some e.problem

/-- Places do not decide whether there is a legacy form, nor with which problem there is none. They
change nothing of the form either, as long as no two keys of a hash that are strings with
interpolations are told apart by their places alone. -/
theorem toLegacy_bare (e : Expr) (source : Option Source) :
    failure? (e.toLegacy source) = failure? (e.bare.toLegacy none) ∧
      (AllKeysApart source e →
        outcome (e.toLegacy source) = outcome (e.bare.toLegacy none)) := by
  have halike := ((partsAgree source id).self (P := AllKeysApart source e) none).1
  refine ⟨?_, outcome_of_alike halike⟩
  generalize e.toLegacy source = x at halike
  generalize e.bare.toLegacy none = y at halike
  cases halike with
  | ok h => rfl
  | error h => exact congrArg some h

/-- The keys of a hash that are strings with interpolations. -/
def interpolatedKeys : Manifest.Node Expr → List Expr
  | .hash entries => (entries.map Entry.key).filter isInterpolated
  | _ => []

/-- A hash with one such key at most has nothing to tell apart. -/
theorem keysApart_of_length (h : (interpolatedKeys n).length ≤ 1) : KeysApart source n := by
  cases n with
  | hash entries =>
      intro p hp q hq hpkey hqkey t u ht hu _
      have hmem : ∀ entry ∈ entries, isInterpolated entry.key →
          entry.key ∈ interpolatedKeys (.hash entries) := fun entry hentry hkey =>
        List.mem_filter.2 ⟨List.mem_map.2 ⟨entry, hentry, rfl⟩, hkey⟩
      have hp := hmem p hp hpkey
      have hq := hmem q hq hqkey
      have hkey : p.key = q.key := by
        generalize interpolatedKeys (.hash entries) = keys at h hp hq
        match keys, h with
        | [key], _ => rw [List.mem_singleton.1 hp, List.mem_singleton.1 hq]
      rw [hkey, hu] at ht
      rw [Except.ok.inj ht]
  | _ => trivial

/-- The document of the text that the hashes below are read from. -/
def hashSource : Source := .document (.ofText (List.replicate 40 'a') "a")

/-- A string with a variable, `"$x"`, at a range. -/
def stringAt (start : Nat) : Expr :=
  let place := some ⟨start + 1, start + 3⟩
  ⟨.items .concatenation
    [⟨.unary .text ⟨.unary .dollar ⟨.leaf (.name "x"), place⟩, place⟩, place⟩],
      some ⟨start, start + 4⟩⟩

/-- An entry of a hash at a range, with its place for a value. -/
def entryAt (key : Expr) (start : Nat) : Entry Expr :=
  ⟨key, ⟨.leaf (.integer (.ofNat start) .decimal), some ⟨start, start + 2⟩⟩, none⟩

/-- A hash with a string with a variable for a key, and twice the same name. -/
def namedTwice : Expr :=
  ⟨.hash [entryAt (stringAt 0) 6, entryAt ⟨.leaf (.name "b"), some ⟨9, 10⟩⟩ 12,
    entryAt ⟨.leaf (.string "b"), some ⟨15, 18⟩⟩ 20], some ⟨0, 22⟩⟩

/-- The key with a variable stands there once, and the other two are told by their text. -/
theorem toLegacy_bare_hash : AllKeysApart (some hashSource) namedTwice ∧
    outcome (namedTwice.toLegacy (some hashSource)) = outcome (namedTwice.bare.toLegacy none) := by
  have hkeys : ∀ d ∈ namedTwice.nodes, (interpolatedKeys d.node).length ≤ 1 := by decide +kernel
  have hapart : AllKeysApart (some hashSource) namedTwice := fun s d hd =>
    keysApart_of_length (hkeys d hd.mem_nodes)
  exact ⟨hapart, (toLegacy_bare namedTwice (some hashSource)).2 hapart⟩

/-- A hash with twice the same string with a variable for a key. -/
def stringTwice : Expr :=
  ⟨.hash [entryAt (stringAt 0) 6, entryAt (stringAt 10) 16], some ⟨0, 22⟩⟩

/-- How many entries the hash has that a result is. -/
def entryCount : Except Problem Tree → Nat
  | .ok ⟨.hash ps, _⟩ => ps.length
  | _ => 0

/-- The places of their variables tell two keys apart that are merged without places. -/
theorem toLegacy_counts_places : ¬ ∀ (e : Expr) (source : Option Source),
    outcome (e.toLegacy source) = outcome (e.bare.toLegacy none) := by
  intro hclaim
  have hcount := congrArg entryCount (hclaim stringTwice (some hashSource))
  have htwo : entryCount (outcome (stringTwice.toLegacy (some hashSource))) = 2 := by decide +kernel
  have hone : entryCount (outcome (stringTwice.bare.toLegacy none)) = 1 := by decide +kernel
  rw [htwo, hone] at hcount
  exact nomatch hcount

end Manifest.Legacy
