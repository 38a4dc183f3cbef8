import Manifest.Legacy.OfTree
import Manifest.Tree.Walk

/-!
# What has no legacy form

Resources, templates, types and some other constructs have no legacy form. A legacy form that exists
accounts for each sub-expression: it was converted itself, or it is a name or another leaf that its
parent reads. Of the keys of an access to a variable the first one is converted alone, and nothing
is said of the others.

* `Node.isUnsupported` — the constructs without a legacy form.
* `Accounted.children` — what a legacy form says of the sub-expressions of its expression.
* `toLegacy_refuses` — constructs without a legacy form stand nowhere but below such other keys.
-/

namespace Manifest

/-- The construct has no legacy form. -/
def Node.isUnsupported {ε : Type} : Node ε → Bool
  | .resource .. | .settings .. | .template .. | .leaf (.renderString _) | .unary .render _
  | .call .value .. | .unary .unfold _ | .function .. | .definition .application .. | .typeAlias ..
  | .typeMapping .. | .typeDefinition .. | .site .. | .capability .. => true
  | _ => false

namespace Legacy

open Text (Source)

/-- A name: keys behind it are titles. -/
def isName (e : Expr) : Bool :=
  match e.node with
  | .leaf (.name _) | .leaf (.reference _) => true
  | _ => false

/-- The keys of an access to a variable behind the first one. -/
def furtherKeys : Manifest.Node Expr → List Expr
  | .access left keys => if isName left then [] else keys.tail
  | _ => []

variable {α β : Type} {source : Option Source} {e c : Expr} {es : List Expr} {t : Tree}
  {n : Manifest.Node Expr}

/-! ## Results -/

theorem bind_ok {ε : Type} {x : Except ε α} {f : α → Except ε β} {b : β}
    (h : (x >>= f) = .ok b) : ∃ a, x = .ok a ∧ f a = .ok b := by
  cases x with
  | error e => exact nomatch h
  | ok a => exact ⟨a, rfl, h⟩

/-- A settled result comes from a result. -/
theorem settle_ok {range : Option Text.Range} {r : Except Error Tree}
    (h : settle source range r = .ok t) : ∃ u, r = .ok u := by
  cases r with
  | error e => exact nomatch h
  | ok u => exact ⟨u, rfl⟩

/-! ## Expressions that are accounted for -/

/-- The expression was converted, as an expression or as a query, or it is one that is read as a
whole: a leaf, or the receiver of a method with the name of the method. -/
inductive Accounted : Expr → Prop
  | converted {e : Expr} {source : Option Source} {t : Tree} (h : e.toLegacy source = .ok t) :
      Accounted e
  | queried {e : Expr} {source : Option Source} {t : Tree} (h : e.toLegacyQuery source = .ok t) :
      Accounted e
  | leaf {e : Expr} {l : Manifest.Leaf} (h : e.node = .leaf l)
      (hl : ∀ s, l ≠ .renderString s) : Accounted e
  | dot {e receiver name : Expr} (h : e.node = .binary .dot receiver name)
      (hreceiver : Accounted receiver) (hname : Accounted name) : Accounted e

/-- Each of the expressions is accounted for. -/
def AllAccounted (es : List Expr) : Prop := ∀ e ∈ es, Accounted e

theorem allAccounted_nil : AllAccounted [] := List.forall_mem_nil _

theorem AllAccounted.cons (he : Accounted e) (hes : AllAccounted es) : AllAccounted (e :: es) :=
  List.forall_mem_cons.2 ⟨he, hes⟩

theorem AllAccounted.append {ds : List Expr} (hds : AllAccounted ds) (hes : AllAccounted es) :
    AllAccounted (ds ++ es) := List.forall_mem_append.2 ⟨hds, hes⟩

theorem accounted_name {s : String} (h : e.node = .leaf (.name s)) : Accounted e := .leaf h nofun

/-- An empty expression is accounted for. -/
theorem accounted_of_isNop (h : e.isNop) : Accounted e := by
  obtain ⟨n, range⟩ := e
  unfold Expr.isNop at h
  split at h
  next hnode => exact .leaf hnode nofun
  next => exact absurd h Bool.false_ne_true

/-- A variable with a name is accounted for. -/
theorem accounted_of_variableName? {s : String} (h : variableName? e = some s) : Accounted e := by
  unfold variableName? at h
  split at h
  next hnode => exact .leaf hnode nofun
  next hnode => exact .leaf hnode nofun
  next => exact nomatch h

/-- A host is accounted for. -/
theorem accounted_of_hostLeaf? {l : Leaf} (h : hostLeaf? e = some l) : Accounted e := by
  unfold hostLeaf? at h
  split at h
  next hnode => exact .leaf hnode nofun
  next hnode => exact .leaf hnode nofun
  next hnode => exact .leaf hnode nofun
  next hnode => exact .leaf hnode nofun
  next hnode => exact .leaf hnode nofun
  next => exact nomatch h

/-- The name of a type is accounted for. -/
theorem accounted_of_typeName? {s : String} (h : typeName? e = some s) : Accounted e := by
  unfold typeName? at h
  split at h
  next hnode => exact .leaf hnode nofun
  next => exact nomatch h

/-! ## Parts -/

/-- Converted expressions are accounted for, one after another. -/
theorem accounted_each {ts : List Tree} (h : firstError (legacyEach source es) = .ok ts) :
    AllAccounted es := by
  induction es generalizing ts with
  | nil => exact allAccounted_nil
  | cons e es ih =>
      rw [legacyEach, firstError] at h
      obtain ⟨t, ht, h⟩ := bind_ok h
      obtain ⟨ts, hts, -⟩ := bind_ok h
      exact .cons (.converted ht) (ih hts)

/-- A converted expression that may be missing is accounted for. -/
theorem accounted_option {o : Option Expr} {u : Option Tree} (h : legacy? source o = .ok u) :
    AllAccounted o.toList := by
  cases o with
  | none => exact allAccounted_nil
  | some e =>
      rw [legacy?] at h
      obtain ⟨t, ht, -⟩ := bind_ok h
      exact .cons (.converted ht) allAccounted_nil

theorem accounted_body {o : Option Expr} (h : bodyLegacy source o = .ok t) :
    AllAccounted o.toList := by
  cases o with
  | none => exact allAccounted_nil
  | some e =>
      rw [bodyLegacy] at h
      exact .cons (.converted h) allAccounted_nil

theorem accounted_hosts {ts : List Tree} (h : firstError (es.map (ofHost source)) = .ok ts) :
    AllAccounted es := by
  induction es generalizing ts with
  | nil => exact allAccounted_nil
  | cons e es ih =>
      rw [List.map_cons, firstError] at h
      obtain ⟨t, ht, h⟩ := bind_ok h
      obtain ⟨ts, hts, -⟩ := bind_ok h
      refine .cons ?_ (ih hts)
      unfold ofHost at ht
      split at ht
      next hleaf => exact accounted_of_hostLeaf? hleaf
      next => exact nomatch ht

/-- The key of a converted entry is accounted for. -/
theorem accounted_hashKey {key : Expr} (h : hashKey source key (key.toLegacy source) = .ok t) :
    Accounted key := by
  unfold hashKey at h
  split at h
  next hnode => exact .leaf hnode nofun
  next => exact .converted h
  next => exact .converted h
  next => exact nomatch h

/-- The keys and values of a converted hash are accounted for. -/
theorem accounted_hash {entries : List (Entry Expr)} {ps : List (Pair Tree)}
    (h : hashLegacy source entries = .ok ps) : AllAccounted (entries.flatMap Entry.children) := by
  induction entries generalizing ps with
  | nil => exact allAccounted_nil
  | cons entry entries ih =>
      obtain ⟨key, value, range⟩ := entry
      rw [hashLegacy] at h
      obtain ⟨k, hk, h⟩ := bind_ok h
      obtain ⟨v, hv, h⟩ := bind_ok h
      obtain ⟨ps, hps, -⟩ := bind_ok h
      exact .cons (accounted_hashKey hk) (.cons (.converted hv) (ih hps))

theorem accounted_pairs {entries : List (Entry Expr)} {ps : List (Pair Tree)}
    (h : pairsLegacy source entries = .ok ps) : AllAccounted (entries.flatMap Entry.children) := by
  induction entries generalizing ps with
  | nil => exact allAccounted_nil
  | cons entry entries ih =>
      obtain ⟨key, value, range⟩ := entry
      rw [pairsLegacy] at h
      obtain ⟨k, hk, h⟩ := bind_ok h
      obtain ⟨v, hv, h⟩ := bind_ok h
      obtain ⟨ps, hps, -⟩ := bind_ok h
      exact .cons (.converted hk) (.cons (.converted hv) (ih hps))

theorem accounted_choices {options : List (CaseOption Expr)} {cs : List (Choice Tree)}
    (h : choicesLegacy source options = .ok cs) :
    AllAccounted (options.flatMap CaseOption.children) := by
  induction options generalizing cs with
  | nil => exact allAccounted_nil
  | cons option options ih =>
      obtain ⟨values, body, range⟩ := option
      rw [choicesLegacy] at h
      obtain ⟨vs, hvs, h⟩ := bind_ok h
      obtain ⟨b, hb, h⟩ := bind_ok h
      obtain ⟨cs, hcs, -⟩ := bind_ok h
      rw [List.flatMap_cons]
      refine .append (.append (accounted_each hvs) ?_) (ih hcs)
      exact .cons (.converted hb) allAccounted_nil

/-- The defaults of converted parameters are accounted for. -/
theorem accounted_arguments {params : List (Parameter Expr)} {ps : List (Argument Tree)}
    (h : argumentsLegacy source params = .ok ps) :
    AllAccounted (params.flatMap Parameter.children) := by
  induction params generalizing ps with
  | nil => exact allAccounted_nil
  | cons param params ih =>
      obtain ⟨name, value, type, capturesRest, range⟩ := param
      rw [argumentsLegacy] at h
      split at h
      next => exact nomatch h
      next htyped =>
        obtain ⟨v, hv, h⟩ := bind_ok h
        obtain ⟨ps, hps, -⟩ := bind_ok h
        cases type with
        | some type => exact absurd (Bool.or_eq_true_iff.2 (.inr rfl)) htyped
        | none =>
            rw [List.flatMap_cons]
            exact .append (accounted_option hv) (ih hps)

/-- The values of converted operations are accounted for. -/
theorem accounted_settings {operations : List (Operation Expr)} {ss : List (Setting Tree)}
    (h : settingsLegacy source operations = .ok ss) :
    AllAccounted (operations.map Operation.value) := by
  induction operations generalizing ss with
  | nil => exact allAccounted_nil
  | cons operation operations ih =>
      cases operation with
      | «attribute» name op value range =>
          rw [settingsLegacy] at h
          obtain ⟨v, hv, h⟩ := bind_ok h
          obtain ⟨ss, hss, -⟩ := bind_ok h
          exact .cons (.converted hv) (ih hss)
      | attributes values range =>
          rw [settingsLegacy] at h
          exact nomatch h

/-- A converted query is accounted for. -/
theorem accounted_query {query : Query Expr} {u : Option Tree}
    (h : queryLegacy source query = .ok u) : AllAccounted query.expr.toList := by
  obtain ⟨kind, expr, range⟩ := query
  cases expr with
  | none => exact allAccounted_nil
  | some e =>
      rw [queryLegacy] at h
      refine .cons ?_ allAccounted_nil
      split at h
      next hnop => exact accounted_of_isNop hnop
      next =>
        obtain ⟨t, ht, -⟩ := bind_ok h
        exact .queried ht

/-! ## Nodes -/

/-- The sub-expressions of the node are accounted for, but for keys of an access to a variable. -/
def Complete (n : Manifest.Node Expr) : Prop :=
  n.isUnsupported = false ∧ ∀ c ∈ n.children, Accounted c ∨ c ∈ furtherKeys n

/-- A node all of whose sub-expressions are accounted for. -/
theorem complete_of_all (h : n.isUnsupported = false) (hall : AllAccounted n.children) :
    Complete n := ⟨h, fun c hc => .inl (hall c hc)⟩

/-- An element under the first of some keys. -/
theorem complete_element {left : Expr} {keys : List Expr} {target key : Tree}
    (hname : isName left = false) (htarget : left.toLegacy source = .ok target)
    (hkey : (legacyEach source keys).headD (.ok .nop) = .ok key) :
    Complete (.access left keys) := by
  refine ⟨rfl, List.forall_mem_cons.2 ⟨.inl (.converted htarget), ?_⟩⟩
  rw [furtherKeys, hname]
  cases keys with
  | nil => exact List.forall_mem_nil _
  | cons key keys =>
      rw [legacyEach] at hkey
      exact List.forall_mem_cons.2 ⟨.inl (.converted hkey), fun c hc => .inr hc⟩

/-- A converted access is complete up to the keys that are dropped. -/
theorem complete_access {left : Expr} {keys : List Expr}
    (h : access left (left.toLegacy source) (legacyEach source keys) = .ok t) :
    Complete (.access left keys) := by
  unfold access at h
  split at h
  next hnode =>
    obtain ⟨ts, hts, -⟩ := bind_ok h
    exact complete_of_all rfl (.cons (.leaf hnode nofun) (accounted_each hts))
  next hnode =>
    obtain ⟨ts, hts, -⟩ := bind_ok h
    exact complete_of_all rfl (.cons (.leaf hnode nofun) (accounted_each hts))
  next hnode =>
    obtain ⟨target, htarget, h⟩ := bind_ok h
    obtain ⟨key, hkey, -⟩ := bind_ok h
    exact complete_element (by rw [isName, hnode]) htarget hkey
  next hnode =>
    obtain ⟨target, htarget, h⟩ := bind_ok h
    obtain ⟨key, hkey, -⟩ := bind_ok h
    exact complete_element (by rw [isName, hnode]) htarget hkey
  next => exact nomatch h

/-- A variable that is named is converted. -/
theorem ofDollar_ok (h : ofDollar e = .ok t) : Accounted e := by
  unfold ofDollar at h
  split at h
  next hname => exact accounted_of_variableName? hname
  next => exact nomatch h

/-- The target of an assignment is accounted for. -/
theorem accounted_target {left : Expr} (h : target source left (left.toLegacy source) = .ok t) :
    Accounted left := by
  obtain ⟨n, range⟩ := left
  unfold target at h
  split at h
  next e hnode =>
    split at h
    next name hname =>
      obtain rfl : n = .unary .dollar e := hnode
      have hform : Expr.toLegacy source ⟨.unary .dollar e, range⟩ =
          .ok (stamp source range (.ofLeaf (.dollar name))) := by
        rw [Expr.toLegacy, Node.toLegacy, ofDollar, hname]
        rfl
      exact .converted hform
    next => cases h
  next => exact .converted h
  next => cases h

theorem complete_operator {op : Manifest.BinaryOp} {left right : Expr} {o : BinaryOp}
    (h : (do
      let left ← left.toLegacy source
      let right ← right.toLegacy source
      return Tree.ofNode (.binary o left right)) = Except.ok t) :
    Complete (.binary op left right) := by
  obtain ⟨l, hl, h⟩ := bind_ok h
  obtain ⟨r, hr, -⟩ := bind_ok h
  exact complete_of_all rfl (.cons (.converted hl) (.cons (.converted hr) allAccounted_nil))

theorem complete_assignment {op : AssignmentOp} {left right : Expr}
    (h : Node.toLegacy source (.binary (.assignment op) left right) = .ok t) :
    Complete (.binary (.assignment op) left right) := by
  cases op with
  | delete =>
      rw [Node.toLegacy] at h
      cases h
  | _ =>
      simp only [Node.toLegacy] at h
      obtain ⟨l, hl, h⟩ := bind_ok h
      obtain ⟨r, hr, -⟩ := bind_ok h
      exact complete_of_all rfl
        (.cons (accounted_target hl) (.cons (.converted hr) allAccounted_nil))

/-- A converted binary expression is complete. -/
theorem complete_binary {op : Manifest.BinaryOp} {left right : Expr}
    (h : Node.toLegacy source (.binary op left right) = .ok t) :
    Complete (.binary op left right) := by
  cases op with
  | assignment op => exact complete_assignment h
  | dot =>
      simp only [Node.toLegacy] at h
      cases h
  | _ =>
      simp only [Node.toLegacy] at h
      exact complete_operator h

/-- A converted unary expression is complete. -/
theorem complete_unary {op : Manifest.UnaryOp}
    (h : Node.toLegacy source (.unary op e) = .ok t) : Complete (.unary op e) := by
  have hone : Manifest.Node.isUnsupported (.unary op e) = false → Accounted e →
      Complete (.unary op e) :=
    fun hop he => complete_of_all hop (.cons he allAccounted_nil)
  cases op with
  | negation =>
      rw [Node.toLegacy] at h
      obtain ⟨u, hu, -⟩ := bind_ok h
      exact hone rfl (.converted hu)
  | minus =>
      rw [Node.toLegacy] at h
      obtain ⟨u, hu, -⟩ := bind_ok h
      exact hone rfl (.converted hu)
  | parens =>
      rw [Node.toLegacy] at h
      exact hone rfl (.converted h)
  | text =>
      rw [Node.toLegacy] at h
      exact hone rfl (.converted h)
  | dollar =>
      rw [Node.toLegacy] at h
      exact hone rfl (ofDollar_ok h)
  | unfold =>
      simp only [Node.toLegacy] at h
      cases h
  | render =>
      simp only [Node.toLegacy] at h
      cases h

/-- A converted branch is complete. -/
theorem complete_branch {form : BranchForm} {test thenBody elseBody : Expr}
    (h : Node.toLegacy source (.branch form test thenBody elseBody) = .ok t) :
    Complete (.branch form test thenBody elseBody) := by
  have hthree : Accounted test → Accounted thenBody → Accounted elseBody →
      Complete (.branch form test thenBody elseBody) :=
    fun htest hthen helse =>
      complete_of_all rfl (.cons htest (.cons hthen (.cons helse allAccounted_nil)))
  cases form with
  | ifTrue =>
      rw [Node.toLegacy] at h
      obtain ⟨u, hu, h⟩ := bind_ok h
      obtain ⟨v, hv, h⟩ := bind_ok h
      split at h
      next hnop => exact hthree (.converted hu) (.converted hv) (accounted_of_isNop hnop)
      next =>
        obtain ⟨w, hw, -⟩ := bind_ok h
        exact hthree (.converted hu) (.converted hv) (.converted hw)
  | unlessTrue =>
      rw [Node.toLegacy] at h
      split at h
      next hnop =>
        obtain ⟨u, hu, h⟩ := bind_ok h
        obtain ⟨v, hv, -⟩ := bind_ok h
        exact hthree (.converted hu) (.converted hv) (accounted_of_isNop hnop)
      next => cases h

/-- A converted call is complete. -/
theorem complete_call {form : CallForm} {valueRequired : Bool} {functor : Expr} {args : List Expr}
    {block : Option Expr}
    (h : Node.toLegacy source (.call form valueRequired functor args block) = .ok t) :
    Complete (.call form valueRequired functor args block) := by
  cases form with
  | value =>
      rw [Node.toLegacy] at h
      cases h
  | named =>
      rw [Node.toLegacy] at h
      split at h
      next hnode =>
        obtain ⟨us, hus, h⟩ := bind_ok h
        obtain ⟨o, ho, -⟩ := bind_ok h
        refine complete_of_all rfl (.append (.cons (accounted_name hnode) ?_) (accounted_option ho))
        exact accounted_each hus
      next => cases h
  | method =>
      rw [Node.toLegacy.eq_def] at h
      dsimp only at h
      split at h
      next receiver right range =>
        split at h
        next name hname =>
          obtain ⟨r, hr, h⟩ := bind_ok h
          obtain ⟨us, hus, h⟩ := bind_ok h
          obtain ⟨o, ho, -⟩ := bind_ok h
          have hfunctor : Accounted ⟨.binary .dot receiver right, range⟩ :=
            .dot rfl (.converted hr) (accounted_name hname)
          exact complete_of_all rfl
            (.append (.cons hfunctor (accounted_each hus)) (accounted_option ho))
        next => cases h
      next => cases h

/-- A converted definition is complete. -/
theorem complete_definition {form : DefinitionForm} {name : String}
    {params : List (Parameter Expr)} {body : Option Expr}
    (h : Node.toLegacy source (.definition form name params body) = .ok t) :
    Complete (.definition form name params body) := by
  cases form with
  | application =>
      simp only [Node.toLegacy] at h
      cases h
  | resourceType =>
      rw [Node.toLegacy] at h
      obtain ⟨ps, hps, h⟩ := bind_ok h
      obtain ⟨b, hb, -⟩ := bind_ok h
      exact complete_of_all rfl (.append (accounted_arguments hps) (accounted_body hb))
  | hostClass parent =>
      rw [Node.toLegacy] at h
      obtain ⟨ps, hps, h⟩ := bind_ok h
      obtain ⟨b, hb, -⟩ := bind_ok h
      exact complete_of_all rfl (.append (accounted_arguments hps) (accounted_body hb))

theorem complete_leaf {l : Manifest.Leaf} (h : ∀ s, l ≠ .renderString s) :
    Complete (.leaf l : Manifest.Node Expr) := by
  refine complete_of_all ?_ allAccounted_nil
  cases l with
  | renderString s => exact absurd rfl (h s)
  | _ => rfl

/-- A legacy form accounts for what stands below the node. -/
theorem complete_of_toLegacy (h : Node.toLegacy source n = .ok t) : Complete n := by
  -- converting a node converts all its children but for the further keys of an access
  cases n with
  | leaf l =>
      rw [Node.toLegacy] at h
      refine complete_leaf ?_
      rintro s rfl
      cases h
  | binary op left right => exact complete_binary h
  | unary op e => exact complete_unary h
  | items sequence es =>
      rw [Node.toLegacy] at h
      obtain ⟨us, hus, -⟩ := bind_ok h
      exact complete_of_all rfl (accounted_each hus)
  | access left keys =>
      rw [Node.toLegacy] at h
      exact complete_access h
  | hereDoc format text =>
      rw [Node.toLegacy] at h
      exact complete_of_all rfl (.cons (.converted h) allAccounted_nil)
  | located excerpt e =>
      rw [Node.toLegacy] at h
      exact complete_of_all rfl (.cons (.converted h) allAccounted_nil)
  | hash entries =>
      rw [Node.toLegacy] at h
      obtain ⟨ps, hps, -⟩ := bind_ok h
      exact complete_of_all rfl (accounted_hash hps)
  | branch form test thenBody elseBody => exact complete_branch h
  | cases test options =>
      rw [Node.toLegacy] at h
      obtain ⟨u, hu, h⟩ := bind_ok h
      obtain ⟨cs, hcs, -⟩ := bind_ok h
      exact complete_of_all rfl (.cons (.converted hu) (accounted_choices hcs))
  | selector left entries =>
      rw [Node.toLegacy] at h
      split at h
      next =>
        obtain ⟨ps, hps, h⟩ := bind_ok h
        obtain ⟨u, hu, -⟩ := bind_ok h
        exact complete_of_all rfl (.cons (.converted hu) (accounted_pairs hps))
      next => cases h
  | call form valueRequired functor args block => exact complete_call h
  | lambda params returns body =>
      cases returns with
      | some type =>
          rw [Node.toLegacy] at h
          cases h
      | none =>
          rw [Node.toLegacy] at h
          obtain ⟨ps, hps, h⟩ := bind_ok h
          obtain ⟨b, hb, -⟩ := bind_ok h
          refine complete_of_all rfl (.append ?_ (accounted_body hb))
          rw [Option.toList_none, List.append_nil]
          exact accounted_arguments hps
  | definition form name params body => exact complete_definition h
  | host names parent body =>
      rw [Node.toLegacy] at h
      obtain ⟨us, hus, h⟩ := bind_ok h
      obtain ⟨o, ho, h⟩ := bind_ok h
      obtain ⟨b, hb, -⟩ := bind_ok h
      exact complete_of_all rfl (.append (.append (accounted_hosts hus) (accounted_option ho))
        (accounted_body hb))
  | collect type query operations =>
      rw [Node.toLegacy] at h
      split at h
      next hname =>
        obtain ⟨o, ho, h⟩ := bind_ok h
        obtain ⟨ss, hss, -⟩ := bind_ok h
        exact complete_of_all rfl
          (.append (.cons (accounted_of_typeName? hname) (accounted_query ho))
          (accounted_settings hss))
      next => cases h
  | _ =>
      simp only [Node.toLegacy] at h
      cases h

/-- A legacy form as a query accounts for what stands below the node. -/
theorem complete_of_toLegacyQuery (h : Node.toLegacyQuery source n = .ok t) : Complete n := by
  unfold Node.toLegacyQuery at h
  split at h
  next op left right =>
    obtain ⟨o, -, h⟩ := bind_ok h
    obtain ⟨l, hl, h⟩ := bind_ok h
    obtain ⟨r, hr, -⟩ := bind_ok h
    exact complete_of_all rfl (.cons (.queried hl) (.cons (.queried hr) allAccounted_nil))
  next e =>
    obtain ⟨u, hu, -⟩ := bind_ok h
    exact complete_of_all rfl (.cons (.queried hu) allAccounted_nil)
  next e => exact complete_of_all rfl (.cons (ofDollar_ok h) allAccounted_nil)
  next => exact complete_leaf nofun
  next => exact complete_leaf nofun
  next => exact complete_leaf nofun
  next es =>
    obtain ⟨us, hus, -⟩ := bind_ok h
    exact complete_of_all rfl (accounted_each hus)
  next => exact nomatch h

/-- What accounts for an expression accounts for its sub-expressions, but for further keys. -/
theorem Accounted.complete (h : Accounted e) : Complete e.node := by
  cases h with
  | converted h =>
      obtain ⟨n, range⟩ := e
      rw [Expr.toLegacy] at h
      obtain ⟨u, hu⟩ := settle_ok h
      exact complete_of_toLegacy hu
  | queried h =>
      obtain ⟨n, range⟩ := e
      rw [Expr.toLegacyQuery] at h
      obtain ⟨u, hu⟩ := settle_ok h
      exact complete_of_toLegacyQuery hu
  | leaf h hl =>
      rw [h]
      exact complete_leaf hl
  | dot h hreceiver hname =>
      rw [h]
      exact complete_of_all rfl (.cons hreceiver (.cons hname allAccounted_nil))

/-! ## Trees -/

/-- The expression stands below a further key of an access to a variable. -/
def Overlooked (e c : Expr) : Prop := ∃ a ∈ e.nodes, ∃ key ∈ furtherKeys a.node, c ∈ key.nodes

/-- The nodes below a child are nodes of the tree. -/
theorem mem_nodes_of_child {d : Expr} (hc : c ∈ e.children) (hd : d ∈ c.nodes) : d ∈ e.nodes := by
  rw [Expr.nodes_eq]
  exact List.mem_cons_of_mem _ (List.mem_flatMap.2 ⟨c, hc, hd⟩)

theorem mem_nodes_self (e : Expr) : e ∈ e.nodes := by
  rw [Expr.nodes_eq]
  exact List.mem_cons_self

/-- What accounts for an expression overlooks constructs without a legacy form below further keys
alone. -/
theorem Accounted.overlooked {e c : Expr} (h : Accounted e) (hc : c ∈ e.nodes)
    (hunsupported : c.node.isUnsupported) : Overlooked e c := by
  rw [Expr.nodes_eq] at hc
  obtain ⟨hself, hchildren⟩ := h.complete
  rcases List.mem_cons.1 hc with rfl | hc
  · rw [hself] at hunsupported
    exact absurd hunsupported Bool.false_ne_true
  · obtain ⟨d, hd, hc⟩ := List.mem_flatMap.1 hc
    rcases hchildren d hd with haccounted | hkey
    · obtain ⟨a, ha, key, hkey, hmem⟩ := haccounted.overlooked hc hunsupported
      exact ⟨a, mem_nodes_of_child hd ha, key, hkey, hmem⟩
    · exact ⟨e, mem_nodes_self e, d, hkey, hc⟩
termination_by sizeOf e
decreasing_by exact Expr.sizeOf_lt_of_mem_children hd

/-- Where an expression has a legacy form, each construct below it that has none stands below a key
of an access to a variable, and that key is not the first one. -/
theorem toLegacy_refuses (h : e.toLegacy source = .ok t) (hc : c ∈ e.nodes)
    (hunsupported : c.node.isUnsupported) : Overlooked e c :=
  (Accounted.converted h).overlooked hc hunsupported

/-- An access to a variable under two keys, `$x[1, c]`. -/
def underTwoKeys (c : Expr) : Expr :=
  .ofNode (.access (.ofNode (.unary .dollar (.ofLeaf (.name "x"))))
    [.ofLeaf (.integer 1 .decimal), c])

/-- The second key is one of the expressions of the access. -/
theorem mem_nodes_underTwoKeys (c : Expr) : c ∈ (underTwoKeys c).nodes := by
  have hchild : c ∈ (underTwoKeys c).children :=
    List.mem_cons_of_mem _ (List.mem_cons_of_mem _ List.mem_cons_self)
  exact mem_nodes_of_child hchild (mem_nodes_self c)

/-- Nothing of the second key is in the legacy form. -/
theorem toLegacy_underTwoKeys (c : Expr) : (underTwoKeys c).toLegacy none = .ok (.ofNode
    (.access (.ofLeaf (.dollar "x")) (.ofLeaf (.name (integerText 1 .decimal))))) := by
  rfl

/-- A site below the second key of an access is overlooked, and there is a legacy form. -/
theorem toLegacy_refuses_site : ∃ t, (underTwoKeys (.ofNode (.site none))).toLegacy none = .ok t ∧
    Overlooked (underTwoKeys (.ofNode (.site none))) (.ofNode (.site none)) :=
  ⟨_, toLegacy_underTwoKeys _,
    toLegacy_refuses (toLegacy_underTwoKeys _) (mem_nodes_underTwoKeys _) rfl⟩

/-- A construct without a legacy form is dropped behind the first key. -/
theorem toLegacy_drops : ¬ ∀ (e : Expr) (source : Option Source) (t : Tree),
    e.toLegacy source = .ok t → ∀ c ∈ e.nodes, c.node.isUnsupported = false := by
  intro hclaim
  have hsite := hclaim _ none _ (toLegacy_underTwoKeys (.ofNode (.site none))) _
    (mem_nodes_underTwoKeys _)
  exact nomatch hsite

end Legacy

end Manifest
