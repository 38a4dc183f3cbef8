import Manifest.Proofs.Legacy.Trail

/-!
# Queries

A query compares values and joins comparisons, with parentheses around them. The same function reads
a whole query and what a comparison compares, so that more is accepted: a value may stand for a
whole query or be joined, and a comparison may compare what is no value. Everything else is refused
as an illegal query.

* `Documented` — comparisons of two values, joined, in parentheses.
* `Misplaced` — a value where a comparison is wanted, or a comparison of something that is no value.
* `queryLeaves` — what a query is made of, from left to right.
* `failure?_toLegacyQuery` — the first leaf that is no value or has no legacy form is what fails.
* `Mirrors` — the legacy form of a query follows the query and says which tests are in parentheses.
* `toLegacyQuery_documented` — what becomes of a query, and of that of a collect expression.
-/

namespace Manifest.Legacy

open Text (Range Source)

variable {source : Option Source} {e q left right : Expr} {t u : Tree}

/-! ## What a query is made of -/

/-- A variable, a name, an integer or a string, which a query compares. -/
def isValue (e : Expr) : Bool :=
  match e.node with
  | .unary .dollar _ | .leaf (.name _) | .leaf (.string _) | .leaf (.integer _ _)
  | .items .concatenation _ => true
  | _ => false

/-- The comparisons of a query. -/
def isEquality : Manifest.BinaryOp → Bool
  | .comparison .eq | .comparison .ne => true
  | _ => false

/-- What joins comparisons. -/
def isJoin : Manifest.BinaryOp → Bool
  | .conjunction | .disjunction => true
  | _ => false

/-- Queries as documented: comparisons of two values, joined, in parentheses. -/
inductive Documented : Expr → Prop
  | comparison {q left right : Expr} {op : Manifest.BinaryOp} (hq : q.node = .binary op left right)
      (hop : isEquality op) (hleft : isValue left) (hright : isValue right) : Documented q
  | joined {q left right : Expr} {op : Manifest.BinaryOp} (hq : q.node = .binary op left right)
      (hop : isJoin op) (hleft : Documented left) (hright : Documented right) : Documented q
  | parens {q e : Expr} (hq : q.node = .unary .parens e) (he : Documented e) : Documented q

/-- A value stands where a comparison is wanted, or something that is no value is compared. -/
inductive Misplaced : Expr → Prop
  | value {q : Expr} (hq : isValue q) : Misplaced q
  | comparison {q left right : Expr} {op : Manifest.BinaryOp} (hq : q.node = .binary op left right)
      (hop : isEquality op) (hvalues : ¬ (isValue left ∧ isValue right)) : Misplaced q
  | joined {q left right part : Expr} {op : Manifest.BinaryOp}
      (hq : q.node = .binary op left right) (hop : isJoin op) (hpart : part = left ∨ part = right)
      (h : Misplaced part) : Misplaced q
  | parens {q e : Expr} (hq : q.node = .unary .parens e) (he : Misplaced e) : Misplaced q

/-- What a query is made of, from left to right: what stands below its parentheses, its comparisons
and what joins them. -/
def queryLeaves : Expr → List Expr
  | ⟨.binary op left right, range⟩ =>
      if isEquality op || isJoin op then queryLeaves left ++ queryLeaves right
      else [⟨.binary op left right, range⟩]
  | ⟨.unary .parens e, _⟩ => queryLeaves e
  | e => [e]

/-- What an illegal query is called: an operator by its symbol when it compares. -/
def queryName (e : Expr) : String :=
  match e.node with
  | .binary (.comparison op) _ _ => op.symbol
  | n => n.label

/-- Why an expression cannot be a leaf of a query. -/
def leafFailure? (source : Option Source) (e : Expr) : Option Problem :=
  if isValue e then failure? (e.toLegacy source) else some (.illegalQuery (queryName e))

/-! ## Which queries are documented -/

/-- Nothing that is joined or compared is a value. -/
theorem not_isValue_binary {op : Manifest.BinaryOp} (hq : q.node = .binary op left right) :
    isValue q = false := by
  unfold isValue
  rw [hq]

theorem not_isValue_parens (hq : q.node = .unary .parens e) : isValue q = false := by
  unfold isValue
  rw [hq]

/-- A value is one leaf. -/
theorem queryLeaves_of_isValue (h : isValue q) : queryLeaves q = [q] := by
  obtain ⟨n, range⟩ := q
  cases n with
  | binary op left right => exact absurd h (by simp [isValue])
  | unary op e =>
      cases op with
      | parens => exact absurd h (by simp [isValue])
      | _ => simp [queryLeaves]
  | _ => simp [queryLeaves]

/-- The leaves of both sides, one after the other. -/
theorem queryLeaves_binary {op : Manifest.BinaryOp} (hq : q.node = .binary op left right)
    (hop : isEquality op || isJoin op) : queryLeaves q = queryLeaves left ++ queryLeaves right := by
  obtain ⟨n, range⟩ := q
  obtain rfl : n = .binary op left right := hq
  rw [queryLeaves, if_pos hop]

theorem queryLeaves_parens (hq : q.node = .unary .parens e) : queryLeaves q = queryLeaves e := by
  obtain ⟨n, range⟩ := q
  obtain rfl : n = .unary .parens e := hq
  rw [queryLeaves]

/-- A documented query is made of values. -/
theorem Documented.leaves (h : Documented q) : ∀ l ∈ queryLeaves q, isValue l := by
  induction h with
  | comparison hq hop hleft hright =>
      rw [queryLeaves_binary hq (by rw [hop, Bool.true_or]), queryLeaves_of_isValue hleft,
        queryLeaves_of_isValue hright]
      simp [hleft, hright]
  | joined hq hop _ _ ihl ihr =>
      rw [queryLeaves_binary hq (by rw [hop, Bool.or_true])]
      exact List.forall_mem_append.2 ⟨ihl, ihr⟩
  | parens hq _ ih =>
      rw [queryLeaves_parens hq]
      exact ih

/-- A query that is made of values is documented, or else something in it is misplaced. -/
theorem documented_or_misplaced (h : ∀ l ∈ queryLeaves q, isValue l) :
    Documented q ∨ Misplaced q := by
  fun_induction queryLeaves q with
  | case1 op left right range hop ihl ihr =>
      obtain ⟨hleft, hright⟩ := List.forall_mem_append.1 h
      rcases Bool.or_eq_true _ _ ▸ hop with hop | hop
      · by_cases hvalues : isValue left ∧ isValue right
        · exact .inl (.comparison rfl hop hvalues.1 hvalues.2)
        · exact .inr (.comparison rfl hop hvalues)
      · rcases ihl hleft with hl | hl
        · rcases ihr hright with hr | hr
          · exact .inl (.joined rfl hop hl hr)
          · exact .inr (.joined rfl hop (.inr rfl) hr)
        · exact .inr (.joined rfl hop (.inl rfl) hl)
  | case2 op left right range hop => exact absurd (h _ List.mem_cons_self) (by simp [isValue])
  | case3 e range ih => exact (ih h).imp (.parens rfl) (.parens rfl)
  | case4 e _ _ => exact .inr (.value (h e List.mem_cons_self))

/-- No comparison joins. -/
theorem isJoin_of_isEquality {op : Manifest.BinaryOp} (h : isEquality op) : isJoin op = false := by
  cases op <;> simp_all [isEquality, isJoin]

/-- Nothing is misplaced in a documented query. -/
theorem Documented.not_misplaced (h : Documented q) : ¬ Misplaced q := by
  -- the node leaves one way to be misplaced, and that way leads into the parts
  induction h with
  | comparison hq hop hleft hright =>
      intro h
      cases h with
      | value hvalue => exact absurd hvalue (by simp [not_isValue_binary hq])
      | comparison hq' _ hvalues =>
          cases hq.symm.trans hq'
          exact hvalues ⟨hleft, hright⟩
      | joined hq' hjoin =>
          cases hq.symm.trans hq'
          exact absurd hjoin (by simp [isJoin_of_isEquality hop])
      | parens hq' => cases hq.symm.trans hq'
  | joined hq hop _ _ ihl ihr =>
      intro h
      cases h with
      | value hvalue => exact absurd hvalue (by simp [not_isValue_binary hq])
      | comparison hq' hequality =>
          cases hq.symm.trans hq'
          exact absurd hop (by simp [isJoin_of_isEquality hequality])
      | joined hq' _ hpart hmisplaced =>
          cases hq.symm.trans hq'
          rcases hpart with rfl | rfl
          · exact ihl hmisplaced
          · exact ihr hmisplaced
      | parens hq' => cases hq.symm.trans hq'
  | parens hq _ ih =>
      intro h
      cases h with
      | value hvalue => exact absurd hvalue (by simp [not_isValue_parens hq])
      | comparison hq' => cases hq.symm.trans hq'
      | joined hq' => cases hq.symm.trans hq'
      | parens hq' he =>
          cases hq.symm.trans hq'
          exact ih he

/-! ## What a query fails with -/

/-- A place changes nothing of the problem. -/
theorem failure?_settle (source : Option Source) (range : Option Range) (x : Except Error Tree) :
    failure? (settle source range x) = failure? x := by
  cases x with
  | ok t => rfl
  | error e => exact congrArg some (Error.problem_orAt e _)

/-- A value is converted as it is elsewhere. -/
theorem toLegacyQuery_value (h : isValue q) : q.toLegacyQuery source = q.toLegacy source := by
  obtain ⟨n, range⟩ := q
  rw [Expr.toLegacyQuery, Expr.toLegacy]
  congr 1
  cases n with
  | leaf l =>
      cases l with
      | name s => rw [Node.toLegacyQuery, Node.toLegacy]
      | string s => rw [Node.toLegacyQuery, Node.toLegacy]
      | integer value radix => rw [Node.toLegacyQuery, Node.toLegacy]
      | _ => cases h
  | unary op e =>
      cases op with
      | dollar => rw [Node.toLegacyQuery, Node.toLegacy]
      | _ => cases h
  | items sequence es =>
      cases sequence with
      | concatenation => rw [Node.toLegacyQuery, Node.toLegacy]
      | _ => cases h
  | _ => cases h

/-- An operator asks something when it compares or joins, and is illegal otherwise. -/
theorem testOp_eq (op : Manifest.BinaryOp) (left right : Expr) (range : Option Range) :
    if isEquality op || isJoin op then ∃ o, testOp op = .ok o
    else testOp op = refuse (.illegalQuery (queryName ⟨.binary op left right, range⟩)) := by
  cases op with
  | comparison op =>
      cases op with
      | eq => exact ⟨_, rfl⟩
      | ne => exact ⟨_, rfl⟩
      | _ => rfl
  | conjunction => exact ⟨_, rfl⟩
  | disjunction => exact ⟨_, rfl⟩
  | _ => rfl

/-- What compares or joins fails as its left side does, or else as its right side. -/
theorem failure?_binary {op : Manifest.BinaryOp} {range : Option Range}
    (hop : isEquality op || isJoin op) :
    failure? (Expr.toLegacyQuery source ⟨.binary op left right, range⟩) =
      (failure? (left.toLegacyQuery source)).or (failure? (right.toLegacyQuery source)) := by
  have htest := testOp_eq op left right range
  rw [if_pos hop] at htest
  obtain ⟨o, ho⟩ := htest
  rw [Expr.toLegacyQuery, failure?_settle, Node.toLegacyQuery, ho]
  cases left.toLegacyQuery source with
  | error e => rfl
  | ok l => cases right.toLegacyQuery source <;> rfl

/-- An operator that neither compares nor joins is illegal. -/
theorem failure?_illegal {op : Manifest.BinaryOp} {range : Option Range}
    (hop : ¬ (isEquality op || isJoin op)) :
    failure? (Expr.toLegacyQuery source ⟨.binary op left right, range⟩) =
      some (.illegalQuery (queryName ⟨.binary op left right, range⟩)) := by
  have htest := testOp_eq op left right range
  rw [if_neg hop] at htest
  rw [Expr.toLegacyQuery, failure?_settle, Node.toLegacyQuery, htest]
  rfl

/-- What is no value and has no parts as a query is illegal. -/
theorem failure?_other (hvalue : ¬ isValue q)
    (hbinary : ∀ op left right range, q ≠ ⟨.binary op left right, range⟩)
    (hparens : ∀ e range, q ≠ ⟨.unary .parens e, range⟩) :
    failure? (q.toLegacyQuery source) = some (.illegalQuery (queryName q)) := by
  obtain ⟨n, range⟩ := q
  rw [Expr.toLegacyQuery, failure?_settle]
  cases n with
  | leaf l =>
      cases l with
      | name s => exact absurd rfl hvalue
      | string s => exact absurd rfl hvalue
      | integer value radix => exact absurd rfl hvalue
      | _ => simp only [Node.toLegacyQuery]; rfl
  | binary op left right => exact absurd rfl (hbinary op left right range)
  | unary op e =>
      cases op with
      | parens => exact absurd rfl (hparens e range)
      | dollar => exact absurd rfl hvalue
      | _ => simp only [Node.toLegacyQuery]; rfl
  | items sequence es =>
      cases sequence with
      | concatenation => exact absurd rfl hvalue
      | _ => simp only [Node.toLegacyQuery]; rfl
  | _ => simp only [Node.toLegacyQuery]; rfl

/-- Parentheses fail as what they enclose. -/
theorem failure?_parens {range : Option Range} :
    failure? (Expr.toLegacyQuery source ⟨.unary .parens e, range⟩) =
      failure? (e.toLegacyQuery source) := by
  rw [Expr.toLegacyQuery, failure?_settle, Node.toLegacyQuery]
  cases e.toLegacyQuery source <;> rfl

/-- A query fails as the first of its leaves that is no value or that has no legacy form. -/
theorem failure?_toLegacyQuery (source : Option Source) (q : Expr) :
    failure? (q.toLegacyQuery source) = (queryLeaves q).findSome? (leafFailure? source) := by
  fun_induction queryLeaves q with
  | case1 op left right range hop ihl ihr =>
      rw [failure?_binary hop, List.findSome?_append, ihl, ihr]
  | case2 op left right range hop =>
      rw [failure?_illegal hop, List.findSome?_singleton, leafFailure?, not_isValue_binary rfl]
      rfl
  | case3 e range ih => rw [failure?_parens, ih]
  | case4 e hbinary hparens =>
      rw [List.findSome?_singleton, leafFailure?]
      split
      next hvalue => rw [toLegacyQuery_value hvalue]
      next hvalue => exact failure?_other hvalue hbinary hparens

/-! ## The legacy form of a query -/

/-- The expression stands in parentheses. -/
def isParens (e : Expr) : Bool :=
  match e.node with
  | .unary .parens _ => true
  | _ => false

/-- The expression without parentheses around it. -/
def unparens : Expr → Expr
  | ⟨.unary .parens e, _⟩ => unparens e
  | e => e

/-- The legacy form follows the query: it has the values and the tests of the query, and each test
says whether there are parentheses around it. -/
inductive Mirrors (source : Option Source) : Expr → Tree → Prop
  | value {q : Expr} {t u : Tree} (hvalue : isValue (unparens q))
      (hu : (unparens q).toLegacy source = .ok u) (ht : t.node = u.node) : Mirrors source q t
  | test {q left right : Expr} {op : Manifest.BinaryOp} {o : TestOp} {t l r : Tree}
      (hq : (unparens q).node = .binary op left right) (ho : testOp op = .ok o)
      (ht : t.node = .test o l r (isParens q)) (hleft : Mirrors source left l)
      (hright : Mirrors source right r) : Mirrors source q t

/-- The tree is a test. -/
def isTest (t : Tree) : Bool :=
  match t.node with
  | .test .. => true
  | _ => false

theorem stamp_of_settle {range : Option Range} {x : Except Error Tree}
    (h : settle source range x = .ok t) : ∃ u, x = .ok u ∧ stamp source range u = t := by
  cases x with
  | error e => cases h
  | ok u => exact ⟨u, rfl, Except.ok.inj h⟩

/-- A leaf is no test. -/
theorem isTest_ofLeaf {l : Manifest.Leaf} (h : ofLeaf l = .ok t) : isTest t = false := by
  cases l <;> cases h <;> rfl

theorem isTest_ofDollar (h : ofDollar e = .ok t) : isTest t = false := by
  unfold ofDollar at h
  split at h
  next =>
    obtain rfl := Except.ok.inj h
    rfl
  next => cases h

/-- A value is not a test. -/
theorem isTest_value (h : isValue q) (ht : q.toLegacy source = .ok t) : isTest t = false := by
  obtain ⟨n, range⟩ := q
  rw [Expr.toLegacy] at ht
  obtain ⟨u, hu, rfl⟩ := stamp_of_settle ht
  show isTest u = false
  cases n with
  | leaf l =>
      rw [Node.toLegacy] at hu
      exact isTest_ofLeaf hu
  | unary op e =>
      cases op with
      | dollar =>
          rw [Node.toLegacy] at hu
          exact isTest_ofDollar hu
      | _ => cases h
  | items sequence es =>
      rw [Node.toLegacy] at hu
      obtain ⟨vs, -, hvs⟩ := bind_ok hu
      obtain rfl := Except.ok.inj hvs
      rfl
  | _ => cases h

/-- What is no test is not marked as standing in parentheses. -/
theorem inParens_of_not_isTest (h : isTest t = false) : inParens t = t := by
  unfold isTest at h
  unfold inParens
  split
  next hnode =>
    rw [hnode] at h
    cases h
  next => rfl

/-- Parentheses are told of the test within them. -/
theorem Mirrors.parens {range : Option Range} (h : Mirrors source e t) :
    Mirrors source ⟨.unary .parens e, range⟩ (stamp source range (inParens t)) := by
  cases h with
  | @value q t u hvalue hu ht =>
      have htest : isTest t = false := by
        unfold isTest
        rw [ht]
        exact isTest_value hvalue hu
      refine .value (by rwa [unparens]) (by rwa [unparens]) ?_
      rw [inParens_of_not_isTest htest]
      exact ht
  | test hq ho ht hleft hright =>
      refine .test (by rwa [unparens]) ho ?_ hleft hright
      unfold inParens
      rw [ht]
      rfl

/-- A value stands in no parentheses. -/
theorem unparens_of_isValue (h : isValue q) : unparens q = q := by
  unfold unparens
  split
  next => cases h
  next => rfl

/-- What is read as a query has the form of the query. -/
theorem mirrors_toLegacyQuery (h : q.toLegacyQuery source = .ok t) : Mirrors source q t := by
  -- what compares or joins, another operator, parentheses, and a leaf
  fun_induction queryLeaves q generalizing t with
  | case1 op left right range hop ihl ihr =>
      rw [Expr.toLegacyQuery] at h
      obtain ⟨u, hu, rfl⟩ := stamp_of_settle h
      rw [Node.toLegacyQuery] at hu
      obtain ⟨o, ho, hu⟩ := bind_ok hu
      obtain ⟨l, hl, hu⟩ := bind_ok hu
      obtain ⟨r, hr, hu⟩ := bind_ok hu
      obtain rfl := Except.ok.inj hu
      exact .test rfl ho rfl (ihl hl) (ihr hr)
  | case2 op left right range hop =>
      have hillegal : failure? (.ok t) = _ := h ▸ failure?_illegal hop
      cases hillegal
  | case3 e range ih =>
      rw [Expr.toLegacyQuery] at h
      obtain ⟨u, hu, rfl⟩ := stamp_of_settle h
      rw [Node.toLegacyQuery] at hu
      obtain ⟨v, hv, hu⟩ := bind_ok hu
      obtain rfl := Except.ok.inj hu
      exact (ih hv).parens
  | case4 e hbinary hparens =>
      by_cases hvalue : isValue e
      · have hself := unparens_of_isValue hvalue
        rw [toLegacyQuery_value hvalue] at h
        exact .value (by rwa [hself]) (by rwa [hself]) rfl
      · have hother : failure? (.ok t) = _ := h ▸ failure?_other hvalue hbinary hparens
        cases hother

/-! ## What becomes of a query -/

/-- Leaves of which none fails are values. -/
theorem isValue_of_findSome? {es : List Expr} (h : es.findSome? (leafFailure? source) = none) :
    ∀ l ∈ es, isValue l := by
  intro l hl
  have hleaf := List.findSome?_eq_none_iff.1 h l hl
  unfold leafFailure? at hleaf
  split at hleaf
  next hvalue => exact hvalue
  next => cases hleaf

/-- Among leaves whose values have legacy forms, one that is no value is illegal. -/
theorem illegal_leaf {es : List Expr}
    (hvalues : ∀ l ∈ es, isValue l → ∃ t, l.toLegacy source = .ok t)
    (h : ¬ ∀ l ∈ es, isValue l) :
    ∃ label, es.findSome? (leafFailure? source) = some (.illegalQuery label) := by
  cases hfind : es.findSome? (leafFailure? source) with
  | none => exact absurd (isValue_of_findSome? hfind) h
  | some p =>
      obtain ⟨l, hl, hleaf⟩ := List.exists_of_findSome?_eq_some hfind
      unfold leafFailure? at hleaf
      split at hleaf
      next hvalue =>
        obtain ⟨t, ht⟩ := hvalues l hl hvalue
        rw [ht] at hleaf
        cases hleaf
      next => exact ⟨queryName l, hleaf.symm⟩

/-- What becomes of a query. -/
structure QueryOutcome (source : Option Source) (q : Expr) : Prop where
  /-- the first leaf that is no value or has no legacy form is what fails -/
  failure : failure? (q.toLegacyQuery source) = (queryLeaves q).findSome? (leafFailure? source)
  documented : Documented q ↔ (∀ l ∈ queryLeaves q, isValue l) ∧ ¬ Misplaced q
  /-- what is not documented is illegal, but not for what is misplaced alone -/
  refused : ¬ Documented q → (∀ l ∈ queryLeaves q, isValue l → ∃ t, l.toLegacy source = .ok t) →
    (∃ label position,
      q.toLegacyQuery source = .error ((Error.plain (.illegalQuery label)).orAt position)) ∨
      (∀ l ∈ queryLeaves q, isValue l) ∧ Misplaced q
  mirrored : ∀ t, q.toLegacyQuery source = .ok t → Mirrors source q t
  test : ∀ t, q.toLegacyQuery source = .ok t → Documented q → isTest t

theorem unparens_eq_parens (hq : q.node = .unary .parens e) : unparens q = unparens e := by
  obtain ⟨n, range⟩ := q
  obtain rfl : n = .unary .parens e := hq
  rw [unparens]

theorem unparens_binary {op : Manifest.BinaryOp} (hq : q.node = .binary op left right) :
    unparens q = q := by
  obtain ⟨n, range⟩ := q
  obtain rfl : n = .binary op left right := hq
  simp [unparens]

/-- Within its parentheses a documented query compares or joins. -/
theorem Documented.unparens (h : Documented q) : isValue (unparens q) = false := by
  induction h with
  | comparison hq => rw [unparens_binary hq, not_isValue_binary hq]
  | joined hq => rw [unparens_binary hq, not_isValue_binary hq]
  | parens hq _ ih => rw [unparens_eq_parens hq, ih]

/-- Everything that becomes of a query. -/
theorem queryOutcome (source : Option Source) (q : Expr) : QueryOutcome source q where
  failure := failure?_toLegacyQuery source q
  documented := by
    constructor
    · intro h
      exact ⟨h.leaves, h.not_misplaced⟩
    · rintro ⟨hleaves, hplaced⟩
      exact (documented_or_misplaced hleaves).resolve_right hplaced
  refused := by
    intro hq hvalues
    by_cases hleaves : ∀ l ∈ queryLeaves q, isValue l
    · exact .inr ⟨hleaves, (documented_or_misplaced hleaves).resolve_left hq⟩
    · obtain ⟨label, hlabel⟩ := illegal_leaf hvalues hleaves
      rw [← failure?_toLegacyQuery] at hlabel
      cases hresult : q.toLegacyQuery source with
      | ok t =>
          rw [hresult] at hlabel
          cases hlabel
      | error err =>
          obtain ⟨p, position, rfl⟩ :=
            convert_eq_orAt (show convert .query source q = _ from hresult)
          rw [hresult, failure?, Error.problem_orAt] at hlabel
          obtain rfl := Option.some.inj hlabel
          exact .inl ⟨label, position, rfl⟩
  mirrored := fun t => mirrors_toLegacyQuery
  test := by
    intro t ht hq
    cases mirrors_toLegacyQuery ht with
    | value hvalue =>
        rw [hq.unparens] at hvalue
        cases hvalue
    | test _ _ hnode =>
        unfold isTest
        rw [hnode]

/-- The query of a collect expression has a legacy form, unless there is nothing to ask. -/
theorem queryLegacy_cases {query : Query Expr} {asked : Option Tree}
    (h : queryLegacy source query = .ok asked) :
    asked = none ∧ (∀ q, query.expr = some q → q.isNop) ∨
      ∃ q u, query.expr = some q ∧ asked = some u ∧ q.toLegacyQuery source = .ok u := by
  obtain ⟨kind, expr, range⟩ := query
  cases expr with
  | none =>
      rw [queryLegacy] at h
      obtain rfl := Except.ok.inj h
      refine .inl ⟨rfl, ?_⟩
      intro q hq
      cases hq
  | some q =>
      rw [queryLegacy] at h
      split at h
      next hnop =>
        obtain rfl := Except.ok.inj h
        exact .inl ⟨rfl, fun q' hq => Option.some.inj hq ▸ hnop⟩
      next =>
        obtain ⟨u, hu, hasked⟩ := bind_ok h
        obtain rfl := Except.ok.inj hasked
        exact .inr ⟨q, u, rfl, rfl, hu⟩

/-- A query has a legacy form when it is made of values that have one. Its legacy form follows it
and tells the tests that stand in parentheses. It is documented unless something is misplaced in it.
What a converted collect expression asks is nothing or the legacy form of its query. -/
theorem toLegacyQuery_documented (source : Option Source) :
    (∀ q, QueryOutcome source q) ∧
    (∀ type query operations range t,
      (⟨.collect type query operations, range⟩ : Expr).toLegacy source = .ok t →
      ∃ name asked settings, t.node = .collection name query.kind asked settings ∧
        (asked = none ∧ (∀ q, query.expr = some q → q.isNop) ∨
          ∃ q u, query.expr = some q ∧ asked = some u ∧ Mirrors source q u ∧
            (Documented q ∧ isTest u ∨ Misplaced q))) := by
  refine ⟨queryOutcome source, ?_⟩
  intro type query operations range t h
  rw [Expr.toLegacy] at h
  obtain ⟨u, hu, rfl⟩ := stamp_of_settle h
  rw [Node.toLegacy] at hu
  split at hu
  next name hname =>
    obtain ⟨asked, hasked, hu⟩ := bind_ok hu
    obtain ⟨settings, -, hu⟩ := bind_ok hu
    obtain rfl := Except.ok.inj hu
    refine ⟨name, asked, settings, rfl, ?_⟩
    rcases queryLegacy_cases hasked with hnone | ⟨q, v, hq, hv, hquery⟩
    · exact .inl hnone
    · have houtcome := queryOutcome source q
      refine .inr ⟨q, v, hq, hv, houtcome.mirrored v hquery, ?_⟩
      by_cases hdocumented : Documented q
      · exact .inl ⟨hdocumented, houtcome.test v hquery hdocumented⟩
      · have hfailure := houtcome.failure
        rw [hquery] at hfailure
        have hvalues := isValue_of_findSome? hfailure.symm
        exact .inr ((documented_or_misplaced hvalues).resolve_left hdocumented)
  next => cases hu

/-- The query `(title == 'a')`. -/
def titleQuery : Expr :=
  .ofNode (.unary .parens (.ofNode
    (.binary (.comparison .eq) (.ofLeaf (.name "title")) (.ofLeaf (.string "a")))))

/-- A query for one title. -/
theorem toLegacyQuery_documented_title : Documented titleQuery ∧
    ∃ t, titleQuery.toLegacyQuery none = .ok t ∧ Mirrors none titleQuery t ∧ isTest t := by
  have hdocumented : Documented titleQuery := .parens rfl (.comparison rfl rfl rfl rfl)
  have houtcome := (toLegacyQuery_documented none).1 titleQuery
  exact ⟨hdocumented, _, rfl, houtcome.mirrored _ rfl, houtcome.test _ rfl hdocumented⟩

/-- The query `$x`. -/
def loneVariable : Expr := .ofNode (.unary .dollar (.ofLeaf (.name "x")))

/-- A value on its own is accepted as a query. -/
theorem toLegacyQuery_lone : ¬ ∀ (q : Expr) (source : Option Source) (t : Tree),
    q.toLegacyQuery source = .ok t → Documented q := by
  intro hclaim
  cases hclaim loneVariable none _ rfl with
  | comparison hq => cases hq
  | joined hq => cases hq
  | parens hq => cases hq

end Manifest.Legacy
