import Mathlib.Data.List.Forall2
import Manifest.Build.Call

/-!
# Calls among statements

A row of items is read from left to right. A name that begins a statement call takes the item that
follows it, whatever that is, and the name `import` may not be followed by anything; any other item
is a statement. The program goes about it the other way round: each item that comes up is given to
the statement before it, if that is such a name.

* `IsCallName`, `IsImport` — the names that begin a statement call, and the one that is refused.
* `Group` — a statement, or a call with what it takes; `Settles` — how items are grouped, up to some
  item; `Grouped` — how a whole row is.
* `Offence` — what is wrong with the next item: a list that nothing takes, or a refused name.
* `Settles.run` — the program goes through the items of groups and makes the groups of them.
* `settles_cases` — grouping goes on until the row ends or an item is wrong.
* `Faithful` — the groups have all items in their order, and values are needed of arguments alone.
* `statementCalls_groups` — the statements that items make up.
-/

namespace Manifest.Build

open Text (Source place)

variable {source : Option Source} {item next : Material} {items rest args : List Material}
  {e f : Expr} {es done : List Expr} {name : String} {err : Error}

/-! ## Groups of items -/

/-- A statement, or a call of a name with arguments. -/
inductive Group
  | statement (e : Expr)
  | call (functor : Expr) (args : List Expr)

/-- The statement that a group makes up. -/
def Group.result : Group → Expr
  | .statement e => withValueRequired false e
  | .call functor args => statementCall functor args

variable {gs front back : List Group}

/-- The expression is the name of a function that may be called as a statement. -/
def IsCallName (e : Expr) : Prop :=
  ∃ name ∈ ["include", "require", "realize", "contain", "tag", "debug", "info", "notice", "warning",
    "err", "fail"], e.node = .leaf (.name name)

/-- The expression is the name `import`, which looks like a statement call and is refused. -/
def IsImport (e : Expr) : Prop := e.node = .leaf (.name "import")

/-- The item is no list of arguments, and stands for the expression. -/
structure IsStatement (item : Material) (e : Expr) : Prop where
  noList : ∀ args, item ≠ .list args
  toExpr : item.toExpr = .ok e

/-- The items up to `rest` make up groups: a name that begins a statement call takes the next item,
and what is neither such a name nor `import` is a statement. -/
inductive Settles : List Material → List Group → List Material → Prop
  | done (items : List Material) : Settles items [] items
  | statement {item : Material} {e : Expr} {items rest : List Material} {gs : List Group}
      (hitem : IsStatement item e) (hcall : ¬ IsCallName e) (himport : ¬ IsImport e)
      (hrest : Settles items gs rest) : Settles (item :: items) (.statement e :: gs) rest
  | call {item next : Material} {f : Expr} {args : List Expr} {items rest : List Material}
      {gs : List Group} (hitem : IsStatement item f) (hname : IsCallName f)
      (hargs : next.spread = .ok args) (hrest : Settles items gs rest) :
      Settles (item :: next :: items) (.call f args :: gs) rest

/-- A row ends, or ends with a name that nothing follows. -/
inductive Closing : List Material → List Group → Prop
  | nothing : Closing [] []
  | name {item : Material} {e : Expr} (hitem : IsStatement item e)
      (hname : IsCallName e ∨ IsImport e) : Closing [item] [.statement e]

/-- The items make up the groups. -/
def Grouped (items : List Material) (gs : List Group) : Prop :=
  ∃ front rest back, Settles items front rest ∧ Closing rest back ∧ gs = front ++ back

/-- What is wrong with the next item: it is a list, and the statement before it, if there is one,
takes no arguments; or it is the name `import`, and something follows it. -/
inductive Offence (source : Option Source) (last : Option Expr) : List Material → Error → Prop
  | arguments (args items : List Material) : Offence source last (.list args :: items)
      ⟨.argumentsWithoutCall (last.bind Expr.nameText?), place source (last.bind Expr.range)⟩
  | refused {item next : Material} {e : Expr} {items : List Material} (hitem : IsStatement item e)
      (himport : IsImport e) :
      Offence source last (item :: next :: items) ⟨.unsupported "import", place source e.range⟩

/-- The next item, or what it would take, stands for no expression. -/
inductive Unconverted : List Material → Error → Prop
  | statement {item : Material} {items : List Material} {err : Error}
      (hitem : ∀ args, item ≠ .list args) (herr : item.toExpr = .error err) :
      Unconverted (item :: items) err
  | arguments {item next : Material} {f : Expr} {items : List Material} {err : Error}
      (hitem : IsStatement item f) (hname : IsCallName f) (herr : next.spread = .error err) :
      Unconverted (item :: next :: items) err

/-! ## The names in the tables -/

/-- A name is looked up in both tables. -/
theorem statementCallName?_eq_some_iff : statementCallName? e = some name ↔
    e.node = .leaf (.name name) ∧ (name ∈ statementCallNames ∨ name ∈ refusedCallNames) := by
  unfold statementCallName?
  constructor
  · intro h
    split at h
    next s hnode =>
      split at h
      next hmem =>
        obtain rfl := Option.some.inj h
        rw [Bool.or_eq_true, List.contains_iff_mem, List.contains_iff_mem] at hmem
        exact ⟨hnode, hmem⟩
      next => exact nomatch h
    next => exact nomatch h
  · rintro ⟨hnode, hmem⟩
    rw [hnode]
    refine if_pos ?_
    rw [Bool.or_eq_true, List.contains_iff_mem, List.contains_iff_mem]
    exact hmem

/-- The names that begin a statement call are those that are looked up and not refused. -/
theorem isCallName_iff :
    IsCallName e ↔ ∃ name, statementCallName? e = some name ∧ name ∉ refusedCallNames := by
  simp only [statementCallName?_eq_some_iff]
  constructor
  · rintro ⟨name, hname, hnode⟩
    have hallowed : ∀ name ∈ statementCallNames, name ∉ refusedCallNames := by
      decide +kernel
    exact ⟨name, ⟨hnode, .inl hname⟩, hallowed name hname⟩
  · rintro ⟨name, ⟨hnode, hname⟩, hallowed⟩
    exact ⟨name, hname.resolve_right hallowed, hnode⟩

/-- The refused name is `import`. -/
theorem isImport_iff :
    IsImport e ↔ ∃ name, statementCallName? e = some name ∧ name ∈ refusedCallNames := by
  simp only [statementCallName?_eq_some_iff]
  constructor
  · intro hnode
    exact ⟨"import", ⟨hnode, .inr List.mem_cons_self⟩, List.mem_cons_self⟩
  · rintro ⟨name, ⟨hnode, -⟩, hrefused⟩
    obtain rfl := List.mem_singleton.1 hrefused
    exact hnode

/-- The word `import` is found among the names of statements. -/
theorem statementCallName?_eq_import (h : IsImport e) : statementCallName? e = some "import" :=
  statementCallName?_eq_some_iff.2 ⟨h, .inr List.mem_cons_self⟩

/-- Nothing is found for what is neither such a name nor that word. -/
theorem statementCallName?_eq_none (hcall : ¬ IsCallName e) (himport : ¬ IsImport e) :
    statementCallName? e = none := by
  rw [Option.eq_none_iff_forall_ne_some]
  intro name hname
  by_cases hrefused : name ∈ refusedCallNames
  · exact himport (isImport_iff.2 ⟨name, hname, hrefused⟩)
  · exact hcall (isCallName_iff.2 ⟨name, hname, hrefused⟩)

/-- Such a name is looked up. -/
theorem exists_statementCallName? (h : IsCallName e ∨ IsImport e) :
    ∃ name, statementCallName? e = some name := by
  rcases h with h | h
  · exact (isCallName_iff.1 h).imp fun _ => And.left
  · exact ⟨_, statementCallName?_eq_import h⟩

/-! ## One item more -/

/-- The latest statement takes no arguments. -/
def Settled (done : List Expr) : Prop := done.head?.bind statementCallName? = none

/-- There is nothing yet that could take a list. -/
theorem settled_nil : Settled [] := rfl

/-- Whether a value is needed does not change what an expression is called. -/
theorem statementCallName?_withValueRequired (v : Bool) (e : Expr) :
    statementCallName? (withValueRequired v e) = statementCallName? e := by
  unfold withValueRequired
  split
  next hnode =>
    unfold statementCallName?
    rw [hnode]
  next => rfl

/-- A name stays as it is. -/
theorem withValueRequired_name (v : Bool) (h : statementCallName? e = some name) :
    withValueRequired v e = e := by
  unfold withValueRequired
  rw [(statementCallName?_eq_some_iff.1 h).1]

/-- An item that is no list is a statement after statements that take no arguments. -/
theorem addStatement_statement (hdone : Settled done) (hitem : ∀ args, item ≠ .list args) :
    addStatement source done item = item.toExpr.map fun e => withValueRequired false e :: done := by
  unfold addStatement
  split
  next name functor done' hname =>
    rw [hdone] at hname
    exact nomatch hname
  next =>
    split
    next args => exact absurd rfl (hitem args)
    next => rfl

/-- A list that nothing takes is refused. -/
theorem addStatement_arguments (hdone : Settled done) :
    addStatement source done (.list args) = .error
      ⟨.argumentsWithoutCall (done.head?.bind Expr.nameText?),
        place source (done.head?.bind Expr.range)⟩ := by
  unfold addStatement
  split
  next name functor done' hname =>
    rw [hdone] at hname
    exact nomatch hname
  next => rfl

/-- A name that begins a statement call takes what comes next. -/
theorem addStatement_call (hcall : IsCallName f) :
    addStatement source (f :: done) item =
      item.spread.map fun args => statementCall f args :: done := by
  obtain ⟨name, hname, hallowed⟩ := isCallName_iff.1 hcall
  unfold addStatement
  have hname' : (f :: done).head?.bind statementCallName? = some name := hname
  rw [hname']
  simp [hallowed]

/-- The name `import` takes nothing. -/
theorem addStatement_import (himport : IsImport f) :
    addStatement source (f :: done) item =
      .error ⟨.unsupported "import", place source f.range⟩ := by
  unfold addStatement
  have hname : (f :: done).head?.bind statementCallName? = some "import" :=
    statementCallName?_eq_import himport
  rw [hname]
  rfl

/-- Behind a statement that is no name, nothing takes a list. -/
theorem settled_statement (hcall : ¬ IsCallName e) (himport : ¬ IsImport e) :
    Settled (withValueRequired false e :: done) := by
  show statementCallName? (withValueRequired false e) = none
  rw [statementCallName?_withValueRequired, statementCallName?_eq_none hcall himport]

theorem record_node (start stop : Option Text.Range) (e : Expr) :
    (record start stop e).node = e.node := by
  unfold record
  split
  next =>
    unfold restamp
    split
    next => rfl
    next => rfl
  next => rfl

theorem statementCall_node (functor : Expr) (es : List Expr) :
    (statementCall functor es).node =
      .call .named false functor (es.map (withValueRequired true)) none :=
  record_node _ _ _

/-- Once a name has arguments, it takes no more. -/
theorem settled_statementCall (functor : Expr) (es : List Expr) :
    Settled (statementCall functor es :: done) := by
  show statementCallName? (statementCall functor es) = none
  unfold statementCallName?
  rw [statementCall_node]

/-! ## A row of items -/

/-- An item that can be added gives the statements for those behind it. -/
theorem addStatements_ok {done' : List Expr} (items : List Material)
    (h : addStatement source done item = .ok done') :
    addStatements source done (item :: items) = addStatements source done' items := by
  rw [addStatements, h]

/-- An item that cannot be added ends the run. -/
theorem addStatements_error (items : List Material)
    (h : addStatement source done item = .error err) :
    addStatements source done (item :: items) = .error err := by
  rw [addStatements, h]

/-- A statement is added behind the others. -/
theorem IsStatement.add (hitem : IsStatement item e) (hdone : Settled done) :
    addStatement source done item = .ok (withValueRequired false e :: done) := by
  rw [addStatement_statement hdone hitem.noList, hitem.toExpr]
  rfl

/-- A name is added as it stands. -/
theorem IsStatement.add_name (hitem : IsStatement item e) (h : IsCallName e ∨ IsImport e)
    (hdone : Settled done) : addStatement source done item = .ok (e :: done) := by
  obtain ⟨name, hname⟩ := exists_statementCallName? h
  rw [hitem.add hdone, withValueRequired_name false hname]

/-- The items of groups become the groups, the latest first. -/
theorem Settles.run (source : Option Source) (h : Settles items gs rest) (hdone : Settled done) :
    addStatements source done items =
        addStatements source ((gs.map Group.result).reverse ++ done) rest ∧
      Settled ((gs.map Group.result).reverse ++ done) := by
  induction h generalizing done with
  | done items => exact ⟨rfl, hdone⟩
  | @statement item e items rest gs hitem hcall himport hrest ih =>
      rw [addStatements_ok items (hitem.add hdone)]
      simpa [Group.result] using ih (settled_statement hcall himport)
  | @call item next f es items rest gs hitem hname hargs hrest ih =>
      -- the name is a statement at first, and the next item makes it a call
      have hcall : addStatement source (f :: done) next = .ok (statementCall f es :: done) := by
        rw [addStatement_call hname, hargs]
        rfl
      rw [addStatements_ok _ (hitem.add_name (.inl hname) hdone), addStatements_ok items hcall]
      simpa [Group.result] using ih (settled_statementCall f es)

/-- Items in which nothing is called become statements one by one. -/
theorem Closing.run (h : Closing rest back) (hdone : Settled done) :
    addStatements source done rest = .ok ((back.map Group.result).reverse ++ done) := by
  cases h with
  | nothing => rfl
  | name hitem hname =>
      rw [addStatements_ok [] (hitem.add hdone)]
      rfl

/-- An offence is the error of the run. -/
theorem Offence.run (h : Offence source done.head? rest err) (hdone : Settled done) :
    addStatements source done rest = .error err := by
  cases h with
  | arguments args items => exact addStatements_error items (addStatement_arguments hdone)
  | refused hitem himport =>
      rw [addStatements_ok _ (hitem.add_name (.inr himport) hdone)]
      exact addStatements_error _ (addStatement_import himport)

/-- An item that stands for no expression fails with its own error. -/
theorem Unconverted.run (h : Unconverted rest err) (hdone : Settled done) :
    addStatements source done rest = .error err := by
  cases h with
  | statement hitem herr =>
      refine addStatements_error _ ?_
      rw [addStatement_statement hdone hitem, herr]
      rfl
  | arguments hitem hname herr =>
      rw [addStatements_ok _ (hitem.add_name (.inl hname) hdone)]
      refine addStatements_error _ ?_
      rw [addStatement_call hname, herr]
      rfl

/-- Grouped items become the results of their groups. -/
theorem Grouped.run (h : Grouped items gs) :
    statementCalls source items = .ok (gs.map Group.result) := by
  obtain ⟨front, rest, back, hsettles, hclosing, rfl⟩ := h
  have hfront := hsettles.run source settled_nil
  rw [statementCalls, hfront.1, hclosing.run hfront.2]
  simp [Except.map]

/-- A row fails with what is wrong with the item behind the groups. -/
theorem Settles.fails (h : Settles items gs rest)
    (hrest : Offence source (gs.map Group.result).getLast? rest err ∨ Unconverted rest err) :
    statementCalls source items = .error err := by
  have hfront := h.run source settled_nil
  have hlast : ((gs.map Group.result).reverse ++ []).head? = (gs.map Group.result).getLast? := by
    rw [List.append_nil, List.head?_reverse]
  have hrun : addStatements source ((gs.map Group.result).reverse ++ []) rest = .error err := by
    rcases hrest with hoffence | hunconverted
    · exact Offence.run (hlast ▸ hoffence) hfront.2
    · exact hunconverted.run hfront.2
  rw [statementCalls, hfront.1, hrun]
  rfl

/-- The expression of an item that is no list is all that it is spread to. -/
theorem spread_eq (hitem : ∀ args, item ≠ .list args) : item.spread = item.toExpr.map ([·]) := by
  cases item with
  | list args => exact absurd rfl (hitem args)
  | _ => rfl

/-- The expressions of a group, as they were given. -/
def Group.given : Group → List Expr
  | .statement e => [e]
  | .call functor args => functor :: args

/-- The name of a call and its arguments. -/
def callParts (e : Expr) : List Expr :=
  match e.node with
  | .call .named _ functor args _ => functor :: args
  | _ => [e]

/-- The statement of a group, where a call that was formed is replaced by its name and its
arguments. -/
def Group.opened : Group → List Expr
  | .statement e => [Group.result (.statement e)]
  | .call functor args => callParts (Group.result (.call functor args))

/-- If the expression is a call of a name, this says whether its value is needed. -/
def Needs (valueRequired : Bool) (e : Expr) : Prop :=
  ∀ v functor args block, e.node = .call .named v functor args block → v = valueRequired

/-- The expressions are the same, but for what is said of a call of a name about the need of its
value. -/
inductive SameButNeeds : Expr → Expr → Prop
  | same (e : Expr) : SameButNeeds e e
  | call (v w : Bool) (functor args block range) :
      SameButNeeds ⟨.call .named v functor args block, range⟩
        ⟨.call .named w functor args block, range⟩

/-- Each item is spread to its expressions. -/
def Spread (items : List Material) (parts : List (List Expr)) : Prop :=
  List.Forall₂ (fun item es => Material.spread item = .ok es) items parts

/-- Groups have the expressions of all items in their order, and of calls by name the values are
needed among the arguments of calls that were formed, and not of statements. -/
structure Faithful (items : List Material) (gs : List Group) : Prop where
  all : ∃ parts, Spread items parts ∧
    List.Forall₂ SameButNeeds (gs.flatMap Group.opened) parts.flatten
  statements : ∀ g ∈ gs, Needs false g.result
  args : ∀ functor args, .call functor args ∈ gs →
    ∀ a ∈ (callParts (statementCall functor args)).tail, Needs true a

/-- A statement is spread into itself. -/
theorem IsStatement.spread (h : IsStatement item e) : item.spread = .ok [e] := by
  rw [spread_eq h.noList, h.toExpr]
  rfl

/-- Groups are given what their items are spread to. -/
theorem Settles.given {parts : List (List Expr)} (h : Settles items gs rest)
    (hrest : Spread rest parts) :
    ∃ front, Spread items (front ++ parts) ∧ front.flatten = gs.flatMap Group.given := by
  induction h with
  | done items => exact ⟨[], hrest, rfl⟩
  | @statement item e items rest gs hitem _ _ _ ih =>
      obtain ⟨front, hspread, hflatten⟩ := ih hrest
      refine ⟨[e] :: front, .cons hitem.spread hspread, ?_⟩
      rw [List.flatten_cons, hflatten, List.flatMap_cons, Group.given]
  | @call item next f es items rest gs hitem _ hargs _ ih =>
      obtain ⟨front, hspread, hflatten⟩ := ih hrest
      refine ⟨[f] :: es :: front, .cons hitem.spread (.cons hargs hspread), ?_⟩
      rw [List.flatten_cons, List.flatten_cons, hflatten, List.flatMap_cons, Group.given]
      rfl

/-- The last items are spread into what their groups are given. -/
theorem Closing.given (h : Closing rest back) :
    ∃ parts, Spread rest parts ∧ parts.flatten = back.flatMap Group.given := by
  cases h with
  | nothing => exact ⟨[], .nil, rfl⟩
  | @name item e hitem _ => exact ⟨[[e]], .cons hitem.spread .nil, rfl⟩

end Manifest.Build
