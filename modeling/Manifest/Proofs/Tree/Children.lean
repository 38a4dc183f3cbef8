import Manifest.Tree.Walk
import Mathlib.Data.Set.Function

/-!
# A node is its head and its children

The list of a node's children leaves out no sub-expression, and holds none of them twice: nodes with
one head are told apart by their children alone, and any other children can stand in their places.

* `Fillable` — what is made up of a head and children in this way.
* `Fillable.prod`, `Fillable.list`, `Fillable.maybe` — how such things are put together.
* `Node.filled` — nodes are.
-/

namespace Manifest

variable {α β γ δ ε : Type}

/-- A thing is told from others with the same head by its children, and there is one for any
children of that number. -/
structure Fillable (head : α → γ) (children : α → List ε) : Prop where
  length_eq : ∀ {a b}, head a = head b → (children a).length = (children b).length
  ext : ∀ {a b}, head a = head b → children a = children b → a = b
  exists_fill : ∀ a {cs : List ε}, cs.length = (children a).length →
    ∃ b, head b = head a ∧ children b = cs

namespace Fillable

variable {head : α → γ} {children : α → List ε} {head' : β → δ} {children' : β → List ε}

/-- An expression is its own child. -/
theorem single : Fillable (fun _ : ε => ()) (fun e => [e]) where
  length_eq _ := rfl
  ext _ h := List.singleton_inj.1 h
  exists_fill _ _ h := by
    obtain ⟨c, rfl⟩ := List.length_eq_one_iff.1 h
    exact ⟨c, rfl, rfl⟩

/-- What holds no expression is its own head. -/
theorem data : Fillable (id : α → α) (fun _ => ([] : List ε)) where
  length_eq _ := rfl
  ext h _ := h
  exists_fill a _ h := ⟨a, rfl, (List.length_eq_zero_iff.1 h).symm⟩

/-- Two things one after the other. -/
theorem prod (h : Fillable head children) (h' : Fillable head' children') :
    Fillable (Prod.map head head') (fun p => children p.1 ++ children' p.2) where
  length_eq heq := by
    obtain ⟨hfst, hsnd⟩ := Prod.mk.inj heq
    rw [List.length_append, List.length_append, h.length_eq hfst, h'.length_eq hsnd]
  ext heq hchildren := by
    obtain ⟨hfst, hsnd⟩ := Prod.mk.inj heq
    obtain ⟨hleft, hright⟩ := List.append_inj hchildren (h.length_eq hfst)
    exact Prod.ext (h.ext hfst hleft) (h'.ext hsnd hright)
  exists_fill p cs hlength := by
    rw [List.length_append] at hlength
    have htake : (cs.take (children p.1).length).length = (children p.1).length := by
      rw [List.length_take]
      omega
    have hdrop : (cs.drop (children p.1).length).length = (children' p.2).length := by
      rw [List.length_drop]
      omega
    obtain ⟨a, ha, hleft⟩ := h.exists_fill p.1 htake
    obtain ⟨b, hb, hright⟩ := h'.exists_fill p.2 hdrop
    refine ⟨(a, b), Prod.ext ha hb, ?_⟩
    show children a ++ children' b = cs
    rw [hleft, hright, List.take_append_drop]

/-- Some things in a row. -/
theorem list (h : Fillable head children) : Fillable (List.map head) (List.flatMap children) where
  length_eq {as bs} heq := by
    induction as generalizing bs with
    | nil =>
        obtain rfl := List.map_eq_nil_iff.1 heq.symm
        rfl
    | cons a as ih =>
        obtain ⟨b, bs, rfl, hb, hbs⟩ := List.map_eq_cons_iff.1 heq.symm
        rw [List.flatMap_cons, List.flatMap_cons, List.length_append, List.length_append,
          h.length_eq hb, ih hbs.symm]
  ext {as bs} heq hchildren := by
    induction as generalizing bs with
    | nil => exact (List.map_eq_nil_iff.1 heq.symm).symm
    | cons a as ih =>
        obtain ⟨b, bs, rfl, hb, hbs⟩ := List.map_eq_cons_iff.1 heq.symm
        obtain ⟨hleft, hright⟩ := List.append_inj hchildren (h.length_eq hb.symm)
        rw [h.ext hb.symm hleft, ih hbs.symm hright]
  exists_fill as cs hlength := by
    induction as generalizing cs with
    | nil => exact ⟨[], rfl, (List.length_eq_zero_iff.1 hlength).symm⟩
    | cons a as ih =>
        rw [List.flatMap_cons, List.length_append] at hlength
        have htake : (cs.take (children a).length).length = (children a).length := by
          rw [List.length_take]
          omega
        have hdrop : (cs.drop (children a).length).length = (as.flatMap children).length := by
          rw [List.length_drop]
          omega
        obtain ⟨b, hb, hleft⟩ := h.exists_fill a htake
        obtain ⟨bs, hbs, hright⟩ := ih _ hdrop
        refine ⟨b :: bs, congrArg₂ List.cons hb hbs, ?_⟩
        rw [List.flatMap_cons, hleft, hright, List.take_append_drop]

/-- Expressions in a row. -/
theorem each : Fillable (List.map fun _ : ε => ()) (fun es => es) where
  length_eq heq := by simpa using congrArg List.length heq
  ext _ h := h
  exists_fill es cs hlength := by
    refine ⟨cs, ?_, rfl⟩
    rw [List.map_const', List.map_const', hlength]

/-- An expression that may be missing. -/
theorem maybe : Fillable (Option.map fun _ : ε => ()) Option.toList where
  length_eq {a b} heq := by cases a <;> cases b <;> simp_all
  ext {a b} heq h := by cases a <;> cases b <;> simp_all
  exists_fill o cs hlength := by
    cases o with
    | none => exact ⟨none, rfl, (List.length_eq_zero_iff.1 hlength).symm⟩
    | some e =>
        obtain ⟨c, rfl⟩ := List.length_eq_one_iff.1 hlength
        exact ⟨some c, rfl, rfl⟩

/-- A record of data and of a thing with children. -/
theorem of_equiv {κ : Type} (h : Fillable head children) (f : β ≃ κ × α)
    (hhead : ∀ a b, head' a = head' b ↔ (f a).1 = (f b).1 ∧ head (f a).2 = head (f b).2)
    (hchildren : ∀ b, children' b = children (f b).2) : Fillable head' children' where
  length_eq {a b} heq := by
    rw [hchildren, hchildren]
    exact h.length_eq ((hhead a b).1 heq).2
  ext {a b} heq hcs := by
    rw [hchildren, hchildren] at hcs
    obtain ⟨hdata, hthing⟩ := (hhead a b).1 heq
    exact f.injective (Prod.ext hdata (h.ext hthing hcs))
  exists_fill b cs hlength := by
    rw [hchildren] at hlength
    obtain ⟨a, ha, hcs⟩ := h.exists_fill (f b).2 hlength
    refine ⟨f.symm ((f b).1, a), ?_, ?_⟩
    · rw [hhead, Equiv.apply_symm_apply]
      exact ⟨rfl, ha⟩
    · rw [hchildren, Equiv.apply_symm_apply, hcs]

end Fillable

/-! ## Parts -/

/-- An entry has a key and a value. -/
theorem Entry.fillable : Fillable (Entry.map fun _ : ε => ()) Entry.children :=
  (Fillable.single.prod .single).of_equiv
    ⟨fun e => (e.range, e.key, e.value), fun p => ⟨p.2.1, p.2.2, p.1⟩, fun _ => rfl, fun _ => rfl⟩
    (fun a b => by simp [Entry.map]) fun _ => rfl

/-- An option has its values and maybe a body. -/
theorem CaseOption.fillable : Fillable (CaseOption.map fun _ : ε => ()) CaseOption.children :=
  (Fillable.each.prod .single).of_equiv
    ⟨fun o => (o.range, o.values, o.body), fun p => ⟨p.2.1, p.2.2, p.1⟩, fun _ => rfl, fun _ => rfl⟩
    (fun a b => by simp [CaseOption.map, Prod.map, and_comm]) fun _ => rfl

/-- A parameter may have a type and a default. -/
theorem Parameter.fillable : Fillable (Parameter.map fun _ : ε => ()) Parameter.children :=
  (Fillable.maybe.prod .maybe).of_equiv
    ⟨fun p => ((p.name, p.capturesRest, p.range), p.type, p.value),
      fun q => ⟨q.1.1, q.2.2, q.2.1, q.1.2.1, q.1.2.2⟩, fun _ => rfl, fun _ => rfl⟩
    (fun a b => by simp [Parameter.map, Prod.map]; tauto) fun _ => rfl

/-- An operation has a value. -/
theorem Operation.fillable :
    Fillable (Operation.map fun _ : ε => ()) (fun o => [Operation.value o]) where
  length_eq _ := rfl
  ext {a b} heq h := by cases a <;> cases b <;> simp_all [Operation.map, Operation.value]
  exists_fill o _ hlength := by
    obtain ⟨c, rfl⟩ := List.length_eq_one_iff.1 hlength
    cases o with
    | «attribute» name op value range => exact ⟨.attribute name op c range, rfl, rfl⟩
    | attributes values range => exact ⟨.attributes c range, rfl, rfl⟩

theorem Operation.fillable_list :
    Fillable (List.map (Operation.map fun _ : ε => ())) (List.map Operation.value) := by
  have hchildren : List.map Operation.value = List.flatMap fun o : Operation ε => [o.value] :=
    funext fun os => List.map_eq_flatMap
  rw [hchildren]
  exact Operation.fillable.list

/-- A body has a title and operations. -/
theorem ResourceBody.fillable :
    Fillable (ResourceBody.map fun _ : ε => ()) ResourceBody.children :=
  (Fillable.maybe.prod Operation.fillable_list).of_equiv
    ⟨fun b => (b.range, b.title, b.operations), fun p => ⟨p.2.1, p.2.2, p.1⟩, fun _ => rfl,
      fun _ => rfl⟩
    (fun a b => by simp [ResourceBody.map, Prod.map]; tauto) fun _ => rfl

/-- A query may have a condition. -/
theorem Query.fillable : Fillable (Query.map fun _ : ε => ()) (fun q => q.expr.toList) :=
  Fillable.maybe.of_equiv
    ⟨fun q => ((q.kind, q.range), q.expr), fun p => ⟨p.1.1, p.2, p.1.2⟩, fun _ => rfl, fun _ => rfl⟩
    (fun a b => by simp [Query.map]; tauto) fun _ => rfl

/-! ## Nodes -/

/-- Nodes with one head are told apart by their lists of children, and every list of that length is
the list of such a node. -/
def Node.Filled (n : Node ε) : Prop :=
  Set.BijOn Node.children {m : Node ε | m.head = n.head} {cs | cs.length = n.children.length}

/-- A constructor is applied to data and to a thing with children. -/
theorem Fillable.filled {head : α → γ} {children : α → List ε} (h : Fillable head children)
    (mk : α → Node ε) (a : α)
    (hmk : ∀ m : Node ε, m.head = (mk a).head ↔ ∃ b, m = mk b ∧ head b = head a)
    (hchildren : ∀ b, (mk b).children = children b) : (mk a).Filled := by
  refine ⟨?_, ?_, ?_⟩
  · intro m hm
    obtain ⟨b, rfl, hb⟩ := (hmk m).1 hm
    show (mk b).children.length = (mk a).children.length
    rw [hchildren, hchildren]
    exact h.length_eq hb
  · intro m hm m' hm' heq
    obtain ⟨b, rfl, hb⟩ := (hmk m).1 hm
    obtain ⟨c, rfl, hc⟩ := (hmk m').1 hm'
    rw [hchildren, hchildren] at heq
    rw [h.ext (hb.trans hc.symm) heq]
  · intro cs hcs
    change cs.length = (mk a).children.length at hcs
    rw [hchildren] at hcs
    obtain ⟨b, hb, rfl⟩ := h.exists_fill a hcs
    exact ⟨mk b, (hmk _).2 ⟨b, rfl, hb⟩, hchildren b⟩

/-- A node is its head and its children: the list leaves out no sub-expression, and none stands in
it twice. -/
theorem Node.filled (n : Node ε) : n.Filled := by
  -- each variant is its head, filled with a tuple of what it holds
  cases n with
  | leaf l =>
      exact (Fillable.data (ε := ε)).filled (fun l => .leaf l) l
        (fun m => by cases m <;> simp [head, map]) fun _ => rfl
  | binary op l r =>
      exact (Fillable.single.prod .single).filled (fun p => .binary op p.1 p.2) (l, r)
        (fun m => by cases m <;> simp [head, map]) fun _ => rfl
  | unary op e =>
      exact Fillable.single.filled (fun e => .unary op e) e
        (fun m => by cases m <;> simp [head, map]) fun _ => rfl
  | items sequence es =>
      exact Fillable.each.filled (fun es => .items sequence es) es
        (fun m => by cases m <;> simp [head, map]) fun _ => rfl
  | access l keys =>
      exact (Fillable.single.prod .each).filled (fun p => .access p.1 p.2) (l, keys)
        (fun m => by cases m <;> simp [head, map]) fun _ => rfl
  | hereDoc format text =>
      exact Fillable.single.filled (fun e => .hereDoc format e) text
        (fun m => by cases m <;> simp [head, map]) fun _ => rfl
  | located source e =>
      exact Fillable.single.filled (fun e => .located source e) e
        (fun m => by cases m <;> simp [head, map]) fun _ => rfl
  | hash entries =>
      exact Entry.fillable.list.filled (fun es => .hash es) entries
        (fun m => by cases m <;> simp [head, map]) fun _ => rfl
  | branch form test thenBody elseBody =>
      exact (Fillable.single.prod (.prod .single .single)).filled
        (fun p => .branch form p.1 p.2.1 p.2.2) (test, thenBody, elseBody)
        (fun m => by cases m <;> simp [head, map]) fun _ => rfl
  | cases test options =>
      exact (Fillable.single.prod CaseOption.fillable.list).filled (fun p => .cases p.1 p.2)
        (test, options) (fun m => by cases m <;> simp [head, map]) fun _ => rfl
  | selector l entries =>
      exact (Fillable.single.prod Entry.fillable.list).filled (fun p => .selector p.1 p.2)
        (l, entries) (fun m => by cases m <;> simp [head, map]) fun _ => rfl
  | call form valueRequired functor args block =>
      exact (Fillable.prod (.prod .single .each) .maybe).filled
        (fun p => .call form valueRequired p.1.1 p.1.2 p.2) ((functor, args), block)
        (fun m => by cases m <;> simp [head, map, and_assoc]) fun _ => rfl
  | lambda params returns body =>
      exact (Fillable.prod (.prod Parameter.fillable.list .maybe) .maybe).filled
        (fun p => .lambda p.1.1 p.1.2 p.2) ((params, returns), body)
        (fun m => by cases m <;> simp [head, map, and_assoc]) fun _ => rfl
  | function name params returns body =>
      exact (Fillable.prod (.prod Parameter.fillable.list .maybe) .maybe).filled
        (fun p => .function name p.1.1 p.1.2 p.2) ((params, returns), body)
        (fun m => by cases m <;> simp [head, map, and_assoc]) fun _ => rfl
  | definition form name params body =>
      exact (Parameter.fillable.list.prod .maybe).filled (fun p => .definition form name p.1 p.2)
        (params, body) (fun m => by cases m <;> simp [head, map, and_assoc]) fun _ => rfl
  | typeAlias name type =>
      exact Fillable.single.filled (fun e => .typeAlias name e) type
        (fun m => by cases m <;> simp [head, map]) fun _ => rfl
  | typeMapping type mapping =>
      exact (Fillable.single.prod .single).filled (fun p => .typeMapping p.1 p.2) (type, mapping)
        (fun m => by cases m <;> simp [head, map]) fun _ => rfl
  | typeDefinition name parent body =>
      exact Fillable.maybe.filled (fun e => .typeDefinition name parent e) body
        (fun m => by cases m <;> simp [head, map, and_assoc]) fun _ => rfl
  | host names parent body =>
      exact (Fillable.prod (.prod .each .maybe) .maybe).filled (fun p => .host p.1.1 p.1.2 p.2)
        ((names, parent), body) (fun m => by cases m <;> simp [head, map, and_assoc]) fun _ => rfl
  | site body =>
      exact Fillable.maybe.filled (fun e => .site e) body
        (fun m => by cases m <;> simp [head, map]) fun _ => rfl
  | capability verb component name mappings =>
      exact (Fillable.single.prod Operation.fillable_list).filled
        (fun p => .capability verb p.1 name p.2) (component, mappings)
        (fun m => by cases m <;> simp [head, map, and_assoc]) fun _ => rfl
  | resource form type bodies =>
      exact (Fillable.single.prod ResourceBody.fillable.list).filled
        (fun p => .resource form p.1 p.2) (type, bodies)
        (fun m => by cases m <;> simp [head, map]) fun _ => rfl
  | settings what form target operations =>
      exact (Fillable.single.prod Operation.fillable_list).filled
        (fun p => .settings what form p.1 p.2) (target, operations)
        (fun m => by cases m <;> simp [head, map, and_assoc]) fun _ => rfl
  | collect type query operations =>
      exact (Fillable.prod (.prod .single Query.fillable) Operation.fillable_list).filled
        (fun p => .collect p.1.1 p.1.2 p.2) ((type, query), operations)
        (fun m => by cases m <;> simp [head, map]) fun _ => rfl
  | template specified body =>
      exact Fillable.maybe.filled (fun e => .template specified e) body
        (fun m => by cases m <;> simp [head, map]) fun _ => rfl

end Manifest
