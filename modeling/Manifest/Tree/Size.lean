import Manifest.Tree.Children

/-!
# Sub-expressions are smaller

Recursion over a tree goes from an expression to its children. The children of a node are collected
from its parts, so each part is compared with the expressions in it first.

* `Below` — all expressions of a list are smaller than a bound.
* `Node.below` — the children of a node are smaller than the node.
* `Expr.sizeOf_lt_of_mem_children` — the children of an expression are smaller than it.
-/

namespace Manifest

/-- A part that may be missing is smaller. -/
theorem sizeOf_lt_of_mem_toList {o : Option Expr} {c : Expr} (h : c ∈ o.toList) :
    sizeOf c < sizeOf o := by
  cases o with
  | none => simp at h
  | some e =>
      simp only [Option.toList_some, List.mem_singleton] at h
      subst h
      simp +arith

/-- The parts of what is listed are smaller than the list. -/
theorem sizeOf_lt_of_mem_flatMap {α : Type} [SizeOf α] {f : α → List Expr}
    (hf : ∀ a, ∀ c ∈ f a, sizeOf c < sizeOf a) {l : List α} {c : Expr} (h : c ∈ l.flatMap f) :
    sizeOf c < sizeOf l := by
  obtain ⟨a, ha, hc⟩ := List.mem_flatMap.1 h
  have := hf a c hc
  have := List.sizeOf_lt_of_mem ha
  omega

/-- A key and a value are smaller than their entry. -/
theorem Entry.sizeOf_lt (e : Entry Expr) : ∀ c ∈ e.children, sizeOf c < sizeOf e := by
  obtain ⟨k, v, r⟩ := e
  simp +arith [Entry.children]

/-- The parts of an option are smaller than the option. -/
theorem CaseOption.sizeOf_lt (o : CaseOption Expr) : ∀ c ∈ o.children, sizeOf c < sizeOf o := by
  obtain ⟨vs, b, r⟩ := o
  intro c h
  rcases List.mem_append.1 h with h | h
  · have := List.sizeOf_lt_of_mem h
    simp only [CaseOption.mk.sizeOf_spec] at *
    omega
  · rw [List.mem_singleton.1 h]
    simp +arith

/-- The parts of a parameter are smaller than the parameter. -/
theorem Parameter.sizeOf_lt (p : Parameter Expr) : ∀ c ∈ p.children, sizeOf c < sizeOf p := by
  obtain ⟨n, v, t, r, g⟩ := p
  intro c h
  rcases List.mem_append.1 h with h | h <;> have := sizeOf_lt_of_mem_toList h <;>
    simp only [Parameter.mk.sizeOf_spec] at * <;> omega

/-- The value of an operation is smaller than the operation. -/
theorem Operation.sizeOf_lt (o : Operation Expr) : sizeOf o.value < sizeOf o := by
  cases o <;> simp +arith [Operation.value]

theorem sizeOf_lt_of_mem_values {l : List (Operation Expr)} {c : Expr}
    (h : c ∈ l.map Operation.value) : sizeOf c < sizeOf l := by
  obtain ⟨o, ho, rfl⟩ := List.mem_map.1 h
  have := Operation.sizeOf_lt o
  have := List.sizeOf_lt_of_mem ho
  omega

/-- The parts of a body are smaller than the body. -/
theorem ResourceBody.sizeOf_lt (b : ResourceBody Expr) :
    ∀ c ∈ b.children, sizeOf c < sizeOf b := by
  obtain ⟨t, os, r⟩ := b
  intro c h
  rcases List.mem_append.1 h with h | h
  · have := sizeOf_lt_of_mem_toList h
    simp only [ResourceBody.mk.sizeOf_spec] at *
    omega
  · have := sizeOf_lt_of_mem_values h
    simp only [ResourceBody.mk.sizeOf_spec] at *
    omega

/-- Every expression of the list is smaller than `n`. -/
def Below (n : Nat) (l : List Expr) : Prop := ∀ c ∈ l, sizeOf c < n

theorem Below.nil (n : Nat) : Below n [] := fun _ h => absurd h List.not_mem_nil

theorem Below.cons {n : Nat} {e : Expr} {l : List Expr} (he : sizeOf e < n) (hl : Below n l) :
    Below n (e :: l) := List.forall_mem_cons.2 ⟨he, hl⟩

/-- Expressions of two lists that are smaller. -/
theorem Below.append {n : Nat} {l m : List Expr} (hl : Below n l) (hm : Below n m) :
    Below n (l ++ m) := List.forall_mem_append.2 ⟨hl, hm⟩

/-- The expressions of a list are smaller than the list. -/
theorem Below.list {n : Nat} {l : List Expr} (h : sizeOf l < n) : Below n l :=
  fun _ hc => Nat.lt_trans (List.sizeOf_lt_of_mem hc) h

theorem Below.option {n : Nat} {o : Option Expr} (h : sizeOf o < n) : Below n o.toList :=
  fun _ hc => Nat.lt_trans (sizeOf_lt_of_mem_toList hc) h

theorem Below.values {n : Nat} {l : List (Operation Expr)} (h : sizeOf l < n) :
    Below n (l.map Operation.value) :=
  fun _ hc => Nat.lt_trans (sizeOf_lt_of_mem_values hc) h

/-- The parts of what is listed are smaller than the list. -/
theorem Below.flatMap {α : Type} [SizeOf α] {f : α → List Expr} {n : Nat} {l : List α}
    (hf : ∀ a, ∀ c ∈ f a, sizeOf c < sizeOf a) (h : sizeOf l < n) : Below n (l.flatMap f) :=
  fun _ hc => Nat.lt_trans (sizeOf_lt_of_mem_flatMap hf hc) h

/-- The children of a node are smaller than the node. -/
theorem Node.below (n : Node Expr) : Below (sizeOf n) n.children := by
  cases n with
  | leaf l => exact .nil _
  | binary op l r => exact .cons (by simp +arith) (.cons (by simp +arith) (.nil _))
  | unary op e => exact .cons (by simp +arith) (.nil _)
  | items s es => exact .list (by simp +arith [children])
  | access l keys => exact .cons (by simp +arith) (.list (by simp +arith))
  | hereDoc f t => exact .cons (by simp +arith) (.nil _)
  | located s e => exact .cons (by simp +arith) (.nil _)
  | hash es => exact .flatMap Entry.sizeOf_lt (by simp +arith)
  | branch f t y n =>
      exact .cons (by simp +arith) (.cons (by simp +arith) (.cons (by simp +arith) (.nil _)))
  | cases t os => exact .cons (by simp +arith) (.flatMap CaseOption.sizeOf_lt (by simp +arith))
  | selector l es => exact .cons (by simp +arith) (.flatMap Entry.sizeOf_lt (by simp +arith))
  | call f v g args b =>
      exact .append (.cons (by simp +arith) (.list (by simp +arith))) (.option (by simp +arith))
  | lambda ps r b =>
      exact .append (.append (.flatMap Parameter.sizeOf_lt (by simp +arith))
        (.option (by simp +arith))) (.option (by simp +arith))
  | function n ps r b =>
      exact .append (.append (.flatMap Parameter.sizeOf_lt (by simp +arith))
        (.option (by simp +arith))) (.option (by simp +arith))
  | definition f n ps b =>
      exact .append (.flatMap Parameter.sizeOf_lt (by simp +arith)) (.option (by simp +arith))
  | typeAlias n t => exact .cons (by simp +arith) (.nil _)
  | typeMapping t m => exact .cons (by simp +arith) (.cons (by simp +arith) (.nil _))
  | typeDefinition n p b => exact .option (by simp +arith)
  | host ns p b =>
      exact .append (.append (.list (by simp +arith)) (.option (by simp +arith)))
        (.option (by simp +arith))
  | site b => exact .option (by simp +arith)
  | capability v c k ms => exact .cons (by simp +arith) (.values (by simp +arith))
  | resource f t bs =>
      exact .cons (by simp +arith) (.flatMap ResourceBody.sizeOf_lt (by simp +arith))
  | settings w f t os => exact .cons (by simp +arith) (.values (by simp +arith))
  | collect t q os =>
      obtain ⟨k, e, r⟩ := q
      exact .append (.cons (by simp +arith) (.option (by simp +arith))) (.values (by simp +arith))
  | template s b => exact .option (by simp +arith)

/-- The children of an expression are smaller than it. -/
theorem Expr.sizeOf_lt_of_mem_children {e c : Expr} (h : c ∈ e.children) :
    sizeOf c < sizeOf e := by
  obtain ⟨n, r⟩ := e
  have := Node.below n c h
  simp only [Expr.mk.sizeOf_spec]
  omega

end Manifest
