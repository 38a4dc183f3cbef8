import Manifest.Tree.Walk
import Mathlib.Data.List.FinRange
import Mathlib.Data.List.Sort

/-!
# Places in a tree

The place of an expression in a tree says which child to go to, and which child of that, and so on.
In the order of lists, a place stands before those below it, and these before the places below a
later child: the expressions at the places in this order are those of the tree, each before its
sub-expressions.

* `Expr.at?` — the expression at a place.
* `Expr.places` — all places of a tree.
* `Expr.places_sorted`, `Expr.mem_places` — they are in order, and each is listed once.
* `Expr.map_at?_places` — the expressions at these places are those that a walk meets.
* `Expr.exists_place_of_find?` — the first of these with a property has no other before its place.
-/

namespace Manifest

variable {e f : Expr} {p q : List Nat}

/-- The expression at a place. -/
def Expr.at? (e : Expr) : List Nat → Option Expr
  | [] => some e
  | i :: p => e.children[i]?.bind (·.at? p)

/-- The places of a tree. -/
def Expr.places (e : Expr) : List (List Nat) :=
  [] :: (List.finRange e.children.length).flatMap fun i => e.children[i].places.map (i.val :: ·)
termination_by sizeOf e
decreasing_by exact sizeOf_lt_of_mem_children (List.getElem_mem _)

/-- What holds of a tree when it holds of the trees below it holds of every tree. -/
theorem Expr.below_induction {motive : Expr → Prop}
    (h : ∀ e : Expr, (∀ c ∈ e.children, motive c) → motive e) (e : Expr) : motive e :=
  h e fun c _ => below_induction h c
termination_by sizeOf e
decreasing_by exact sizeOf_lt_of_mem_children (by assumption)

/-- A place below a child is one of the child. -/
theorem Expr.at?_cons {i : Nat} (h : i < e.children.length) (p : List Nat) :
    e.at? (i :: p) = e.children[i].at? p := by
  rw [at?, List.getElem?_eq_getElem h]
  rfl

/-- Every place of the tree is listed, and nothing else. -/
theorem Expr.mem_places : p ∈ e.places ↔ ∃ f, e.at? p = some f := by
  induction p generalizing e with
  | nil =>
      rw [places]
      exact ⟨fun _ => ⟨e, rfl⟩, fun _ => List.mem_cons_self⟩
  | cons i p ih =>
      have hplaces : i :: p ∈ e.places ↔
          ∃ k : Fin e.children.length, p ∈ e.children[k].places ∧ k.val = i := by
        rw [places]
        simp
      rw [hplaces]
      constructor
      · rintro ⟨k, hp, rfl⟩
        rw [at?_cons k.isLt]
        exact ih.1 hp
      · rintro ⟨f, hf⟩
        obtain ⟨c, hc, hat⟩ := Option.bind_eq_some_iff.1 hf
        obtain ⟨hi, rfl⟩ := List.getElem?_eq_some_iff.1 hc
        exact ⟨⟨i, hi⟩, ih.2 ⟨f, hat⟩, rfl⟩

/-- The places are listed in order. -/
theorem Expr.places_sorted (e : Expr) : e.places.Pairwise (· < ·) := by
  induction e using below_induction with
  | h e ih =>
      rw [places, List.pairwise_cons, List.pairwise_flatMap]
      refine ⟨?_, ?_, ?_⟩
      · intro p hp
        obtain ⟨k, -, hk⟩ := List.mem_flatMap.1 hp
        obtain ⟨q, -, rfl⟩ := List.mem_map.1 hk
        exact List.nil_lt_cons _ _
      · intro k _
        refine List.pairwise_map.2 ((ih _ (List.getElem_mem k.isLt)).imp ?_)
        exact fun h => List.cons_lt_cons_iff.2 (.inr ⟨rfl, h⟩)
      · refine (List.pairwise_lt_finRange _).imp ?_
        intro k l hkl p hp q hq
        obtain ⟨p, -, rfl⟩ := List.mem_map.1 hp
        obtain ⟨q, -, rfl⟩ := List.mem_map.1 hq
        exact List.cons_lt_cons_iff.2 (.inl hkl)

/-- A walk meets the expressions at the places of the tree. -/
theorem Expr.map_at?_places (e : Expr) : e.places.map e.at? = e.nodes.map some := by
  induction e using below_induction with
  | h e ih =>
      have hchild : ∀ k : Fin e.children.length,
          (e.children[k].places.map (k.val :: ·)).map e.at? = e.children[k].nodes.map some := by
        intro k
        refine Eq.trans ?_ (ih _ (List.getElem_mem k.isLt))
        rw [List.map_map]
        exact List.map_congr_left fun p _ => at?_cons k.isLt p
      have hchildren : (List.finRange e.children.length).map (fun k => e.children[k]) =
          e.children := List.map_getElem_finRange e.children
      rw [places, nodes_eq, List.map_cons, List.map_cons, List.map_flatMap]
      congr 1
      calc (List.finRange e.children.length).flatMap
            (fun k => (e.children[k].places.map (k.val :: ·)).map e.at?)
          = (List.finRange e.children.length).flatMap (fun k => e.children[k].nodes.map some) := by
            simp only [hchild]
        _ = ((List.finRange e.children.length).map fun k => e.children[k]).flatMap
              (fun c => c.nodes.map some) := by rw [List.flatMap_map]
        _ = (e.children.flatMap nodes).map some := by rw [hchildren, List.map_flatMap]

/-- The first expression with a property stands at a place, and none at a place before it has the
property. -/
theorem Expr.exists_place_of_find? {P : Expr → Bool} (h : e.nodes.find? P = some f) :
    ∃ p, e.at? p = some f ∧ ∀ q < p, ∀ g, e.at? q = some g → P g = false := by
  obtain ⟨-, front, rest, hnodes, hfront⟩ := List.find?_eq_some_iff_append.1 h
  have hplaces := e.map_at?_places
  rw [hnodes, List.map_append] at hplaces
  obtain ⟨before, after, heq, hbefore, hafter⟩ := List.map_eq_append_iff.1 hplaces
  obtain ⟨p, after, rfl, hp, -⟩ := List.map_eq_cons_iff.1 hafter
  refine ⟨p, hp, fun q hq g hg => ?_⟩
  have hsorted := e.places_sorted
  have hmem : q ∈ e.places := mem_places.2 ⟨g, hg⟩
  rw [heq] at hsorted hmem
  -- `p` and the places after it are not before `p`
  have hq' : q ∈ before := by
    refine (List.mem_append.1 hmem).resolve_right fun hlater => ?_
    rcases List.mem_cons.1 hlater with rfl | hafter
    · exact List.lt_irrefl _ hq
    · have hpq := List.rel_of_pairwise_cons (List.pairwise_append.1 hsorted).2.1 hafter
      exact List.lt_irrefl _ (List.lt_trans hq hpq)
  have hg' : some g ∈ front.map some := hbefore ▸ List.mem_map.2 ⟨q, hq', hg⟩
  obtain ⟨g, hgfront, heq⟩ := List.mem_map.1 hg'
  obtain rfl := Option.some.inj heq
  simpa using hfront g hgfront

end Manifest
