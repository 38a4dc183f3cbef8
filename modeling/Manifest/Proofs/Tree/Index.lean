import Manifest.Proofs.Tree.Children
import Manifest.Proofs.Tree.Defines
import Manifest.Proofs.Tree.Place

/-!
# The definitions of a program

The index of a program holds the definitions of its tree in the order of their places. Looking up a
name takes two walks, one for the first entry of that name and one for the first node with that
entry. They find the first node that defines the name: an earlier one with the same entry would
define it too.

* `Expr.definitionPlaces` — the places of the definitions in a tree.
* `Program.find?_eq` — looking up a name is one walk of the tree.
* `Program.definitions_indexed` — what the index holds, and what is found in it.
-/

namespace Manifest

variable {p : List Nat}

/-- What the expression at a place defines. -/
def Expr.definitionAt? (e : Expr) (p : List Nat) : Option Definition :=
  (e.at? p).bind definition?

/-- The places of the definitions in a tree. -/
def Expr.definitionPlaces (e : Expr) : List (List Nat) :=
  e.places.filter fun p => (e.definitionAt? p).isSome

/-- What is found at a place is the entry of the expression there. -/
theorem Expr.definitionAt?_eq_some_iff {e : Expr} {d : Definition} :
    e.definitionAt? p = some d ↔ ∃ f, e.at? p = some f ∧ f.Enters d := by
  rw [definitionAt?, Option.bind_eq_some_iff]
  simp only [definition?_eq_some_iff]

/-- A node that defines something has an entry. -/
theorem Expr.exists_enters_iff {e : Expr} :
    (∃ d, e.Enters d) ↔ ∃ kind name, e.node.Defines kind name := by
  constructor
  · rintro ⟨d, hd⟩
    exact ⟨d.kind, d.name, hd.defines⟩
  · rintro ⟨kind, name, h⟩
    exact ⟨⟨kind, name, e.range⟩, h, rfl⟩

/-- The places of definitions are those of nodes that define something. -/
theorem Expr.mem_definitionPlaces {e : Expr} :
    p ∈ e.definitionPlaces ↔ ∃ f, e.at? p = some f ∧ ∃ kind name, f.node.Defines kind name := by
  have hentry : (e.definitionAt? p).isSome ↔
      ∃ f, e.at? p = some f ∧ ∃ kind name, f.node.Defines kind name := by
    rw [Option.isSome_iff_exists]
    simp only [definitionAt?_eq_some_iff, ← exists_enters_iff]
    rw [exists_comm]
    simp only [exists_and_left]
  rw [definitionPlaces, List.mem_filter, mem_places, hentry]
  refine and_iff_right_of_imp ?_
  rintro ⟨f, hf, -⟩
  exact ⟨f, hf⟩

/-- The expression is a definition of this name. -/
def Expr.Defines (e : Expr) (name : String) : Prop :=
  ∃ kind text, e.node.Defines kind text ∧ AlikeNames text name

/-- An entry with a name alike tells a definition of it. -/
theorem Expr.defines_iff {e : Expr} {name : String} :
    e.definition?.any (sameName ·.name name) = true ↔ e.Defines name := by
  rw [Option.any_eq_true]
  simp only [definition?_eq_some_iff, sameName_iff]
  constructor
  · rintro ⟨d, hd, hname⟩
    exact ⟨d.kind, d.name, hd.defines, hname⟩
  · rintro ⟨kind, text, h, hname⟩
    exact ⟨⟨kind, text, e.range⟩, ⟨h, rfl⟩, hname⟩

namespace Program

variable (body : Expr) (document : Text.Document) (name : String)

/-- The entries of the index are those of the definitions, in the order of their places. -/
theorem map_definitions :
    (ofBody body document).definitions.map some = body.definitionPlaces.map body.definitionAt? := by
  have hentries : body.nodes.filterMap Expr.definition? =
      body.places.filterMap body.definitionAt? := by
    calc body.nodes.filterMap Expr.definition?
        = (body.nodes.map some).filterMap (·.bind Expr.definition?) := by
          rw [List.filterMap_map]
          rfl
      _ = (body.places.map body.at?).filterMap (·.bind Expr.definition?) := by
          rw [Expr.map_at?_places]
      _ = body.places.filterMap body.definitionAt? := by
          rw [List.filterMap_map]
          rfl
  show (body.nodes.filterMap Expr.definition?).map some = _
  rw [hentries, List.map_filterMap_some_eq_filter_map_isSome, List.filter_map]
  rfl

/-- Each place of a definition has its entry in the index. -/
theorem forall₂_definitions :
    List.Forall₂ (fun p d => ∃ e, body.at? p = some e ∧ e.Enters d) body.definitionPlaces
      (ofBody body document).definitions := by
  have hentries : List.Forall₂ (· = ·) (body.definitionPlaces.map body.definitionAt?)
      ((ofBody body document).definitions.map some) := by
    rw [List.forall₂_eq_eq_eq]
    exact (map_definitions body document).symm
  rw [List.forall₂_map_left_iff, List.forall₂_map_right_iff] at hentries
  exact hentries.imp fun _ _ => Expr.definitionAt?_eq_some_iff.1

/-- Looking up a name is one walk: the node of the first entry with the name is the first node that
defines the name. -/
theorem find?_eq : (ofBody body document).find? name =
    body.nodes.find? fun e => e.definition?.any (sameName ·.name name) := by
  unfold find?
  have hentry : (ofBody body document).definitions.find? (sameName ·.name name) =
      (body.nodes.find? fun e => e.definition?.any (sameName ·.name name)).bind
        Expr.definition? := List.find?_filterMap
  rw [hentry]
  cases hfirst : body.nodes.find? fun e => e.definition?.any (sameName ·.name name) with
  | none => rfl
  | some e =>
      obtain ⟨he, front, rest, hnodes, hfront⟩ := List.find?_eq_some_iff_append.1 hfirst
      obtain ⟨d, hd, hname⟩ := Option.any_eq_true .. |>.1 he
      rw [Option.bind_some, hd]
      refine List.find?_eq_some_iff_append.2 ⟨beq_iff_eq.2 hd, front, rest, hnodes, ?_⟩
      intro f hf
      have hother := hfront f hf
      simp only [Bool.not_eq_eq_eq_not, Bool.not_true] at hother ⊢
      refine beq_eq_false_iff_ne.2 fun heq => ?_
      rw [heq, Option.any_some, hname] at hother
      exact Bool.noConfusion hother

/-- No node defines a name that no entry has. -/
theorem find?_eq_none_iff : (ofBody body document).find? name = none ↔
    ∀ d ∈ (ofBody body document).definitions, ¬ AlikeNames d.name name := by
  rw [find?_eq, List.find?_eq_none]
  constructor
  · intro h d hd hname
    obtain ⟨f, hf, hfd⟩ := List.mem_filterMap.1 hd
    exact h f hf (Option.any_eq_true .. |>.2 ⟨d, hfd, sameName_iff.2 hname⟩)
  · intro h f hf hany
    obtain ⟨d, hfd, hname⟩ := Option.any_eq_true .. |>.1 hany
    exact h d (List.mem_filterMap.2 ⟨f, hf, hfd⟩) (sameName_iff.1 hname)

/-- The tree of a program has a node for every sub-expression, and its index one entry for every
definition among them, with its kind, name and range, in the order of their places. A name is looked
up in vain if and only if no entry has it; else the definition found is the first that has it. -/
theorem definitions_indexed :
    (∀ n : Node Expr, n.Filled) ∧
    (∃ places : List (List Nat), places.Pairwise (· < ·) ∧
      (∀ p, p ∈ places ↔ ∃ e, body.at? p = some e ∧ ∃ kind name, e.node.Defines kind name) ∧
      List.Forall₂ (fun p d => ∃ e, body.at? p = some e ∧ e.Enters d) places
        (ofBody body document).definitions) ∧
    ((ofBody body document).find? name = none ↔
      ∀ d ∈ (ofBody body document).definitions, ¬ AlikeNames d.name name) ∧
    ∀ e, (ofBody body document).find? name = some e →
      ∃ p, body.at? p = some e ∧ e.Defines name ∧
        ∀ q < p, ∀ f, body.at? q = some f → ¬ f.Defines name := by
  have hplaces : body.definitionPlaces.Pairwise (· < ·) := body.places_sorted.filter _
  refine ⟨Node.filled, ⟨body.definitionPlaces, hplaces, fun _ => Expr.mem_definitionPlaces,
    forall₂_definitions body document⟩, find?_eq_none_iff body document name, ?_⟩
  intro e he
  rw [find?_eq] at he
  obtain ⟨p, hp, hfirst⟩ := Expr.exists_place_of_find? he
  have hdefines := List.find?_some he
  refine ⟨p, hp, Expr.defines_iff.1 hdefines, fun q hq f hf hname => ?_⟩
  have hother := hfirst q hq f hf
  rw [Expr.defines_iff.2 hname] at hother
  exact Bool.noConfusion hother

/-- `class outer($x = || { type Inner = Any }) { node 'a', /b/ { } }`: a definition in the default
of a parameter, and one in the body. -/
def nested : Expr :=
  .ofNode (.definition (.hostClass none) "outer"
    [⟨"x", some (.ofNode (.lambda [] none
      (some (.ofNode (.typeAlias "Inner" (.ofLeaf (.reference "Any"))))))), none, false, none⟩]
    (some (.ofNode (.host [.ofLeaf (.string "a"), .ofLeaf (.regex "b")] none none))))

/-- The definitions below the class, in the order of their places. -/
theorem definitions_nested (document : Text.Document) : (ofBody nested document).definitions =
    [⟨.hostClass, "outer", none⟩, ⟨.typeAlias, "Inner", none⟩,
      ⟨.node, "a,LiteralRegex", none⟩] := by
  simp only [ofBody, nested, Expr.nodes_eq, Expr.children, Expr.ofNode, Expr.ofLeaf, Node.children,
    Parameter.children, Option.toList, List.flatMap_cons, List.flatMap_nil, List.append_nil,
    List.nil_append, List.cons_append]
  rfl

/-- The index has the definitions below the class, and finds them in any case of letters; what only
refers to a type is not found. -/
theorem definitions_indexed_nested :
    (ofBody nested (.ofText [] "")).definitions = [⟨.hostClass, "outer", none⟩,
      ⟨.typeAlias, "Inner", none⟩, ⟨.node, "a,LiteralRegex", none⟩] ∧
    (ofBody nested (.ofText [] "")).find? "any" = none ∧
    ∃ p e, nested.at? p = some e ∧ (ofBody nested (.ofText [] "")).find? "INNER" = some e ∧
      e.Defines "INNER" := by
  have hentries := definitions_nested (.ofText [] "")
  have habsent := (definitions_indexed nested (.ofText [] "") "any").2.2.1
  obtain ⟨-, -, hfound, hfirst⟩ := definitions_indexed nested (.ofText [] "") "INNER"
  simp only [hentries, List.mem_cons, List.not_mem_nil, or_false, forall_eq_or_imp, forall_eq,
    ← sameName_iff] at habsent hfound
  refine ⟨hentries, habsent.2 (by decide), ?_⟩
  obtain ⟨e, he⟩ := Option.ne_none_iff_exists'.1 (mt hfound.1 (by decide))
  obtain ⟨p, hp, hdefines, -⟩ := hfirst e he
  exact ⟨p, e, hp, he, hdefines⟩

end Program

end Manifest
