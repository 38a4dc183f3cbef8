import Manifest.Tree.Program
import Mathlib.Data.List.Forall2

/-!
# What a node defines

Ten variants of nodes are definitions. Most carry the name that they define; a node definition is
called by the texts of its hosts, a mapping of types by the text of its type, and a site is called
`site`. Names are compared up to the case of ASCII letters.

* `Expr.Names` — the texts of the expressions that stand for a name.
* `Node.Defines` — which nodes define what, and under which name.
* `Expr.definition?_eq_some_iff` — an expression has an entry if and only if its node is one of
  these.
* `AlikeNames` — names that differ at most in the case of letters.
-/

namespace Manifest

open Text (Range)

/-! ## Texts of names -/

/-- Names, references, strings and reserved words stand for their text. -/
inductive Expr.Names : Expr → String → Prop
  | name (s : String) (range : Option Range) : Names ⟨.leaf (.name s), range⟩ s
  | reference (s : String) (range : Option Range) : Names ⟨.leaf (.reference s), range⟩ s
  | string (s : String) (range : Option Range) : Names ⟨.leaf (.string s), range⟩ s
  | reserved (s : String) (future : Bool) (range : Option Range) :
      Names ⟨.leaf (.reserved s future), range⟩ s

/-- The text of a name is found for the four variants that have one. -/
theorem Expr.nameText?_eq_some_iff {e : Expr} {s : String} : e.nameText? = some s ↔ e.Names s := by
  obtain ⟨n, range⟩ := e
  constructor
  · intro h
    rw [nameText?] at h
    split at h
    next hnode =>
      obtain rfl : n = _ := hnode
      obtain rfl := Option.some.inj h
      exact .name _ range
    next hnode =>
      obtain rfl : n = _ := hnode
      obtain rfl := Option.some.inj h
      exact .reference _ range
    next hnode =>
      obtain rfl : n = _ := hnode
      obtain rfl := Option.some.inj h
      exact .string _ range
    next hnode =>
      obtain rfl : n = _ := hnode
      obtain rfl := Option.some.inj h
      exact .reserved _ _ range
    next => exact nomatch h
  · intro h
    cases h <;> rfl

/-- No text is found where an expression stands for no name. -/
theorem Expr.nameText?_eq_none_iff {e : Expr} : e.nameText? = none ↔ ∀ s, ¬ e.Names s := by
  rw [Option.eq_none_iff_forall_ne_some]
  exact forall_congr' fun s => not_congr nameText?_eq_some_iff

/-- How an expression is called: by its text, or else by some other name. -/
inductive Expr.Called (e : Expr) (other : String) : String → Prop
  | text {s : String} (h : e.Names s) : Called e other s
  | other (h : ∀ s, ¬ e.Names s) : Called e other other

/-- What stands for no name is called by the other one. -/
theorem Expr.called_iff {e : Expr} {other s : String} :
    e.Called other s ↔ e.nameText?.getD other = s := by
  cases h : e.nameText? with
  | some t =>
      have ht := nameText?_eq_some_iff.1 h
      constructor
      · rintro (hs | hnone)
        · exact Option.some.inj (h.symm.trans (nameText?_eq_some_iff.2 hs))
        · exact absurd ht (hnone t)
      · rintro rfl
        exact .text ht
  | none =>
      have hnone := nameText?_eq_none_iff.1 h
      constructor
      · rintro (hs | -)
        · exact absurd hs (hnone s)
        · rfl
      · rintro rfl
        exact .other hnone

/-! ## Definitions -/

/-- The node is a definition of this kind, under this name. -/
inductive Node.Defines : Node Expr → DefinitionKind → String → Prop
  | hostClass (parent name params body) :
      Defines (.definition (.hostClass parent) name params body) .hostClass name
  | resourceType (name params body) :
      Defines (.definition .resourceType name params body) .resourceType name
  | application (name params body) :
      Defines (.definition .application name params body) .application name
  | function (name params returns body) :
      Defines (.function name params returns body) .function name
  /-- hosts without a text are called by their variant -/
  | host {hosts : List Expr} {texts : List String} (parent body)
      (h : List.Forall₂ (fun e s => e.Called e.label s) hosts texts) :
      Defines (.host hosts parent body) .node (",".intercalate texts)
  | site (body) : Defines (.site body) .site "site"
  | typeAlias (name type) : Defines (.typeAlias name type) .typeAlias name
  | typeDefinition (name parent body) :
      Defines (.typeDefinition name parent body) .typeDefinition name
  /-- a type without a text has no name -/
  | typeMapping {type : Expr} {s : String} (mapping) (h : type.Called "" s) :
      Defines (.typeMapping type mapping) .typeMapping s
  | capability (verb component name mappings) :
      Defines (.capability verb component name mappings) .capabilityMapping name

/-- The texts of hosts, in their order. -/
theorem forall₂_called_iff {hosts : List Expr} {texts : List String} :
    List.Forall₂ (fun e s => e.Called e.label s) hosts texts ↔
      hosts.map (fun e => e.nameText?.getD e.label) = texts := by
  rw [← List.forall₂_eq_eq_eq, List.forall₂_map_left_iff]
  simp only [Expr.called_iff]

/-- Nothing else is a definition. -/
theorem Node.defines?_eq_some_iff {n : Node Expr} {kind : DefinitionKind} {name : String} :
    n.defines? = some (kind, name) ↔ n.Defines kind name := by
  constructor
  · intro h
    cases n with
    | definition form defined params body =>
        obtain ⟨rfl, rfl⟩ := Prod.mk.inj (Option.some.inj h)
        cases form with
        | resourceType => exact .resourceType ..
        | application => exact .application ..
        | hostClass parent => exact .hostClass ..
    | function =>
        obtain ⟨rfl, rfl⟩ := Prod.mk.inj (Option.some.inj h)
        exact .function ..
    | host =>
        obtain ⟨rfl, rfl⟩ := Prod.mk.inj (Option.some.inj h)
        exact .host _ _ (forall₂_called_iff.2 rfl)
    | site =>
        obtain ⟨rfl, rfl⟩ := Prod.mk.inj (Option.some.inj h)
        exact .site _
    | typeAlias =>
        obtain ⟨rfl, rfl⟩ := Prod.mk.inj (Option.some.inj h)
        exact .typeAlias ..
    | typeDefinition =>
        obtain ⟨rfl, rfl⟩ := Prod.mk.inj (Option.some.inj h)
        exact .typeDefinition ..
    | typeMapping =>
        obtain ⟨rfl, rfl⟩ := Prod.mk.inj (Option.some.inj h)
        exact .typeMapping _ (Expr.called_iff.2 rfl)
    | capability =>
        obtain ⟨rfl, rfl⟩ := Prod.mk.inj (Option.some.inj h)
        exact .capability ..
    | _ => exact nomatch h
  · intro h
    cases h with
    | host parent body h => rw [defines?, hostNames, forall₂_called_iff.1 h]
    | typeMapping mapping h => rw [defines?, Expr.called_iff.1 h]
    | _ => rfl

/-- The entry of an expression whose node is a definition. -/
structure Expr.Enters (e : Expr) (d : Definition) : Prop where
  defines : e.node.Defines d.kind d.name
  range : d.range = e.range

/-- An expression has an entry if and only if its node is a definition. -/
theorem Expr.definition?_eq_some_iff {e : Expr} {d : Definition} :
    e.definition? = some d ↔ e.Enters d := by
  obtain ⟨kind, name, range⟩ := d
  rw [definition?, Option.map_eq_some_iff]
  constructor
  · rintro ⟨⟨kind', name'⟩, hnode, heq⟩
    obtain ⟨rfl, rfl, rfl⟩ := Definition.mk.inj heq
    exact ⟨Node.defines?_eq_some_iff.1 hnode, rfl⟩
  · rintro ⟨hdefines, rfl⟩
    exact ⟨(kind, name), Node.defines?_eq_some_iff.2 hdefines, rfl⟩

/-! ## Comparing names -/

/-- The characters are one, or the capital and the small form of one ASCII letter. -/
def SameLetter (c d : Char) : Prop :=
  c = d ∨ (c.isUpper ∧ d.toNat = c.toNat + 32) ∨ (d.isUpper ∧ c.toNat = d.toNat + 32)

/-- The names differ at most in the case of ASCII letters. -/
def AlikeNames (a b : String) : Prop := List.Forall₂ SameLetter a.toList b.toList

/-- The capitals of ASCII. -/
theorem isUpper_iff {c : Char} : c.isUpper ↔ 65 ≤ c.toNat ∧ c.toNat ≤ 90 :=
  decide_eq_true_iff

/-- Capitals are 32 before their small letters. -/
theorem toNat_toLower (c : Char) :
    c.toLower.toNat = if c.isUpper then c.toNat + 32 else c.toNat := by
  by_cases h : c.isUpper
  · have hle := (isUpper_iff.1 h).2
    have hval : c.toLower.val = c.val + 32 := congrArg Char.val (dif_pos (of_decide_eq_true h))
    rw [if_pos h]
    show c.toLower.val.toNat = c.val.toNat + 32
    rw [hval, UInt32.toNat_add, Nat.mod_eq_of_lt]
    · rfl
    · exact Nat.lt_of_le_of_lt (Nat.add_le_add_right hle 32) (by decide)
  · have hsame : c.toLower = c := dif_neg fun hc => h (decide_eq_true hc)
    rw [if_neg h, hsame]

/-- Two characters have one small form if and only if they are the same letter. -/
theorem toLower_eq_iff {c d : Char} : c.toLower = d.toLower ↔ SameLetter c d := by
  rw [SameLetter, ← Char.toNat_inj, ← Char.toNat_inj, toNat_toLower, toNat_toLower]
  simp only [isUpper_iff]
  split <;> split <;> omega

/-- Names are compared up to the case of letters. -/
theorem sameName_iff {a b : String} : sameName a b = true ↔ AlikeNames a b := by
  rw [sameName, beq_iff_eq, AlikeNames, ← List.forall₂_eq_eq_eq, List.forall₂_map_left_iff,
    List.forall₂_map_right_iff]
  simp only [toLower_eq_iff]

end Manifest
