import Manifest.Token.Basic
import Mathlib.Algebra.GroupWithZero.Nat

/-!
# Pairs among tokens

The fragments of a string open a pair, separate its parts and close it, and braces make pairs of
their own. Each kind of token has a role in either of the two.

* `depthAfter` — how many pairs are open behind some tokens; none when a token separates or closes
  where no pair is open.
* `levelsAfter` — how many braces are open in the interpolations of each string that is open.
* `braces_between` — where the levels are known, the braces between two fragments of a string that
  follow one another are balanced.
-/

namespace Manifest.Token

/-- What a token does to pairs of one sort. -/
inductive Role
  | opening
  | separator
  | closing
  | inert
  deriving DecidableEq, Repr

/-- How many pairs are open behind a token of a role: it separates and closes only inside one. -/
def Role.turn : Role → Nat → Option Nat
  | .opening, n => some (n + 1)
  | .separator, 0 => none
  | .separator, n + 1 => some (n + 1)
  | .closing, 0 => none
  | .closing, n + 1 => some n
  | .inert, n => some n

/-- The fragments of strings. -/
def Kind.stringRole : Kind → Role
  | .stringStart => .opening
  | .stringMiddle => .separator
  | .stringEnd => .closing
  | _ => .inert

/-- Braces, those of a selector included. -/
def Kind.braceRole : Kind → Role
  | .mark .openBrace | .mark .selectorBrace => .opening
  | .mark .closeBrace => .closing
  | _ => .inert

/-- A token of the kind belongs to no pair. -/
def Kind.isInert (k : Kind) : Bool := k.stringRole = .inert && k.braceRole = .inert

/-- How many pairs are open behind the tokens, when `n` are open before them. -/
def depthAfter (role : Kind → Role) (n : Nat) (ts : List Token) : Option Nat :=
  ts.foldlM (fun n t => (role t.kind).turn n) n

/-- How many braces are open in each open string, the innermost one first, behind a token. Where a
fragment goes on with a string, none may be open in it; outside of strings braces do not count. -/
def levelsBehind (levels : List Nat) (t : Token) : Option (List Nat) :=
  match t.kind.stringRole, levels with
  | .opening, ns => some (0 :: ns)
  | .separator, 0 :: ns => some (0 :: ns)
  | .closing, 0 :: ns => some ns
  | .inert, [] => some []
  | .inert, n :: ns => (t.kind.braceRole.turn n).map (· :: ns)
  | _, _ => none

/-- How many braces are open in each open string behind the tokens. -/
def levelsAfter (levels : List Nat) (ts : List Token) : Option (List Nat) :=
  ts.foldlM levelsBehind levels

variable {role : Kind → Role} {k : Kind} {t u : Token} {ts us mid : List Token} {n m : Nat}
  {levels outer top : List Nat}

/-! ## Depths -/

@[simp] theorem depthAfter_nil : depthAfter role n [] = some n := rfl

/-- Tokens change the depth one by one. -/
theorem depthAfter_cons :
    depthAfter role n (t :: ts) = ((role t.kind).turn n).bind (depthAfter role · ts) := rfl

/-- The depth behind tokens in a row. -/
theorem depthAfter_append :
    depthAfter role n (ts ++ us) = (depthAfter role n ts).bind (depthAfter role · us) :=
  List.foldlM_append

/-- A token that belongs to no pair changes no depth. -/
theorem depthAfter_cons_inert (h : role t.kind = .inert) :
    depthAfter role n (t :: ts) = depthAfter role n ts := by
  rw [depthAfter_cons, h]
  rfl

/-- Tokens that begin and end nothing keep the depth. -/
theorem depthAfter_inert (h : ∀ t ∈ ts, role t.kind = .inert) : depthAfter role n ts = some n := by
  induction ts with
  | nil => rfl
  | cons t ts ih =>
      obtain ⟨ht, hts⟩ := List.forall_mem_cons.1 h
      rw [depthAfter_cons_inert ht, ih hts]

/-- Pairs that are open around it do not change what a token does. -/
theorem Role.turn_add {r : Role} (h : r.turn n = some m) (k : Nat) :
    r.turn (n + k) = some (m + k) := by
  cases r with
  | opening =>
      obtain rfl := Option.some.inj h
      exact congrArg some (Nat.add_right_comm n k 1)
  | separator =>
      cases n with
      | zero => exact nomatch h
      | succ n =>
          obtain rfl := Option.some.inj h
          rw [Nat.add_right_comm]
          rfl
  | closing =>
      cases n with
      | zero => exact nomatch h
      | succ n =>
          obtain rfl := Option.some.inj h
          rw [Nat.add_right_comm]
          rfl
  | inert =>
      obtain rfl := Option.some.inj h
      rfl

/-! ## Tokens that belong to no pair -/

/-- What begins and ends nothing does so with strings. -/
theorem Kind.stringRole_of_isInert (h : k.isInert) : k.stringRole = .inert :=
  of_decide_eq_true (Bool.and_eq_true_iff.1 h).1

/-- What begins and ends nothing does so with braces. -/
theorem Kind.braceRole_of_isInert (h : k.isInert) : k.braceRole = .inert :=
  of_decide_eq_true (Bool.and_eq_true_iff.1 h).2

/-- A fragment of a string is no brace. -/
theorem Kind.braceRole_of_stringRole (h : k.stringRole ≠ .inert) : k.braceRole = .inert := by
  cases k with
  | mark m => exact absurd rfl h
  | _ => rfl

/-- A brace is no fragment of a string. -/
theorem Kind.stringRole_of_braceRole (h : k.braceRole ≠ .inert) : k.stringRole = .inert :=
  Decidable.byContradiction fun hne => h (Kind.braceRole_of_stringRole hne)

/-! ## Levels -/

@[simp] theorem levelsAfter_nil : levelsAfter levels [] = some levels := rfl

/-- Tokens change the levels one by one. -/
theorem levelsAfter_cons :
    levelsAfter levels (t :: ts) = (levelsBehind levels t).bind (levelsAfter · ts) := rfl

/-- The levels behind tokens in a row. -/
theorem levelsAfter_append :
    levelsAfter levels (ts ++ us) = (levelsAfter levels ts).bind (levelsAfter · us) :=
  List.foldlM_append

theorem levelsAfter_singleton : levelsAfter levels [t] = levelsBehind levels t := by
  rw [levelsAfter_cons]
  exact Option.bind_fun_some _

/-- A token that begins and ends nothing keeps the levels. -/
theorem levelsBehind_inert (h : t.kind.isInert) : levelsBehind levels t = some levels := by
  unfold levelsBehind
  rw [Kind.stringRole_of_isInert h, Kind.braceRole_of_isInert h]
  cases levels with
  | nil => rfl
  | cons n levels => rfl

/-- Tokens that begin and end nothing keep the levels. -/
theorem levelsAfter_inert (h : ∀ t ∈ ts, t.kind.isInert) : levelsAfter levels ts = some levels := by
  induction ts with
  | nil => rfl
  | cons t ts ih =>
      obtain ⟨ht, hts⟩ := List.forall_mem_cons.1 h
      rw [levelsAfter_cons, levelsBehind_inert ht]
      exact ih hts

/-- A brace counts in the innermost string that is open. -/
theorem levelsBehind_brace (h : t.kind.braceRole ≠ .inert) :
    levelsBehind (n :: levels) t = (t.kind.braceRole.turn n).map (· :: levels) := by
  unfold levelsBehind
  rw [Kind.stringRole_of_braceRole h]

/-- Outside of strings a brace does not count. -/
theorem levelsBehind_outside (h : t.kind.stringRole = .inert) : levelsBehind [] t = some [] := by
  unfold levelsBehind
  rw [h]

/-- The levels behind a list are known, so they are behind each of its fronts. -/
theorem exists_levelsAfter_left (h : levelsAfter levels (ts ++ us) = some outer) :
    ∃ ns, levelsAfter levels ts = some ns ∧ levelsAfter ns us = some outer := by
  rw [levelsAfter_append] at h
  exact Option.bind_eq_some_iff.1 h

/-! ## From levels to depths -/

/-- The strings that are open above some others hold all the braces that are open in them. -/
theorem levelsBehind_spec (h : levelsBehind (top ++ outer) t = some levels)
    (htop : top.length = n + 1) (hturn : t.kind.stringRole.turn n = some m) :
    ∃ top', levels = top' ++ outer ∧ top'.length = m + 1 ∧
      t.kind.braceRole.turn top.sum = some top'.sum := by
  obtain ⟨k, top, rfl⟩ := List.exists_cons_of_length_eq_add_one htop
  unfold levelsBehind at h
  -- above `outer` there is one level more than strings are open
  cases hrole : t.kind.stringRole with
  | opening =>
      rw [hrole] at h hturn
      obtain rfl := Option.some.inj h
      obtain rfl := Option.some.inj hturn
      rw [Kind.braceRole_of_stringRole (by rw [hrole]; exact nofun)]
      refine ⟨0 :: k :: top, rfl, by rw [List.length_cons, htop], ?_⟩
      rw [List.sum_cons (a := 0), Nat.zero_add]
      rfl
  | separator =>
      rw [hrole] at h hturn
      cases k with
      | succ k => exact nomatch h
      | zero =>
          obtain rfl := Option.some.inj h
          cases n with
          | zero => exact nomatch hturn
          | succ n =>
              obtain rfl := Option.some.inj hturn
              rw [Kind.braceRole_of_stringRole (by rw [hrole]; exact nofun)]
              exact ⟨0 :: top, rfl, htop, rfl⟩
  | closing =>
      rw [hrole] at h hturn
      cases k with
      | succ k => exact nomatch h
      | zero =>
          obtain rfl := Option.some.inj h
          cases n with
          | zero => exact nomatch hturn
          | succ n =>
              obtain rfl := Option.some.inj hturn
              rw [Kind.braceRole_of_stringRole (by rw [hrole]; exact nofun), List.sum_cons,
                Nat.zero_add]
              exact ⟨top, rfl, Nat.succ.inj htop, rfl⟩
  | inert =>
      rw [hrole] at h hturn
      obtain rfl := Option.some.inj hturn
      -- braces count on the innermost level alone
      obtain ⟨k', hk', rfl⟩ := Option.map_eq_some_iff.1 h
      refine ⟨k' :: top, rfl, htop, ?_⟩
      rw [List.sum_cons, List.sum_cons]
      exact Role.turn_add hk' top.sum

/-- What lies below the levels is kept, and the braces of each level are counted on their own. -/
theorem levelsAfter_spec (h : levelsAfter (top ++ outer) ts = some levels)
    (htop : top.length = n + 1) (hdepth : depthAfter Kind.stringRole n ts = some m) :
    ∃ top', levels = top' ++ outer ∧ top'.length = m + 1 ∧
      depthAfter Kind.braceRole top.sum ts = some top'.sum := by
  induction ts generalizing top n with
  | nil =>
      obtain rfl := Option.some.inj h
      obtain rfl := Option.some.inj hdepth
      exact ⟨top, rfl, htop, rfl⟩
  | cons t ts ih =>
      rw [levelsAfter_cons] at h
      rw [depthAfter_cons] at hdepth
      obtain ⟨levels₁, hbehind, h⟩ := Option.bind_eq_some_iff.1 h
      obtain ⟨n₁, hturn, hdepth⟩ := Option.bind_eq_some_iff.1 hdepth
      obtain ⟨top₁, rfl, htop₁, hbraces⟩ := levelsBehind_spec hbehind htop hturn
      obtain ⟨top', hlevels, htop', hrest⟩ := ih h htop₁ hdepth
      refine ⟨top', hlevels, htop', ?_⟩
      rw [depthAfter_cons, hbraces]
      exact hrest

/-! ## Fragments that follow one another -/

/-- The two tokens are fragments of one string, and all strings between them are closed there. -/
structure Adjoin (t : Token) (mid : List Token) (u : Token) : Prop where
  first : t.kind = .stringStart ∨ t.kind = .stringMiddle
  next : u.kind = .stringMiddle ∨ u.kind = .stringEnd
  closed : depthAfter Kind.stringRole 0 mid = some 0

instance : Decidable (Adjoin t mid u) :=
  decidable_of_iff (_ ∧ _ ∧ _) ⟨fun h => ⟨h.1, h.2.1, h.2.2⟩, fun h => ⟨h.1, h.2, h.3⟩⟩

/-- In the string that a fragment belongs to, no brace is open behind it. -/
theorem levelsBehind_of_first (h : levelsBehind levels t = some outer)
    (ht : t.kind = .stringStart ∨ t.kind = .stringMiddle) : ∃ ns, outer = 0 :: ns := by
  unfold levelsBehind at h
  rcases ht with ht | ht
  · rw [ht] at h
    exact ⟨levels, (Option.some.inj h).symm⟩
  · rw [ht] at h
    rcases levels with - | ⟨- | n, ns⟩
    · exact nomatch h
    · exact ⟨ns, (Option.some.inj h).symm⟩
    · exact nomatch h

/-- Nor is one open before the next fragment. -/
theorem eq_zero_of_next (h : levelsBehind (n :: levels) u = some outer)
    (hu : u.kind = .stringMiddle ∨ u.kind = .stringEnd) : n = 0 := by
  cases n with
  | zero => rfl
  | succ n =>
      unfold levelsBehind at h
      rcases hu with hu | hu
      · rw [hu] at h
        exact nomatch h
      · rw [hu] at h
        exact nomatch h

/-- Between two fragments of a string that follow one another, the braces are balanced. -/
theorem braces_between (h : levelsAfter levels (ts ++ t :: mid ++ [u]) = some outer)
    (hadjoin : Adjoin t mid u) : depthAfter Kind.braceRole 0 mid = some 0 := by
  obtain ⟨levels₂, h, hnext⟩ := exists_levelsAfter_left h
  obtain ⟨levels₁, -, h⟩ := exists_levelsAfter_left h
  rw [levelsAfter_cons] at h
  obtain ⟨levels₁, hfirst, hmid⟩ := Option.bind_eq_some_iff.1 h
  obtain ⟨ns, rfl⟩ := levelsBehind_of_first hfirst hadjoin.first
  replace hmid : levelsAfter ([0] ++ ns) mid = some levels₂ := hmid
  obtain ⟨top, rfl, htop, hbraces⟩ := levelsAfter_spec hmid rfl hadjoin.closed
  obtain ⟨k, rfl⟩ := List.length_eq_one_iff.1 htop
  rw [levelsAfter_singleton] at hnext
  obtain rfl := eq_zero_of_next hnext hadjoin.next
  exact hbraces

end Manifest.Token
