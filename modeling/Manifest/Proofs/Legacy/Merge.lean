import Manifest.Proofs.Legacy.Alike

/-!
# Keys of a hash

Entries of a hash with equal keys are merged. A key without interpolations is a text, and the places
play no part in that. The parts of a key with interpolations are trees with places of their own,
which count when keys are compared: two such keys may differ in nothing else.

* `KeysApart` — no two keys of a hash differ in their places alone.
* `erasePairs_mergeAll` — places play no part in what is merged where keys do not differ in them
  alone.
* `alike_mergeAll` — a hash of which this holds, with ranges and without.
-/

namespace Manifest.Legacy

open Text (Source)

variable {α β : Type} {P : Prop} {R : α → β → Prop} {source source' : Option Source} {e : Expr}
  {entries : List (Entry Expr)} {t u : Tree}

/-- What is left of a result without places. -/
def outcome : Except Error Tree → Except Problem Tree
  | .ok t => .ok t.erase
  | .error e => .error e.problem

/-- Alike results have one outcome. -/
theorem outcome_of_alike {x y : Except Error Tree} (h : Alike (Leaves P Tree.erase) x y) (hP : P) :
    outcome x = outcome y := by
  cases h with
  | @ok t u h =>
      obtain rfl : t.erase = u := h hP
      rw [outcome, outcome, erase_erase]
  | error h => exact congrArg Except.error h

/-! ## Keys that differ in more than their places -/

/-- No two of the trees differ in their places alone; what does not count is the places that the
trees have as a whole. -/
def Apart (K : Tree → Prop) : Prop := ∀ t u, K t → K u → t.erase = u.erase → t.node = u.node

variable {K : Tree → Prop} {k v : Tree} {ps : List (Pair Tree)}

/-- Keys that are not told apart by places alone are compared without them. -/
theorem sameNode_erase (hK : Apart K) (ht : K t) (hu : K u) :
    sameNode t.erase.node u.erase.node = sameNode t.node u.node := by
  rw [Bool.eq_iff_iff, sameNode_iff, sameNode_iff]
  constructor
  · intro h
    refine hK t u ht hu ?_
    rw [Tree.erase_eq, Tree.erase_eq, ← Tree.erase_node, ← Tree.erase_node, h]
  · intro h
    rw [Tree.erase_node, Tree.erase_node, h]

/-- Merging such keys and erasing places can be exchanged. -/
theorem erasePairs_merge (hK : Apart K) (hk : K k) (hps : ∀ p ∈ ps, K p.key) :
    erasePairs (merge k v ps) = merge k.erase v.erase (erasePairs ps) := by
  induction ps with
  | nil => rw [merge, erasePairs, erasePairs, erasePairs, merge]
  | cons p ps ih =>
      obtain ⟨l, w⟩ := p
      obtain ⟨hl, hps⟩ := List.forall_mem_cons.1 hps
      rw [merge, erasePairs, merge, sameNode_erase hK hl hk]
      split
      · rw [erasePairs]
      · rw [erasePairs, ih hps]

/-- Merging brings no new keys. -/
theorem merge_keys (hk : K k) (hps : ∀ p ∈ ps, K p.key) : ∀ p ∈ merge k v ps, K p.key := by
  induction ps with
  | nil => exact List.forall_mem_singleton.2 hk
  | cons p ps ih =>
      obtain ⟨hp, hps⟩ := List.forall_mem_cons.1 hps
      rw [merge]
      split
      · exact List.forall_mem_cons.2 ⟨hp, hps⟩
      · exact List.forall_mem_cons.2 ⟨hp, ih hps⟩

/-- Entries are merged without their places when they are with them. -/
theorem erasePairs_mergeAll (hK : Apart K) (hps : ∀ p ∈ ps, K p.key) :
    erasePairs (mergeAll ps) = mergeAll (erasePairs ps) := by
  have hfold : ∀ ms : List (Pair Tree), (∀ p ∈ ms, K p.key) →
      erasePairs (ps.foldl (fun merged p => merge p.key p.value merged) ms) =
        (erasePairs ps).foldl (fun merged p => merge p.key p.value merged) (erasePairs ms) := by
    induction ps with
    | nil =>
        intro ms _
        rw [erasePairs]
        rfl
    | cons p ps ih =>
        intro ms hms
        obtain ⟨l, w⟩ := p
        obtain ⟨hl, hps⟩ := List.forall_mem_cons.1 hps
        rw [erasePairs, List.foldl_cons, List.foldl_cons, ih hps _ (merge_keys hl hms),
          erasePairs_merge hK hl hms]
  exact hfold [] (List.forall_mem_nil _)

/-! ## Keys of expressions -/

/-- A string with interpolations. -/
def isInterpolated (e : Expr) : Bool :=
  match e.node with
  | .items .concatenation _ => true
  | _ => false

/-- No two keys of the hash that are strings with interpolations have legacy forms that differ in
their places alone. -/
def KeysApart (source : Option Source) : Manifest.Node Expr → Prop
  | .hash entries => ∀ p ∈ entries, ∀ q ∈ entries, isInterpolated p.key → isInterpolated q.key →
      ∀ t u, p.key.toLegacy source = .ok t → q.key.toLegacy source = .ok u →
        t.erase = u.erase → t.node = u.node
  | _ => True

/-- What a key can be: a text, or a string with interpolations. -/
inductive KeyForm (source : Option Source) (key : Expr) : Tree → Prop
  | text {s : String} {t : Tree} (ht : t.node = .leaf (.string s)) : KeyForm source key t
  | interpolated {t : Tree} {vs : List Tree} (hkey : isInterpolated key)
      (h : key.toLegacy source = .ok t) (ht : t.node = .items .concatenation vs) :
      KeyForm source key t

/-- The form of a key that could be converted. -/
theorem hashKey_form {key : Expr} (h : hashKey source key (key.toLegacy source) = .ok t) :
    KeyForm source key t := by
  obtain ⟨n, range⟩ := key
  unfold hashKey at h
  split at h
  next s hnode =>
    obtain rfl : n = .leaf (.name s) := hnode
    obtain rfl := Except.ok.inj h
    exact .text rfl
  next s hnode =>
    obtain rfl : n = .leaf (.string s) := hnode
    rw [Expr.toLegacy_leaf] at h
    obtain rfl := Except.ok.inj h
    exact .text rfl
  next es hnode =>
    obtain rfl : n = .items .concatenation es := hnode
    have hform := h
    rw [Expr.toLegacy, Node.toLegacy] at h
    obtain ⟨u, hu⟩ := settle_ok h
    obtain ⟨vs, -, hvs⟩ := bind_ok hu
    obtain rfl := Except.ok.inj hvs
    rw [hu] at h
    obtain rfl := Except.ok.inj h
    exact .interpolated rfl hform rfl
  next => cases h

/-- The tree is a key of the hash. -/
def KeyOf (source : Option Source) (entries : List (Entry Expr)) (t : Tree) : Prop :=
  ∃ entry ∈ entries, hashKey source entry.key (entry.key.toLegacy source) = .ok t

/-- A text differs from another key in more than places. -/
theorem apart_keyOf (hapart : KeysApart source (.hash entries)) : Apart (KeyOf source entries) := by
  rintro t u ⟨p, hp, ht⟩ ⟨q, hq, hu⟩ herase
  have hnode : t.node.erase = u.node.erase := by
    rw [← Tree.erase_node, ← Tree.erase_node, herase]
  cases hashKey_form ht with
  | text htext =>
      cases hashKey_form hu with
      | text hutext =>
          rw [htext, hutext, Node.erase, Node.erase] at hnode
          rw [htext, hutext, hnode]
      | interpolated _ _ hitems =>
          rw [htext, hitems, Node.erase, Node.erase] at hnode
          cases hnode
  | interpolated hpkey hpform hitems =>
      cases hashKey_form hu with
      | text hutext =>
          rw [hitems, hutext, Node.erase, Node.erase] at hnode
          cases hnode
      | interpolated hqkey hqform => exact hapart p hp q hq hpkey hqkey t u hpform hqform herase

/-- The keys of a hash are those of its entries. -/
theorem hashLegacy_keys {ps : List (Pair Tree)} (h : hashLegacy source entries = .ok ps) :
    ∀ p ∈ ps, KeyOf source entries p.key := by
  induction entries generalizing ps with
  | nil =>
      rw [hashLegacy] at h
      obtain rfl := Except.ok.inj h
      exact List.forall_mem_nil _
  | cons entry entries ih =>
      obtain ⟨key, value, range⟩ := entry
      rw [hashLegacy] at h
      obtain ⟨k, hk, h⟩ := bind_ok h
      obtain ⟨v, -, h⟩ := bind_ok h
      obtain ⟨qs, hqs, h⟩ := bind_ok h
      obtain rfl := Except.ok.inj h
      refine List.forall_mem_cons.2 ⟨⟨_, List.mem_cons_self, hk⟩, fun q hq => ?_⟩
      obtain ⟨entry, hentry, hkey⟩ := ih hqs q hq
      exact ⟨entry, List.mem_cons_of_mem _ hentry, hkey⟩

/-! ## Hashes with ranges and without -/

theorem alike_hashKey {key : Expr} (h : Agrees P source key) :
    Alike (Leaves P Tree.erase) (hashKey source key (key.toLegacy source))
      (hashKey source' key.bare (key.bare.toLegacy source')) := by
  have htext := (h source').1
  have hlabel := key.label_bare
  have hnode := key.bare_node
  unfold hashKey
  rw [hnode, hlabel, key.bare_range]
  generalize key.toLegacy source = x at htext
  generalize key.bare.toLegacy source' = y at htext
  cases key.node with
  | leaf l =>
      rw [Manifest.Node.bare]
      cases l with
      | name s => exact .ok (leaves_stamp (leaves_leaf _))
      | string s => exact htext
      | _ => exact alike_refuseAt _
  | items sequence es =>
      rw [Manifest.Node.bare]
      cases sequence with
      | concatenation => exact htext
      | _ => exact alike_refuseAt _
  | _ =>
      rw [Manifest.Node.bare]
      exact alike_refuseAt _

/-- Hashes are converted alike. -/
theorem alike_hash (h : AllAgree P source (entries.flatMap Entry.children)) :
    Alike (Leaves P erasePairs) (hashLegacy source entries)
      (hashLegacy source' (bareEntries entries)) := by
  induction entries with
  | nil =>
      rw [bareEntries, hashLegacy, hashLegacy]
      exact .ok fun _ => rfl
  | cons entry entries ih =>
      obtain ⟨hkey, hvalue, hentries⟩ := h.entries_cons
      obtain ⟨key, value, range⟩ := entry
      rw [bareEntries, hashLegacy, hashLegacy]
      refine alike_bind (alike_hashKey hkey) fun k l hk =>
        alike_bind hvalue.toLegacy fun v w hv => ?_
      refine alike_bind (ih hentries) fun ps qs hps => .ok fun hP => ?_
      rw [erasePairs, hk hP, hv hP, hps hP]

/-- What is known of the first value of two results that agree. -/
theorem Alike.and_ok {Q : α → Prop} {x : Except Error α} {y : Except Error β} (h : Alike R x y)
    (hQ : ∀ a, x = .ok a → Q a) : Alike (fun a b => R a b ∧ Q a) x y := by
  cases h with
  | ok h => exact .ok ⟨h, hQ _ rfl⟩
  | error h => exact .error h

/-- Equal keys of a hash are merged with ranges when they are without. -/
theorem alike_mergeAll (h : AllAgree P source (entries.flatMap Entry.children))
    (hapart : P → KeysApart source (.hash entries)) :
    Alike (Leaves P Tree.erase) (Node.toLegacy source (.hash entries))
      (Node.toLegacy source' (Manifest.Node.bare (.hash entries))) := by
  rw [Manifest.Node.bare, Node.toLegacy, Node.toLegacy]
  refine alike_bind ((alike_hash h).and_ok fun _ => hashLegacy_keys) fun ps qs hps => ?_
  refine .ok fun hP => ?_
  rw [Tree.ofNode, Tree.erase, Node.erase, erasePairs_mergeAll (apart_keyOf (hapart hP)) hps.2,
    hps.1 hP, Tree.ofNode]

end Manifest.Legacy
