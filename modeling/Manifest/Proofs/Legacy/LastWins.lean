import Mathlib.Data.List.Forall2
import Mathlib.Data.List.Pairwise
import Manifest.Build.Material
import Manifest.Proofs.Legacy.Erasure
import Manifest.Proofs.Legacy.Refusal

/-!
# Hashes with repeated keys

A hash whose keys are names and plain strings is converted to one entry for each text that is a key.
The entries stand in the order in which the texts come up first, and each has the value that its
text is given last. A map of materials becomes a hash with its keys in order, and sorting does not
change the order of values that are given to one text: so the value given last is still the last.

* `LastWins` — what the entries of a converted hash are.
* `LastWins.merge`, `lastWins_mergeAll` — one value more is given, and a whole row of values.
* `filter_sortKeys` — what a text is given is not changed by sorting.
* `hash_lastWins` — converted hashes and maps.
-/

namespace Manifest.Legacy

open Text (Range Source)
open Build (sortKeys)

variable {α : Type} {value : α → Tree → Prop} {given : List (String × α)} {texts : List String}
  {ps : List (Pair Tree)} {p : Pair Tree} {s t : String} {a : α} {k v : Tree}
  {source : Option Source}

/-! ## What a text is given -/

/-- The value that a text is given last. -/
def lastValue? (s : String) (given : List (String × α)) : Option α :=
  (given.filter (·.1 == s)).getLast?.map Prod.snd

/-- A value given later is the last one of its text. -/
theorem lastValue?_concat (s t : String) (a : α) (given : List (String × α)) :
    lastValue? s (given ++ [(t, a)]) = if t = s then some a else lastValue? s given := by
  unfold lastValue?
  by_cases h : t = s
  · simp [h]
  · simp [h]

/-- The entry has the text for a key and the value for a value. -/
def Told (value : α → Tree → Prop) (p : Pair Tree) (given : String × α) : Prop :=
  p.key.node = .leaf (.string given.1) ∧ value given.2 p.value

/-- The entry has the text for a key, and the value that the text is given last. -/
def ToldLast (value : α → Tree → Prop) (given : List (String × α)) (p : Pair Tree) (s : String) :
    Prop :=
  p.key.node = .leaf (.string s) ∧ ∃ a, lastValue? s given = some a ∧ value a p.value

/-- The entries of a hash for texts that are given values: one for each text, with the value that
the text is given last. -/
structure LastWins (value : α → Tree → Prop) (given : List (String × α)) (texts : List String)
    (ps : List (Pair Tree)) : Prop where
  distinct : texts.Nodup
  entries : List.Forall₂ (ToldLast value given) ps texts

/-! ## One value more -/

/-- Strings are compared by their texts. -/
theorem sameNode_texts (s t : String) :
    sameNode (.leaf (.string s)) (.leaf (.string t)) ↔ s = t := by
  rw [sameNode_iff]
  constructor
  · intro h
    injection h with h
    injection h
  · intro h
    rw [h]

/-- What is given for another text changes nothing. -/
theorem ToldLast.other (h : ToldLast value given p t) (hst : s ≠ t) :
    ToldLast value (given ++ [(s, a)]) p t := by
  obtain ⟨hkey, hvalue⟩ := h
  refine ⟨hkey, ?_⟩
  rw [lastValue?_concat, if_neg hst]
  exact hvalue

/-- What is given for the text is its last value. -/
theorem ToldLast.last (hk : k.node = .leaf (.string s)) (hv : value a v) :
    ToldLast value (given ++ [(s, a)]) ⟨k, v⟩ s := by
  refine ⟨hk, a, ?_, hv⟩
  rw [lastValue?_concat, if_pos rfl]

/-- Entries for other texts stay what they are. -/
theorem toldLast_others (h : List.Forall₂ (ToldLast value given) ps texts) (hs : s ∉ texts) :
    List.Forall₂ (ToldLast value (given ++ [(s, a)])) ps texts := by
  induction h with
  | nil => exact .nil
  | cons hp hps ih =>
      obtain ⟨hst, hs⟩ := List.ne_and_not_mem_of_not_mem_cons hs
      exact .cons (hp.other hst) (ih hs)

/-- The texts, with one more at the end unless it is there already. -/
def addText (s : String) (texts : List String) : List String :=
  if s ∈ texts then texts else texts ++ [s]

/-- A text that was given before keeps its place. -/
theorem addText_mem (h : s ∈ texts) : addText s texts = texts := if_pos h

theorem addText_cons (hst : s ≠ t) (texts : List String) :
    addText s (t :: texts) = t :: addText s texts := by
  unfold addText
  by_cases hs : s ∈ texts
  · simp [hs]
  · simp [hs, hst]

/-- Texts stay distinct. -/
theorem nodup_addText (s : String) (h : texts.Nodup) : (addText s texts).Nodup := by
  unfold addText
  by_cases hs : s ∈ texts
  · rw [if_pos hs]
    exact h
  · rw [if_neg hs]
    refine List.nodup_append.2 ⟨h, by simp, ?_⟩
    rintro t ht u hu rfl
    exact hs (List.mem_singleton.1 hu ▸ ht)

/-- A key that is there already stays where it is, and another one comes last. -/
theorem toldLast_merge (hk : k.node = .leaf (.string s)) (hv : value a v) (hnodup : texts.Nodup)
    (h : List.Forall₂ (ToldLast value given) ps texts) :
    List.Forall₂ (ToldLast value (given ++ [(s, a)])) (merge k v ps) (addText s texts) := by
  induction h with
  | nil => exact .cons (.last hk hv) .nil
  | @cons p t ps texts hp hps ih =>
      obtain ⟨hnew, hnodup⟩ := List.nodup_cons.1 hnodup
      rw [merge, hp.1, hk]
      -- either this entry has the text and takes the value, or the text is looked for behind it
      by_cases hst : s = t
      · subst hst
        rw [if_pos ((sameNode_texts s s).2 rfl), addText_mem List.mem_cons_self]
        exact .cons (.last hp.1 hv) (toldLast_others hps hnew)
      · rw [if_neg fun h => hst ((sameNode_texts t s).1 h).symm, addText_cons hst]
        exact .cons (hp.other hst) (ih hnodup)

/-- One value more is given: the last one for its text. -/
theorem LastWins.merge (h : LastWins value given texts ps) (hk : k.node = .leaf (.string s))
    (hv : value a v) : LastWins value (given ++ [(s, a)]) (addText s texts) (merge k v ps) where
  distinct := nodup_addText s h.distinct
  entries := toldLast_merge hk hv h.distinct h.entries

/-! ## Values in a row -/

/-- A further text is added behind those that were given before. -/
theorem eraseDups_concat (s : String) (texts : List String) :
    (texts ++ [s]).eraseDups = addText s texts.eraseDups := by
  rw [List.eraseDups_append, addText]
  by_cases h : s ∈ texts
  · simp [List.removeAll, h]
  · simp [List.removeAll, h, List.eraseDups_cons]

/-- Merging gives the entries for all values that are given, from left to right. -/
theorem lastWins_mergeAll (h : List.Forall₂ (Told value) ps given) :
    LastWins value given (given.map Prod.fst).eraseDups (mergeAll ps) := by
  -- what was merged before is `merged`, for the values `done`
  have hrun : ∀ done merged, LastWins value done (done.map Prod.fst).eraseDups merged →
      LastWins value (done ++ given) ((done ++ given).map Prod.fst).eraseDups
        (ps.foldl (fun merged p => merge p.key p.value merged) merged) := by
    induction h with
    | nil =>
        intro done merged hdone
        rw [List.append_nil]
        exact hdone
    | @cons p g ps given hp hps ih =>
        intro done merged hdone
        have hstep := hdone.merge hp.1 hp.2
        rw [← eraseDups_concat] at hstep
        have hrest := ih (done ++ [g]) _ (by simpa using hstep)
        rw [List.append_assoc, List.singleton_append] at hrest
        exact hrest
  exact hrun [] [] ⟨List.nodup_nil, .nil⟩

/-! ## Hashes -/

/-- The text of a key that is a name or a plain string. -/
def keyText? (key : Expr) : Option String :=
  match key.node with
  | .leaf (.name s) | .leaf (.string s) => some s
  | _ => none

/-- The values that a hash gives to texts, in order. -/
def givenValues (entries : List (Entry Expr)) : List (String × Expr) :=
  entries.filterMap fun entry => (keyText? entry.key).map (·, entry.value)

/-- The key of a name or a plain string is its text. -/
theorem hashKey_text (source : Option Source) {key : Expr} (h : keyText? key = some s) :
    ∃ k, hashKey source key (key.toLegacy source) = .ok k ∧ k.node = .leaf (.string s) := by
  obtain ⟨n, range⟩ := key
  unfold keyText? at h
  split at h
  next hnode =>
    obtain rfl : n = .leaf (.name _) := hnode
    cases h
    exact ⟨_, rfl, rfl⟩
  next hnode =>
    obtain rfl : n = .leaf (.string _) := hnode
    cases h
    refine ⟨stamp source range (.ofLeaf (.string s)), ?_, rfl⟩
    unfold hashKey
    rw [Expr.toLegacy_leaf]
    rfl
  next => cases h

/-- The values of a hash are converted in a row, each under the text of its key. -/
theorem hashLegacy_told {entries : List (Entry Expr)}
    (h : ∀ entry ∈ entries,
      (keyText? entry.key).isSome ∧ ∃ v, entry.value.toLegacy source = .ok v) :
    ∃ ps, hashLegacy source entries = .ok ps ∧
      List.Forall₂ (Told fun e v => e.toLegacy source = .ok v) ps (givenValues entries) := by
  induction entries with
  | nil => exact ⟨[], by rw [hashLegacy], .nil⟩
  | cons entry entries ih =>
      obtain ⟨key, value, range⟩ := entry
      obtain ⟨⟨htext, v, hv⟩, hentries⟩ := List.forall_mem_cons.1 h
      obtain ⟨s, hs⟩ := Option.isSome_iff_exists.1 htext
      obtain ⟨k, hk, hnode⟩ := hashKey_text source hs
      obtain ⟨ps, hps, htold⟩ := ih hentries
      refine ⟨⟨k, v⟩ :: ps, ?_, ?_⟩
      · rw [hashLegacy, hk, hv, hps]
        rfl
      · have hgiven : givenValues (⟨key, value, range⟩ :: entries) =
            (s, value) :: givenValues entries := by
          unfold givenValues
          rw [List.filterMap_cons_some]
          simp [hs]
        rw [hgiven]
        exact .cons ⟨hnode, hv⟩ htold

/-- A hash has its entries merged. -/
theorem toLegacy_hash (source : Option Source) (range : Option Range)
    {entries : List (Entry Expr)} (h : hashLegacy source entries = .ok ps) :
    (⟨.hash entries, range⟩ : Expr).toLegacy source =
      .ok (stamp source range (.ofNode (.hash (mergeAll ps)))) := by
  rw [Expr.toLegacy, Node.toLegacy, h]
  rfl

/-! ## Sorting -/

/-- Whether one entry may stand before another in a sorted map. -/
def keyLe (x y : String × α) : Bool := decide (x.1 ≤ y.1)

/-- Keys are put in order. -/
theorem keyLe_trans (x y z : String × α) (hxy : keyLe x y) (hyz : keyLe y z) : keyLe x z :=
  decide_eq_true (String.le_trans (of_decide_eq_true hxy) (of_decide_eq_true hyz))

theorem keyLe_total (x y : String × α) : keyLe x y || keyLe y x := by
  rw [Bool.or_eq_true]
  exact (String.le_total x.1 y.1).imp decide_eq_true decide_eq_true

theorem sortKeys_eq (ms : List (String × α)) : sortKeys ms = ms.mergeSort keyLe := rfl

theorem sortKeys_perm (ms : List (String × α)) : (sortKeys ms).Perm ms := List.mergeSort_perm ms _

/-- Sorted keys ascend. -/
theorem pairwise_sortKeys (ms : List (String × α)) :
    ((sortKeys ms).map Prod.fst).Pairwise (· ≤ ·) := by
  rw [sortKeys_eq, List.pairwise_map]
  exact (List.pairwise_mergeSort keyLe_trans keyLe_total ms).imp of_decide_eq_true

/-- The values given to one text are in order already, so that sorting leaves them as they are. -/
theorem filter_sortKeys (s : String) (ms : List (String × α)) :
    (sortKeys ms).filter (·.1 == s) = ms.filter (·.1 == s) := by
  have hordered : (ms.filter (·.1 == s)).Pairwise fun x y => keyLe x y := by
    refine List.pairwise_of_forall_mem_list fun x hx y hy => ?_
    have hkeys : x.1 = y.1 := by
      rw [eq_of_beq (List.mem_filter.1 hx).2, eq_of_beq (List.mem_filter.1 hy).2]
    exact decide_eq_true (hkeys ▸ String.le_refl x.1)
  -- what is in order stays together in the sorted list, and nothing is added to it there
  have hsublist : (ms.filter (·.1 == s)).Sublist ((sortKeys ms).filter (·.1 == s)) := by
    have h := (List.sublist_mergeSort keyLe_trans keyLe_total hordered List.filter_sublist).filter
      (·.1 == s)
    rw [List.filter_filter] at h
    simpa [sortKeys_eq] using h
  exact (hsublist.eq_of_length ((sortKeys_perm ms).filter _).length_eq.symm).symm

/-- Sorting keeps the last value of each text, since it is stable. -/
theorem lastValue?_sortKeys (s : String) (ms : List (String × α)) :
    lastValue? s (sortKeys ms) = lastValue? s ms := by
  unfold lastValue?
  rw [filter_sortKeys]

/-! ## Maps -/

/-- The material makes an expression that has the legacy form. -/
def MakesLegacy (source : Option Source) (m : Material) (t : Tree) : Prop :=
  ∃ e, m.toExpr = .ok e ∧ e.toLegacy source = .ok t

/-- Keys may be sorted before or after their values are built. -/
theorem toValues_sortKeys (ms : List (String × Material)) :
    sortKeys (Material.toValues ms) = Material.toValues (sortKeys ms) := by
  have hmap : ∀ ms, Material.toValues ms = ms.map fun m => (m.1, m.2.toExpr) := by
    intro ms
    induction ms with
    | nil => rw [Material.toValues, List.map_nil]
    | cons m ms ih => rw [Material.toValues, ih, List.map_cons]
  rw [hmap, hmap, sortKeys_eq, sortKeys_eq]
  refine (List.map_mergeSort ?_).symm
  intro x _ y _
  rfl

/-- The values of a map are converted in a row, each under its key. -/
theorem keyed_told {ms : List (String × Material)} (h : ∀ m ∈ ms, ∃ t, MakesLegacy source m.2 t) :
    ∃ entries ps, Build.keyed (Material.toValues ms) = .ok entries ∧
      hashLegacy source entries = .ok ps ∧ List.Forall₂ (Told (MakesLegacy source)) ps ms := by
  induction ms with
  | nil =>
      refine ⟨[], [], ?_, ?_, .nil⟩
      · rw [Material.toValues, Build.keyed]
      · rw [hashLegacy]
  | cons m ms ih =>
      obtain ⟨⟨t, e, he, ht⟩, hms⟩ := List.forall_mem_cons.1 h
      obtain ⟨entries, ps, hentries, hps, htold⟩ := ih hms
      obtain ⟨k, hk, hnode⟩ : ∃ k, hashKey source (.ofLeaf (.string m.1))
          (Expr.toLegacy source (.ofLeaf (.string m.1))) = .ok k ∧ k.node = .leaf (.string m.1) :=
        hashKey_text source rfl
      refine ⟨⟨.ofLeaf (.string m.1), e, none⟩ :: entries, ⟨k, t⟩ :: ps, ?_, ?_, ?_⟩
      · rw [Material.toValues, he, Build.keyed.eq_def]
        dsimp only
        rw [hentries]
        rfl
      · rw [hashLegacy, hk, ht, hps]
        rfl
      · exact .cons ⟨hnode, e, he, ht⟩ htold

/-- The entries that sorted values make are those for the values as they were given. -/
theorem LastWins.sorted {ms : List (String × α)} (h : LastWins value (sortKeys ms) texts ps) :
    LastWins value ms texts ps where
  distinct := h.distinct
  entries := h.entries.imp fun p s hps => by
    unfold ToldLast at hps
    rwa [lastValue?_sortKeys] at hps

/-- Texts in order, each once. -/
theorem pairwise_eraseDups :
    ∀ {texts : List String}, texts.Pairwise (· ≤ ·) → texts.eraseDups.Pairwise (· < ·)
  | [], _ => .nil
  | s :: texts, h => by
      have hfilter := List.length_filter_le (fun t => !t == s) texts
      obtain ⟨hs, htexts⟩ := List.pairwise_cons.1 h
      rw [List.eraseDups_cons]
      refine .cons ?_ (pairwise_eraseDups (htexts.filter _))
      intro t ht
      obtain ⟨hmem, hne⟩ := List.mem_filter.1 (List.mem_eraseDups.1 ht)
      exact Std.lt_of_le_of_ne (hs t hmem) fun hst => by simp [hst] at hne
termination_by texts => texts.length

/-- A hash whose keys are names and plain strings, and whose values can be converted, has one entry
for each text, in the order in which the texts come up first, with the value that the text is given
last. A map whose values can be converted has its entries in the order of the texts. -/
theorem hash_lastWins (source : Option Source) :
    (∀ (entries : List (Entry Expr)) (range : Option Range),
      (∀ entry ∈ entries,
        (keyText? entry.key).isSome ∧ ∃ v, entry.value.toLegacy source = .ok v) →
      ∃ t ps, (⟨.hash entries, range⟩ : Expr).toLegacy source = .ok t ∧ t.node = .hash ps ∧
        LastWins (fun e v => e.toLegacy source = .ok v) (givenValues entries)
          ((givenValues entries).map Prod.fst).eraseDups ps) ∧
    (∀ ms : List (String × Material), (∀ m ∈ ms, ∃ t, MakesLegacy source m.2 t) →
      ∃ t ps texts, MakesLegacy source (.map ms) t ∧ t.node = .hash ps ∧
        texts.Pairwise (· < ·) ∧ (∀ s, s ∈ texts ↔ s ∈ ms.map Prod.fst) ∧
        LastWins (MakesLegacy source) ms texts ps) := by
  constructor
  · intro entries range h
    obtain ⟨ps, hps, htold⟩ := hashLegacy_told h
    exact ⟨_, _, toLegacy_hash source range hps, rfl, lastWins_mergeAll htold⟩
  · intro ms h
    have hsorted : ∀ m ∈ sortKeys ms, ∃ t, MakesLegacy source m.2 t := by
      intro m hm
      exact h m ((sortKeys_perm ms).mem_iff.1 hm)
    obtain ⟨entries, ps, hentries, hps, htold⟩ := keyed_told hsorted
    have hlast := lastWins_mergeAll htold
    refine ⟨_, _, _, ⟨.ofNode (.hash entries), ?_, toLegacy_hash source none hps⟩, rfl,
      pairwise_eraseDups (pairwise_sortKeys ms), ?_, hlast.sorted⟩
    · rw [Material.toExpr, toValues_sortKeys, hentries]
      rfl
    · intro s
      rw [List.mem_eraseDups]
      exact ((sortKeys_perm ms).map Prod.fst).mem_iff

/-- Entries for `a`, `'b'` and `'a'`. -/
def repeatedEntries : List (Entry Expr) :=
  [⟨.ofLeaf (.name "a"), .ofLeaf (.boolean true), none⟩,
    ⟨.ofLeaf (.string "b"), .ofLeaf .undef, none⟩,
    ⟨.ofLeaf (.string "a"), .ofLeaf (.boolean false), none⟩]

/-- Values for `b`, `a` and `b`. -/
def repeatedMaterials : List (String × Material) :=
  [("b", .bool true), ("a", .undef), ("b", .bool false)]

/-- The key `a` is given twice, once as a name and once as a string. -/
theorem hash_lastWins_repeated :
    (∃ t ps, (⟨.hash repeatedEntries, none⟩ : Expr).toLegacy none = .ok t ∧ t.node = .hash ps ∧
      LastWins (fun e v => e.toLegacy none = .ok v) (givenValues repeatedEntries) ["a", "b"] ps) ∧
    (∃ t ps texts, MakesLegacy none (.map repeatedMaterials) t ∧ t.node = .hash ps ∧
      texts.Pairwise (· < ·) ∧ (∀ s, s ∈ texts ↔ s ∈ repeatedMaterials.map Prod.fst) ∧
      LastWins (MakesLegacy none) repeatedMaterials texts ps) := by
  have hleaf : ∀ l u, ofLeaf l = .ok u → ∃ t, Expr.toLegacy none (.ofLeaf l) = .ok t := by
    intro l u h
    exact ⟨stamp none none u, by rw [Expr.ofLeaf, Expr.ofNode, Expr.toLegacy_leaf, h]; rfl⟩
  constructor
  · refine (hash_lastWins none).1 repeatedEntries none ?_
    refine List.forall_mem_cons.2 ⟨⟨rfl, hleaf _ _ rfl⟩, List.forall_mem_cons.2
      ⟨⟨rfl, hleaf _ _ rfl⟩, List.forall_mem_singleton.2 ⟨rfl, hleaf _ _ rfl⟩⟩⟩
  · refine (hash_lastWins none).2 repeatedMaterials ?_
    have hmakes : ∀ l u m, ofLeaf l = .ok u → m.toExpr = .ok (.ofLeaf l) →
        ∃ t, MakesLegacy none m t := by
      intro l u m hu hm
      obtain ⟨t, ht⟩ := hleaf l u hu
      exact ⟨t, _, hm, ht⟩
    refine List.forall_mem_cons.2 ⟨hmakes _ _ _ rfl rfl, List.forall_mem_cons.2
      ⟨hmakes _ _ _ rfl rfl, List.forall_mem_singleton.2 (hmakes _ _ _ rfl rfl)⟩⟩

end Manifest.Legacy
