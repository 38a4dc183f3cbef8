import Manifest.Proofs.Scan.Invariant
import Manifest.Proofs.Scan.Origin

/-!
# Every body is lifted out

The tokens of a scan hold the bodies of its here-docs, at every depth. Each of them belongs to a
here-doc that `Lifted` finds, so that what is said of the positions in such bodies is said of all
bodies that a scan gives.

* `Lifted.under` — a here-doc of a body is one of the text that the body stands in.
* `bodiesLifted_invariant` — the bodies among the tokens of a scan.
-/

namespace Manifest.Scan

variable {s s₀ s' : State} {cs : List Char} {ts us : List Token} {t : Token} {es : List Event}
  {found outer : OpenHereDoc} {depth k : Nat} {origin copied : Nat → Nat → Prop}

/-- The bodies among the tokens are those of here-docs that are found in the text, or at some
depth. -/
def BodiesLifted (s₀ : State) (ts : List Token) : Prop :=
  ∀ t ∈ ts, t.kind = .hereDocBody →
    ∃ depth found origin, Lifted s₀ depth found origin ∧ t.value = .body found.body

/-- Without tokens there are no bodies. -/
theorem bodiesLifted_nil : BodiesLifted s₀ [] := fun _ h => nomatch h

/-- A token that is no body of a here-doc. -/
theorem BodiesLifted.cons (ht : t.kind ≠ .hereDocBody) (h : BodiesLifted s₀ ts) :
    BodiesLifted s₀ (t :: ts) := by
  intro u hu hkind
  rcases List.mem_cons.1 hu with rfl | hu
  · exact absurd hkind ht
  · exact h u hu hkind

theorem BodiesLifted.append (h : BodiesLifted s₀ ts) (h' : BodiesLifted s₀ us) :
    BodiesLifted s₀ (ts ++ us) := by
  intro t ht
  rcases List.mem_append.1 ht with ht | ht
  · exact h t ht
  · exact h' t ht

/-- Plain tokens hold no bodies. -/
theorem Plain.bodiesLifted (h : Plain ts) : BodiesLifted s₀ ts :=
  fun t ht hkind => absurd hkind (h t ht).2

/-- What a rule takes is plain. -/
theorem Took.plain (h : Took s cs ts s') : Plain ts := by
  cases h with
  | skipped => exact plain_nil
  | newline => exact plain_nil
  | token _ _ _ htoken hkind => exact .singleton htoken.inner (ne_of_ofHereDoc hkind).2
  | template _ _ _ _ hplain => exact hplain

/-- A here-doc of a body is one of the text that the body stands in. -/
theorem Lifted.under (houter : Lifted s₀ depth outer origin)
    (h : Lifted (outer.bodyState s₀) k found copied) :
    ∃ origin', Lifted s₀ (depth + k + 1) found origin' := by
  induction h with
  | direct hpath hopening hfound => exact ⟨_, houter.nested hpath hopening hfound⟩
  | nested _ hpath hopening hfound ih =>
      obtain ⟨origin', hinner⟩ := ih
      exact ⟨_, hinner.nested hpath hopening hfound⟩

/-- The body of a here-doc on a path, and the bodies in it. -/
theorem bodiesLifted_hereDoc {s₁ : State} (hsound : s₀.Sound) (hpath : Path s₀ es s)
    (hat : s.At ('@' :: '(' :: cs)) (hfound : takeHereDoc s = .ok found s₁)
    (hinner : BodiesLifted (found.bodyState s₁) ts) : BodiesLifted s₀ (found.tokens s₁ ++ ts) := by
  have hopening : opening? s.template.isSome s.rest = some .hereDoc := by
    rw [hat.rest]
    rfl
  have hlasts := hpath.lasts hsound
  obtain ⟨-, ds, rfl⟩ := takeHereDoc_ok hlasts.sound hat hfound
  have hstate : found.bodyState { s with diagnostics := ds } = found.bodyState s₀ := by
    unfold OpenHereDoc.bodyState
    rw [← hlasts.options]
  have hlifted := Lifted.direct hpath hopening hfound
  refine BodiesLifted.append (.cons nofun ?_) ?_
  · intro t ht _
    obtain rfl := List.mem_singleton.1 ht
    exact ⟨0, found, _, hlifted, rfl⟩
  · intro t ht hkind
    obtain ⟨depth, inner, copied, hunder, hvalue⟩ := hinner t ht hkind
    rw [hstate] at hunder
    obtain ⟨origin, hunder⟩ := hlifted.under hunder
    exact ⟨_, inner, origin, hunder, hvalue⟩

/-- The bodies among the tokens of a scan are those of here-docs in the text, at every depth. -/
theorem bodiesLifted_invariant : TokenInvariant BodiesLifted where
  nil := bodiesLifted_nil
  append := BodiesLifted.append
  frame := by
    intro s₀ t hframe
    refine .cons ?_ bodiesLifted_nil
    intro hkind
    rw [hkind] at hframe
    exact nomatch hframe
  named _ h := .cons nofun fun u hu => h u (List.mem_cons_of_mem _ hu)
  plain := by
    intro s₀ s s' events o ts hsound hpath h hhereDoc hquote htake
    obtain ⟨cs, hat, ho⟩ := at_of_opening (hpath.lasts hsound).sound h
    exact (takePlain_took hat ho hhereDoc hquote htake).plain.bodiesLifted
  hereDoc := bodiesLifted_hereDoc

end Manifest.Scan
