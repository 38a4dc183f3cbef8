import Manifest.Proofs.Quote.Run

/-!
# Raw text

In text without escapes a backslash stands for itself, also before a dollar sign. A run of it says
what stands in the text up to the next dollar sign, or up to the end.

* `Raw` — what a run of raw text says.
* `raw_of_collect` — every raw text begins with such a run.
-/

namespace Manifest.Quote

open Text (byteLength byteLength_append)

variable {offset size : Nat} {cs : List Char} {run : Run}

/-- The run says what stands in the text up to a dollar sign or the end. -/
inductive Raw (offset : Nat) : List Char → Run → Prop
  | dollar {body rest : List Char} (hbody : '$' ∉ body) (hrest : rest.head? ≠ some '{') :
      Raw offset (body ++ '$' :: rest) ⟨body, .dollar, offset + byteLength body + 1⟩
  | dollarBrace {body : List Char} (hbody : '$' ∉ body) (rest : List Char) :
      Raw offset (body ++ '$' :: '{' :: rest) ⟨body, .dollarBrace, offset + byteLength body + 2⟩
  | endOfText {body : List Char} (hbody : '$' ∉ body) :
      Raw offset body ⟨body, .endOfText, offset + byteLength body⟩

/-- A raw text begins with a run. -/
def BeginsRaw (offset : Nat) (cs : List Char) (r : Collected) : Prop :=
  ∃ run, r.run = .ok run ∧ Raw offset cs run

/-- Characters that are no dollar signs stand before a run. -/
theorem BeginsRaw.push {r : Collected} (ds : List Char) (hds : '$' ∉ ds)
    (hsize : byteLength ds = size)
    (h : BeginsRaw (offset + size) cs r) : BeginsRaw offset (ds ++ cs) (r.push ds) := by
  obtain ⟨run, hrun, hraw⟩ := h
  refine ⟨{ run with text := ds ++ run.text }, by rw [Collected.push, hrun]; rfl, ?_⟩
  have hnext : ∀ body : List Char,
      offset + size + byteLength body = offset + byteLength (ds ++ body) := by
    intro body
    rw [byteLength_append, hsize, Nat.add_assoc]
  have hmem : ∀ {body : List Char}, '$' ∉ body → '$' ∉ ds ++ body :=
    fun hbody h => (List.mem_append.1 h).elim hds hbody
  cases hraw with
  | dollar hbody hrest =>
      rw [← List.append_assoc, hnext]
      exact .dollar (hmem hbody) hrest
  | dollarBrace hbody rest =>
      rw [← List.append_assoc, hnext]
      exact .dollarBrace (hmem hbody) rest
  | endOfText hbody =>
      rw [hnext]
      exact .endOfText (hmem hbody)

/-- Raw text is collected as it stands. -/
theorem beginsRaw_collect (cs : List Char) (offset : Nat) :
    BeginsRaw offset cs (collect .rawText .none offset cs) := by
  fun_induction collect .rawText .none offset cs with
  | case1 offset h => exact absurd h (by decide)
  | case2 => exact ⟨_, rfl, .endOfText List.not_mem_nil⟩
  | case3 offset ih => exact ih.push ['\\'] (by decide) rfl
  -- no escape has a meaning
  | case4 offset cs h => exact absurd (not_allows_none '\n') (by rw [h]; exact Bool.false_ne_true)
  | case5 offset cs _ ih =>
      rw [BeginsRaw, Collected.note_run]
      exact ih.push ['\\', '\r'] (by decide) rfl
  | case6 offset c cs _ _ ih => exact ih.push ['\\'] (by decide) rfl
  | case7 offset c cs _ hdollar _ ih =>
      have hc : '$' ∉ ['\\', c] := by
        intro h
        rcases List.mem_cons.1 h with h | h
        · exact absurd h (by decide)
        · obtain rfl := List.mem_singleton.1 h
          exact hdollar rfl
      rw [BeginsRaw, Collected.note_run]
      rw [Nat.add_assoc] at ih ⊢
      exact ih.push _ hc rfl
  | case8 _ _ _ _ _ _ _ h => exact absurd (not_allows_none _) h
  | case9 _ _ _ _ _ h => exact absurd (not_allows_none _) h
  | case10 _ _ _ _ h => exact absurd (not_allows_none _) h
  | case11 _ _ _ _ _ h => exact absurd (not_allows_none _) h
  -- what stops a run is a dollar sign
  | case12 offset c cs _ _ _ h => exact absurd h.symm (Option.some_ne_none c)
  | case13 offset c cs _ _ _ _ hdollar hhead =>
      obtain rfl := of_decide_eq_true (Bool.and_eq_true_iff.1 hdollar).1
      obtain ⟨rest, rfl⟩ := List.head?_eq_some_iff.1 hhead
      exact ⟨_, rfl, .dollarBrace List.not_mem_nil rest⟩
  | case14 offset c cs _ _ _ _ hdollar hhead =>
      obtain rfl := of_decide_eq_true (Bool.and_eq_true_iff.1 hdollar).1
      exact ⟨_, rfl, .dollar List.not_mem_nil hhead⟩
  | case15 offset c cs _ _ _ _ hdollar ih =>
      have hc : '$' ∉ [c] := by
        intro h
        obtain rfl := List.mem_singleton.1 h
        exact hdollar rfl
      exact ih.push _ hc rfl

/-- Every raw text begins with a run. -/
theorem raw_of_collect (offset : Nat) (h : (collect .rawText .none offset cs).run = .ok run) :
    Raw offset cs run := by
  obtain ⟨run', hrun, hraw⟩ := beginsRaw_collect cs offset
  obtain rfl := Except.ok.inj (hrun.symm.trans h)
  exact hraw

end Manifest.Quote
