import Manifest.Legacy.Tree

/-!
# Legacy trees without places

* `Tree.erase` — a legacy tree without the places it stems from; no place is left to erase.
* `sameNode_iff` — the equality of legacy trees that is computed is equality.
-/

namespace Manifest.Legacy

mutual

/-- The tree without places. -/
def Tree.erase : Tree → Tree
  | ⟨n, _⟩ => ⟨n.erase, none⟩

/-- The node without places. -/
def Node.erase : Node Tree → Node Tree
  | .leaf l => .leaf l
  | .unary op v => .unary op v.erase
  | .binary op left right => .binary op left.erase right.erase
  | .items sequence vs => .items sequence (eraseEach vs)
  | .access target key => .access target.erase key.erase
  | .reference type titles => .reference type (eraseEach titles)
  | .assignment target value appends => .assignment target.erase value.erase appends
  | .hash entries => .hash (erasePairs entries)
  | .branch test body elseBody => .branch test.erase body.erase (erase? elseBody)
  | .cases test choices => .cases test.erase (eraseChoices choices)
  | .selector subject entries => .selector subject.erase (erasePairs entries)
  | .call name args valueRequired block =>
      .call name (eraseEach args) valueRequired (erase? block)
  | .method receiver name args block =>
      .method receiver.erase name (eraseEach args) (erase? block)
  | .lambda params body => .lambda (eraseArguments params) body.erase
  | .hostClass name params parent body =>
      .hostClass name (eraseArguments params) parent body.erase
  | .definition name params body => .definition name (eraseArguments params) body.erase
  | .hosts names parent body => .hosts (eraseEach names) (erase? parent) body.erase
  | .collection type kind query settings =>
      .collection type kind (erase? query) (eraseSettings settings)
  | .test op left right parens => .test op left.erase right.erase parens

/-- The trees without places. -/
def eraseEach : List Tree → List Tree
  | [] => []
  | v :: vs => v.erase :: eraseEach vs

/-- A tree that may be missing, without places. -/
def erase? : Option Tree → Option Tree
  | none => none
  | some v => some v.erase

/-- The entries without places. -/
def erasePairs : List (Pair Tree) → List (Pair Tree)
  | [] => []
  | ⟨key, value⟩ :: ps => ⟨key.erase, value.erase⟩ :: erasePairs ps

/-- The choices without places. -/
def eraseChoices : List (Choice Tree) → List (Choice Tree)
  | [] => []
  | ⟨values, body⟩ :: cs => ⟨eraseEach values, body.erase⟩ :: eraseChoices cs

/-- The parameters without places. -/
def eraseArguments : List (Argument Tree) → List (Argument Tree)
  | [] => []
  | ⟨name, value⟩ :: ps => ⟨name, erase? value⟩ :: eraseArguments ps

/-- The settings without places. -/
def eraseSettings : List (Setting Tree) → List (Setting Tree)
  | [] => []
  | ⟨name, op, value⟩ :: ss => ⟨name, op, value.erase⟩ :: eraseSettings ss

end

/-- A tree without places has the node without places and no place. -/
theorem Tree.erase_eq (t : Tree) : t.erase = ⟨t.node.erase, none⟩ := by
  obtain ⟨n, a⟩ := t
  rw [Tree.erase]

/-- The node of a tree without places. -/
theorem Tree.erase_node (t : Tree) : t.erase.node = t.node.erase := by
  rw [Tree.erase_eq]

mutual

/-- Places are erased once. -/
theorem erase_erase : ∀ t : Tree, t.erase.erase = t.erase
  | ⟨n, a⟩ => by rw [Tree.erase, Tree.erase, node_erase_erase n]

theorem node_erase_erase : ∀ n : Node Tree, n.erase.erase = n.erase := by
  intro n
  cases n with
  | leaf l => rw [Node.erase, Node.erase]
  | unary op v => rw [Node.erase, Node.erase, erase_erase v]
  | binary op v w => rw [Node.erase, Node.erase, erase_erase v, erase_erase w]
  | items s vs => rw [Node.erase, Node.erase, eraseEach_eraseEach vs]
  | access v k => rw [Node.erase, Node.erase, erase_erase v, erase_erase k]
  | reference s vs => rw [Node.erase, Node.erase, eraseEach_eraseEach vs]
  | assignment v w a => rw [Node.erase, Node.erase, erase_erase v, erase_erase w]
  | hash ps => rw [Node.erase, Node.erase, erasePairs_erasePairs ps]
  | branch v w o =>
      rw [Node.erase, Node.erase, erase_erase v, erase_erase w, erase?_erase? o]
  | cases v cs => rw [Node.erase, Node.erase, erase_erase v, eraseChoices_eraseChoices cs]
  | selector v ps => rw [Node.erase, Node.erase, erase_erase v, erasePairs_erasePairs ps]
  | call s vs a o => rw [Node.erase, Node.erase, eraseEach_eraseEach vs, erase?_erase? o]
  | method v s vs o =>
      rw [Node.erase, Node.erase, erase_erase v, eraseEach_eraseEach vs, erase?_erase? o]
  | lambda ps v =>
      rw [Node.erase, Node.erase, eraseArguments_eraseArguments ps, erase_erase v]
  | hostClass s ps p v =>
      rw [Node.erase, Node.erase, eraseArguments_eraseArguments ps, erase_erase v]
  | definition s ps v =>
      rw [Node.erase, Node.erase, eraseArguments_eraseArguments ps, erase_erase v]
  | hosts vs o v =>
      rw [Node.erase, Node.erase, eraseEach_eraseEach vs, erase?_erase? o, erase_erase v]
  | collection s k o ss =>
      rw [Node.erase, Node.erase, erase?_erase? o, eraseSettings_eraseSettings ss]
  | test op v w a => rw [Node.erase, Node.erase, erase_erase v, erase_erase w]

theorem eraseEach_eraseEach : ∀ vs : List Tree, eraseEach (eraseEach vs) = eraseEach vs
  | [] => by rw [eraseEach, eraseEach]
  | v :: vs => by rw [eraseEach, eraseEach, erase_erase v, eraseEach_eraseEach vs]

theorem erase?_erase? : ∀ o : Option Tree, erase? (erase? o) = erase? o
  | none => by rw [erase?, erase?]
  | some v => by rw [erase?, erase?, erase_erase v]

theorem erasePairs_erasePairs : ∀ ps : List (Pair Tree), erasePairs (erasePairs ps) = erasePairs ps
  | [] => by rw [erasePairs, erasePairs]
  | ⟨k, v⟩ :: ps => by
      rw [erasePairs, erasePairs, erase_erase k, erase_erase v, erasePairs_erasePairs ps]

theorem eraseChoices_eraseChoices :
    ∀ cs : List (Choice Tree), eraseChoices (eraseChoices cs) = eraseChoices cs
  | [] => by rw [eraseChoices, eraseChoices]
  | ⟨vs, v⟩ :: cs => by
      rw [eraseChoices, eraseChoices, eraseEach_eraseEach vs, erase_erase v,
        eraseChoices_eraseChoices cs]

theorem eraseArguments_eraseArguments :
    ∀ ps : List (Argument Tree), eraseArguments (eraseArguments ps) = eraseArguments ps
  | [] => by rw [eraseArguments, eraseArguments]
  | ⟨s, o⟩ :: ps => by
      rw [eraseArguments, eraseArguments, erase?_erase? o, eraseArguments_eraseArguments ps]

theorem eraseSettings_eraseSettings :
    ∀ ss : List (Setting Tree), eraseSettings (eraseSettings ss) = eraseSettings ss
  | [] => by rw [eraseSettings, eraseSettings]
  | ⟨s, op, v⟩ :: ss => by
      rw [eraseSettings, eraseSettings, erase_erase v, eraseSettings_eraseSettings ss]

end

/-! ## Equality -/

mutual

/-- Trees that are compared as equal are equal. -/
theorem eq_of_same : ∀ {t u : Tree}, same t u → t = u
  | ⟨n, a⟩, ⟨m, b⟩, h => by
      rw [same, Bool.and_eq_true, beq_iff_eq] at h
      rw [h.1, eq_of_sameNode h.2]
termination_by t => sizeOf t
decreasing_by
  simp
  omega

theorem eq_of_sameNode : ∀ {n m : Node Tree}, sameNode n m → n = m := by
  intro n m h
  unfold sameNode at h
  split at h
  next a b => rw [eq_of_beq h]
  next p v q w =>
    rw [Bool.and_eq_true, beq_iff_eq] at h
    rw [h.1, eq_of_same h.2]
  next p v₁ v₂ q w₁ w₂ =>
    simp only [Bool.and_eq_true, beq_iff_eq] at h
    rw [h.1.1, eq_of_same h.1.2, eq_of_same h.2]
  next s vs t ws =>
    rw [Bool.and_eq_true, beq_iff_eq] at h
    rw [h.1, eq_of_sameTrees h.2]
  next v k w l =>
    rw [Bool.and_eq_true] at h
    rw [eq_of_same h.1, eq_of_same h.2]
  next s vs t ws =>
    rw [Bool.and_eq_true, beq_iff_eq] at h
    rw [h.1, eq_of_sameTrees h.2]
  next v₁ v₂ a w₁ w₂ b =>
    simp only [Bool.and_eq_true, beq_iff_eq] at h
    rw [eq_of_same h.1.1, eq_of_same h.1.2, h.2]
  next ps qs => rw [eq_of_samePairs h]
  next v₁ v₂ v₃ w₁ w₂ w₃ =>
    simp only [Bool.and_eq_true] at h
    rw [eq_of_same h.1.1, eq_of_same h.1.2, eq_of_sameOption h.2]
  next v cs w ds =>
    rw [Bool.and_eq_true] at h
    rw [eq_of_same h.1, eq_of_sameChoices h.2]
  next v ps w qs =>
    rw [Bool.and_eq_true] at h
    rw [eq_of_same h.1, eq_of_samePairs h.2]
  next s vs a v t ws b w =>
    simp only [Bool.and_eq_true, beq_iff_eq] at h
    rw [h.1.1.1, eq_of_sameTrees h.1.1.2, h.1.2, eq_of_sameOption h.2]
  next v₁ s vs v₂ w₁ t ws w₂ =>
    simp only [Bool.and_eq_true, beq_iff_eq] at h
    rw [eq_of_same h.1.1.1, h.1.1.2, eq_of_sameTrees h.1.2, eq_of_sameOption h.2]
  next ps v qs w =>
    rw [Bool.and_eq_true] at h
    rw [eq_of_sameArguments h.1, eq_of_same h.2]
  next s ps p v t qs q w =>
    simp only [Bool.and_eq_true, beq_iff_eq] at h
    rw [h.1.1.1, eq_of_sameArguments h.1.1.2, h.1.2, eq_of_same h.2]
  next s ps v t qs w =>
    simp only [Bool.and_eq_true, beq_iff_eq] at h
    rw [h.1.1, eq_of_sameArguments h.1.2, eq_of_same h.2]
  next vs v₁ v₂ ws w₁ w₂ =>
    simp only [Bool.and_eq_true] at h
    rw [eq_of_sameTrees h.1.1, eq_of_sameOption h.1.2, eq_of_same h.2]
  next s p v ss t q w ts =>
    simp only [Bool.and_eq_true, beq_iff_eq] at h
    rw [h.1.1.1, h.1.1.2, eq_of_sameOption h.1.2, eq_of_sameSettings h.2]
  next p v₁ v₂ a q w₁ w₂ b =>
    simp only [Bool.and_eq_true, beq_iff_eq] at h
    rw [h.1.1.1, eq_of_same h.1.1.2, eq_of_same h.1.2, h.2]
  next => exact absurd h Bool.false_ne_true
termination_by t => sizeOf t
decreasing_by
  all_goals subst_vars
  all_goals simp
  all_goals omega

theorem eq_of_sameTrees : ∀ {vs ws : List Tree}, sameTrees vs ws → vs = ws := by
  intro vs ws h
  unfold sameTrees at h
  split at h
  next => rfl
  next v vs w ws =>
    rw [Bool.and_eq_true] at h
    rw [eq_of_same h.1, eq_of_sameTrees h.2]
  next => exact absurd h Bool.false_ne_true
termination_by t => sizeOf t
decreasing_by
  all_goals subst_vars
  all_goals simp
  all_goals omega

theorem eq_of_sameOption : ∀ {v w : Option Tree}, sameOption v w → v = w := by
  intro v w h
  unfold sameOption at h
  split at h
  next => rfl
  next v w => rw [eq_of_same h]
  next => exact absurd h Bool.false_ne_true
termination_by t => sizeOf t
decreasing_by
  subst_vars
  simp

theorem eq_of_samePairs : ∀ {ps qs : List (Pair Tree)}, samePairs ps qs → ps = qs := by
  intro ps qs h
  unfold samePairs at h
  split at h
  next => rfl
  next k v ps l w qs =>
    simp only [Bool.and_eq_true] at h
    rw [eq_of_same h.1.1, eq_of_same h.1.2, eq_of_samePairs h.2]
  next => exact absurd h Bool.false_ne_true
termination_by t => sizeOf t
decreasing_by
  all_goals subst_vars
  all_goals simp
  all_goals omega

theorem eq_of_sameChoices : ∀ {cs ds : List (Choice Tree)}, sameChoices cs ds → cs = ds := by
  intro cs ds h
  unfold sameChoices at h
  split at h
  next => rfl
  next vs v cs ws w ds =>
    simp only [Bool.and_eq_true] at h
    rw [eq_of_sameTrees h.1.1, eq_of_same h.1.2, eq_of_sameChoices h.2]
  next => exact absurd h Bool.false_ne_true
termination_by t => sizeOf t
decreasing_by
  all_goals subst_vars
  all_goals simp
  all_goals omega

theorem eq_of_sameArguments : ∀ {ps qs : List (Argument Tree)}, sameArguments ps qs → ps = qs := by
  intro ps qs h
  unfold sameArguments at h
  split at h
  next => rfl
  next s v ps t w qs =>
    simp only [Bool.and_eq_true, beq_iff_eq] at h
    rw [h.1.1, eq_of_sameOption h.1.2, eq_of_sameArguments h.2]
  next => exact absurd h Bool.false_ne_true
termination_by t => sizeOf t
decreasing_by
  all_goals subst_vars
  all_goals simp
  all_goals omega

theorem eq_of_sameSettings : ∀ {ss ts : List (Setting Tree)}, sameSettings ss ts → ss = ts := by
  intro ss ts h
  unfold sameSettings at h
  split at h
  next => rfl
  next s p v ss t q w ts =>
    simp only [Bool.and_eq_true, beq_iff_eq] at h
    rw [h.1.1.1, h.1.1.2, eq_of_same h.1.2, eq_of_sameSettings h.2]
  next => exact absurd h Bool.false_ne_true
termination_by t => sizeOf t
decreasing_by
  all_goals subst_vars
  all_goals simp
  all_goals omega

end

mutual

/-- A tree is compared as equal to itself. -/
theorem same_self : ∀ t : Tree, same t t
  | ⟨n, a⟩ => by rw [same, beq_self_eq_true, Bool.true_and, sameNode_self n]

theorem sameNode_self : ∀ n : Node Tree, sameNode n n := by
  intro n
  cases n with
  | leaf l => rw [sameNode, beq_self_eq_true]
  | unary op v => rw [sameNode, beq_self_eq_true, same_self v]; rfl
  | binary op v w => rw [sameNode, beq_self_eq_true, same_self v, same_self w]; rfl
  | items s vs => rw [sameNode, beq_self_eq_true, sameTrees_self vs]; rfl
  | access v k => rw [sameNode, same_self v, same_self k]; rfl
  | reference s vs => rw [sameNode, beq_self_eq_true, sameTrees_self vs]; rfl
  | assignment v w a => rw [sameNode, same_self v, same_self w, beq_self_eq_true]; rfl
  | hash ps => rw [sameNode, samePairs_self ps]
  | branch v w o => rw [sameNode, same_self v, same_self w, sameOption_self o]; rfl
  | cases v cs => rw [sameNode, same_self v, sameChoices_self cs]; rfl
  | selector v ps => rw [sameNode, same_self v, samePairs_self ps]; rfl
  | call s vs a o =>
      rw [sameNode, beq_self_eq_true, sameTrees_self vs, beq_self_eq_true, sameOption_self o]; rfl
  | method v s vs o =>
      rw [sameNode, same_self v, beq_self_eq_true, sameTrees_self vs, sameOption_self o]; rfl
  | lambda ps v => rw [sameNode, sameArguments_self ps, same_self v]; rfl
  | hostClass s ps p v =>
      rw [sameNode, beq_self_eq_true, sameArguments_self ps, beq_self_eq_true, same_self v]; rfl
  | definition s ps v => rw [sameNode, beq_self_eq_true, sameArguments_self ps, same_self v]; rfl
  | hosts vs o v => rw [sameNode, sameTrees_self vs, sameOption_self o, same_self v]; rfl
  | collection s k o ss =>
      rw [sameNode, beq_self_eq_true, beq_self_eq_true, sameOption_self o,
        sameSettings_self ss]; rfl
  | test op v w a =>
      rw [sameNode, beq_self_eq_true, same_self v, same_self w, beq_self_eq_true]; rfl

theorem sameTrees_self : ∀ vs : List Tree, sameTrees vs vs
  | [] => by rw [sameTrees]
  | v :: vs => by rw [sameTrees, same_self v, sameTrees_self vs]; rfl

theorem sameOption_self : ∀ o : Option Tree, sameOption o o
  | none => by rw [sameOption]
  | some v => by rw [sameOption, same_self v]

theorem samePairs_self : ∀ ps : List (Pair Tree), samePairs ps ps
  | [] => by rw [samePairs]
  | ⟨k, v⟩ :: ps => by rw [samePairs, same_self k, same_self v, samePairs_self ps]; rfl

theorem sameChoices_self : ∀ cs : List (Choice Tree), sameChoices cs cs
  | [] => by rw [sameChoices]
  | ⟨vs, v⟩ :: cs => by rw [sameChoices, sameTrees_self vs, same_self v, sameChoices_self cs]; rfl

theorem sameArguments_self : ∀ ps : List (Argument Tree), sameArguments ps ps
  | [] => by rw [sameArguments]
  | ⟨s, o⟩ :: ps => by
      rw [sameArguments, beq_self_eq_true, sameOption_self o, sameArguments_self ps]; rfl

theorem sameSettings_self : ∀ ss : List (Setting Tree), sameSettings ss ss
  | [] => by rw [sameSettings]
  | ⟨s, op, v⟩ :: ss => by
      rw [sameSettings, beq_self_eq_true, beq_self_eq_true, same_self v, sameSettings_self ss]; rfl

end

/-- The equality of nodes that is computed is equality, and counts places. -/
theorem sameNode_iff {n m : Node Tree} : sameNode n m ↔ n = m := by
  constructor
  · exact eq_of_sameNode
  · rintro rfl
    exact sameNode_self n

end Manifest.Legacy
