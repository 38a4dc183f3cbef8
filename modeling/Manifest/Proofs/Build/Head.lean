import Manifest.Build.Interpolation

/-!
# The head of an expression in a string

Accesses, named accesses and method calls may be piled up on one another. Taking them off from the
outside, one comes to the head of an expression, and there is one way to do so. In a string, a name
or a decimal number at the head is read as a variable, and what is piled up on it stays.

* `Frame` — what is put around an expression.
* `exists_inFrames`, `inFrames_inj` — every expression is a head in frames, in one way.
* `text_reads_head` — what becomes of an expression in a string.
-/

namespace Manifest.Build

open Text (Range)

/-- What stands around the left-hand side of an access or of a named access, or around the functor
of a method call. -/
inductive Frame
  | access (keys : List Expr) (range : Option Range)
  | dot (right : Expr) (range : Option Range)
  | method (valueRequired : Bool) (args : List Expr) (block : Option Expr) (range : Option Range)

/-- The expression in a frame. -/
def Frame.fill : Frame → Expr → Expr
  | .access keys range, e => ⟨.access e keys, range⟩
  | .dot right range, e => ⟨.binary .dot e right, range⟩
  | .method valueRequired args block range, e =>
      ⟨.call .method valueRequired e args block, range⟩

/-- The expression in frames, the outermost one first. -/
def inFrames (frames : List Frame) (e : Expr) : Expr := frames.foldr Frame.fill e

/-- The expression is no other one in a frame. -/
def IsHead (e : Expr) : Prop := ∀ (frame : Frame) (inner : Expr), e ≠ frame.fill inner

/-- The expression is a name or a decimal number. -/
inductive NamesVariable : Expr → Prop
  | name (s : String) (range : Option Range) : NamesVariable ⟨.leaf (.name s), range⟩
  | decimal (value : Int64) (range : Option Range) :
      NamesVariable ⟨.leaf (.integer value .decimal), range⟩

/-- The variable that a name or a number stands for, over the same range. -/
def variableOf (e : Expr) : Expr := ⟨.unary .dollar e, e.range⟩

variable {e inner head head' : Expr} {frame frame' : Frame} {frames frames' : List Frame}

/-! ## Heads and frames -/

/-- A frame and what stands in it are seen from the outside. -/
theorem Frame.fill_inj (h : frame.fill inner = frame'.fill e) : frame = frame' ∧ inner = e := by
  cases frame with
  | access keys range =>
      cases frame' with
      | access keys' range' => cases h; exact ⟨rfl, rfl⟩
      | dot => exact nomatch h
      | method => exact nomatch h
  | dot right range =>
      cases frame' with
      | access => exact nomatch h
      | dot right' range' => cases h; exact ⟨rfl, rfl⟩
      | method => exact nomatch h
  | method valueRequired args block range =>
      cases frame' with
      | access => exact nomatch h
      | dot => exact nomatch h
      | method => cases h; exact ⟨rfl, rfl⟩

/-- A head is reached by taking off frames in one way. -/
theorem inFrames_inj (hhead : IsHead head) (hhead' : IsHead head')
    (h : inFrames frames head = inFrames frames' head') : frames = frames' ∧ head = head' := by
  induction frames generalizing frames' with
  | nil =>
      cases frames' with
      | nil => exact ⟨rfl, h⟩
      | cons frame' frames' => exact absurd h (hhead frame' _)
  | cons frame frames ih =>
      cases frames' with
      | nil => exact absurd h.symm (hhead' frame _)
      | cons frame' frames' =>
          obtain ⟨rfl, hinner⟩ := Frame.fill_inj h
          obtain ⟨rfl, rfl⟩ := ih hinner
          exact ⟨rfl, rfl⟩

/-- Every expression is a head in frames. -/
theorem exists_inFrames (e : Expr) : ∃ frames head, IsHead head ∧ e = inFrames frames head := by
  fun_induction readHead e with
  | case1 l range => exact ⟨[], _, by rintro (_ | _ | _) _ ⟨⟩, rfl⟩
  | case2 l range => exact ⟨[], _, by rintro (_ | _ | _) _ ⟨⟩, rfl⟩
  | case3 left keys range ih =>
      obtain ⟨frames, head, hhead, rfl⟩ := ih
      exact ⟨.access keys range :: frames, head, hhead, rfl⟩
  | case4 left right range ih =>
      obtain ⟨frames, head, hhead, rfl⟩ := ih
      exact ⟨.dot right range :: frames, head, hhead, rfl⟩
  | case5 valueRequired functor args block range ih =>
      obtain ⟨frames, head, hhead, rfl⟩ := ih
      exact ⟨.method valueRequired args block range :: frames, head, hhead, rfl⟩
  | case6 e _ haccess hdot hcall =>
      refine ⟨[], e, ?_, rfl⟩
      rintro (_ | _ | _) inner rfl
      · exact haccess _ _ _ rfl
      · exact hdot _ _ _ rfl
      · exact hcall _ _ _ _ _ rfl

/-! ## Reading the head -/

/-- What stands in frames is read in them. -/
theorem readHead_inFrames (frames : List Frame) (e : Expr) :
    readHead (inFrames frames e) = inFrames frames (readHead e) := by
  induction frames with
  | nil => rfl
  | cons frame frames ih =>
      have hfill : readHead (frame.fill (inFrames frames e))
          = frame.fill (readHead (inFrames frames e)) := by
        cases frame with
        | access keys range => rw [Frame.fill, readHead]; rfl
        | dot right range => rw [Frame.fill, readHead]; rfl
        | method valueRequired args block range => rw [Frame.fill, readHead]; rfl
      rw [inFrames, List.foldr_cons]
      exact hfill.trans (congrArg frame.fill ih)

/-- A name or a decimal number is read as a variable. -/
theorem readHead_of_namesVariable (h : NamesVariable e) : readHead e = variableOf e := by
  cases h with
  | name s range => rw [readHead]; rfl
  | decimal value range => rw [readHead]; rfl

/-- Every other head stays. -/
theorem readHead_of_isHead (hhead : IsHead e) (h : ¬ NamesVariable e) : readHead e = e := by
  fun_cases readHead e with
  | case1 l range hbare =>
      refine absurd ?_ h
      unfold isBareName at hbare
      split at hbare
      · exact .name _ range
      · exact .decimal _ range
      · exact absurd hbare Bool.false_ne_true
  | case2 l range hbare => rfl
  | case3 left keys range => exact absurd rfl (hhead (.access keys range) left)
  | case4 left right range => exact absurd rfl (hhead (.dot right range) left)
  | case5 valueRequired functor args block range =>
      exact absurd rfl (hhead (.method valueRequired args block range) functor)
  | case6 => rfl

/-- A variable is a head that stays. -/
theorem readHead_variableOf (e : Expr) : readHead (variableOf e) = variableOf e := by
  have hhead : IsHead (variableOf e) := by rintro (_ | _ | _) _ ⟨⟩
  exact readHead_of_isHead hhead nofun

/-- A second reading changes nothing. -/
theorem readHead_readHead (e : Expr) : readHead (readHead e) = readHead e := by
  obtain ⟨frames, head, hhead, rfl⟩ := exists_inFrames e
  rw [readHead_inFrames, readHead_inFrames]
  by_cases h : NamesVariable head
  · rw [readHead_of_namesVariable h, readHead_variableOf]
  · rw [readHead_of_isHead hhead h, readHead_of_isHead hhead h]

/-! ## Expressions in strings -/

/-- The text of an expression holds that expression, with one change at most: taking off accesses,
named accesses and method calls, one comes to its head, and if this is a name or a decimal number, a
variable over the same range stands in its place. A second reading changes nothing. -/
theorem text_reads_head (e : Expr) : ∃ frames head,
    (IsHead head ∧ e = inFrames frames head ∧ ∀ frames' head', IsHead head' →
      e = inFrames frames' head' → frames' = frames ∧ head' = head) ∧
    (NamesVariable head →
      text (.expr e) = .ok (.ofNode (.unary .text (inFrames frames (variableOf head))))) ∧
    (¬ NamesVariable head → text (.expr e) = .ok (.ofNode (.unary .text e))) ∧
    ∀ e', text (.expr e) = .ok (.ofNode (.unary .text e')) →
      text (.expr e') = .ok (.ofNode (.unary .text e')) := by
  have htext : ∀ e, text (.expr e) = .ok (.ofNode (.unary .text (readHead e))) := fun _ => rfl
  obtain ⟨frames, head, hhead, rfl⟩ := exists_inFrames e
  refine ⟨frames, head, ⟨hhead, rfl, fun frames' head' hhead' h => ?_⟩, fun h => ?_, fun h => ?_,
    fun e' h => ?_⟩
  · exact inFrames_inj hhead' hhead h.symm
  · rw [htext, readHead_inFrames, readHead_of_namesVariable h]
  · rw [htext, readHead_inFrames, readHead_of_isHead hhead h]
  · cases h
    rw [htext, readHead_readHead]

/-- The receiver of a chain of calls is a variable, and a name among the arguments stays a name. -/
example (x y : Expr) (hx : x = .ofLeaf (.name "x")) (hy : y = .ofLeaf (.name "y")) :
    text (.expr (.ofNode (.call .method true (.ofNode (.binary .dot x y)) [y] none))) =
      .ok (.ofNode (.unary .text
        (.ofNode (.call .method true (.ofNode (.binary .dot (variableOf x) y)) [y] none)))) := by
  subst hx hy
  rfl

end Manifest.Build
