import Manifest.Proofs.Sexp.Grammar

/-!
# The reader accepts what the grammar derives

The reader is a fold over the lexemes. A derivation drives it from any open form to the same form
with one value more, and what drives it to some open forms is what the grammar allows in front of
them, so that the reader ends with a value exactly on the lexemes of one. Forms that are open can
always be closed.

* `Derives.foldlM_advance` — derivations are read.
* `Reached`, `reached_advance` — what has been read when forms are open.
* `foldlM_advance_iff` — the lexemes that are read are those of one value.
* `Consumed.closable` — what is open can be closed.
-/

namespace Manifest.Sexp

variable {frames outer : List Frame} {l : Lexeme} {ls ms before : List Lexeme} {v : Sexp}
  {pairs : List (String × Sexp)} {p q : Progress} {stop : Nat}

/-! ## The reader as a fold -/

/-- One lexeme more is read. -/
def advance : Progress → Lexeme → Except Error Progress
  | .within frames, l => take frames l
  | .complete _, l => .error (unexpected l)

/-- What has been read when the text ends. -/
def finish (stop : Nat) : Progress → Except Error Sexp
  | .within frames => .error ⟨.ended (context frames), stop⟩
  | .complete v => .ok v

/-- Going on reads the lexemes one by one and has to be complete at the end. -/
theorem proceed_eq_foldlM (stop : Nat) (p : Progress) (ls : List Lexeme) :
    proceed stop p ls = ls.foldlM advance p >>= finish stop := by
  induction ls generalizing p with
  | nil => cases p <;> rfl
  | cons l ls ih =>
      rw [List.foldlM_cons]
      cases p with
      | complete v => rfl
      | within frames =>
          show readFrom stop frames (l :: ls) = (take frames l >>= fun p => ls.foldlM advance p)
            >>= finish stop
          cases h : take frames l with
          | error e =>
              rw [readFrom, h]
              rfl
          | ok p =>
              rw [readFrom_cons h, ih p]
              rfl

/-- Lexemes are read one after the other. -/
theorem foldlM_append_ok (h : ls.foldlM advance p = .ok q) (ms : List Lexeme) :
    (ls ++ ms).foldlM advance p = ms.foldlM advance q := by
  rw [List.foldlM_append, h]
  rfl

theorem foldlM_cons_ok (h : advance p l = .ok q) (ls : List Lexeme) :
    (l :: ls).foldlM advance p = ls.foldlM advance q := by
  rw [List.foldlM_cons, h]
  rfl

theorem foldlM_singleton (p : Progress) (l : Lexeme) : [l].foldlM advance p = advance p l := by
  rw [List.foldlM_cons]
  cases advance p l <;> rfl

/-! ## Derivations are read -/

/-- A lexeme that opens a form, and the form. -/
inductive Lexeme.Opening (l : Lexeme) : Frame → Prop
  | call : l.kind = .openParen → l.Opening .head
  | list : l.kind = .openBracket → l.Opening (.list [])
  | map : l.kind = .openBrace → l.Opening (.map [])

/-- A lexeme that closes a form, and the value that is complete then. -/
inductive Lexeme.Closing (l : Lexeme) : Frame → Sexp → Prop
  | call {head : String} {args : List Sexp} :
      l.kind = .closeParen → l.Closing (.call head args) (.call head args)
  | list {items : List Sexp} : l.kind = .closeBracket → l.Closing (.list items) (.list items)
  | map {entries : List (String × Sexp)} :
      l.kind = .closeBrace → l.Closing (.map entries) (.map entries)

/-- What opens a form goes into it. -/
theorem Lexeme.Opening.advance {form : Frame} (h : l.Opening form) (hf : Accepts frames) :
    advance (.within frames) l = .ok (.within (form :: frames)) := by
  have hopen : openValue frames l = .ok (.within (form :: frames)) ∧
      l.kind ≠ .closeBracket ∧ l.kind ≠ .closeParen := by
    unfold openValue
    cases h with
    | _ hk => rw [hk]; exact ⟨rfl, by decide, by decide⟩
  show take frames l = _
  unfold take
  split
  · rw [if_neg hopen.2.1, hopen.1]
  · rw [if_neg hopen.2.2, hopen.1]
  · exact hf.elim
  · exact hf.elim
  · exact hopen.1

/-- What closes a form makes a value of it. -/
theorem Lexeme.Closing.advance {form : Frame} (h : l.Closing form v) (outer : List Frame) :
    advance (.within (form :: outer)) l = .ok (.add v outer) := by
  cases h with
  | call hk => exact if_pos hk
  | list hk => exact if_pos hk
  | map hk => exact if_pos hk

/-- The head of a call. -/
theorem Lexeme.Symbol.advance {head : String} (h : l.Symbol head) (outer : List Frame) :
    advance (.within (.head :: outer)) l = .ok (.within (.call head [] :: outer)) := by
  show take (.head :: outer) l = _
  rw [take, symbolText?_of_symbol h]
  rfl

/-- The key of an entry. -/
theorem Lexeme.Key.advance {key : String} (h : l.Key key) (entries : List (String × Sexp))
    (outer : List Frame) :
    advance (.within (.map entries :: outer)) l = .ok (.within (.value entries key :: outer)) := by
  have hclose : l.kind ≠ .closeBrace := by
    cases h with
    | bare hk => rw [hk]; decide
    | quoted hk => rw [hk]; decide
  show take (.map entries :: outer) l = _
  rw [take, if_neg hclose, keyText?_of_key h]
  rfl

mutual

/-- The lexemes of a value are read as the value. -/
theorem Derives.foldlM_advance {ls : List Lexeme} {v : Sexp} {frames : List Frame} :
    Derives ls v → Accepts frames → ls.foldlM advance (.within frames) = .ok (.add v frames)
  | .scalar h, hf => by
      rw [foldlM_singleton]
      exact take_scalar hf (scalar_of_scalar h)
  | .list hopen hitems hclose, hf => by
      rw [foldlM_cons_ok ((Lexeme.Opening.list hopen).advance hf),
        foldlM_append_ok (hitems.foldlM_advance collects_list [] _), foldlM_singleton]
      exact (Lexeme.Closing.list hclose).advance _
  | .map hopen hentries hclose, hf => by
      rw [foldlM_cons_ok ((Lexeme.Opening.map hopen).advance hf),
        foldlM_append_ok (hentries.foldlM_advance [] _), foldlM_singleton]
      exact (Lexeme.Closing.map hclose).advance _
  | .call hopen hhead hargs hclose, hf => by
      rw [foldlM_cons_ok ((Lexeme.Opening.call hopen).advance hf),
        foldlM_cons_ok (hhead.advance _),
        foldlM_append_ok (hargs.foldlM_advance (collects_call _) [] _), foldlM_singleton]
      exact (Lexeme.Closing.call hclose).advance _

/-- Those of values in a row are read as the values. -/
theorem Items.foldlM_advance {ls : List Lexeme} {vs : List Sexp} {form : List Sexp → Frame} :
    Items ls vs → Collects form → ∀ (items : List Sexp) (outer : List Frame),
      ls.foldlM advance (.within (form items :: outer))
        = .ok (.within (form (items ++ vs) :: outer))
  | .nil, _ => fun items outer => by
      rw [List.append_nil]
      rfl
  | .cons hv hvs, hform => fun items outer => by
      rw [foldlM_append_ok (hv.foldlM_advance (hform.accepts items outer)), hform.add,
        hvs.foldlM_advance hform, List.append_assoc, List.singleton_append]

/-- Those of entries are put in, from left to right. -/
theorem Entries.foldlM_advance {ls : List Lexeme} {pairs : List (String × Sexp)} :
    Entries ls pairs → ∀ (entries : List (String × Sexp)) (outer : List Frame),
      ls.foldlM advance (.within (.map entries :: outer))
        = .ok (.within (.map (pairs.foldl (fun entries (k, v) => put k v entries) entries) ::
          outer))
  | .nil => fun entries outer => rfl
  | @Entries.cons _ _ _ key _ _ hkey hv hpairs => fun entries outer => by
      have hvalue : Accepts (.value entries key :: outer) := trivial
      rw [foldlM_cons_ok (hkey.advance entries outer), foldlM_append_ok (hv.foldlM_advance hvalue),
        Progress.add, hpairs.foldlM_advance]
      rfl

end

/-! ## What is read is derived -/

/-- The lexemes that bring the reader to some open forms: for each form what opens it and what it
holds, and behind those the forms further in. -/
inductive Consumed : List Frame → List Lexeme → Prop
  | nil : Consumed [] []
  | list {outer : List Frame} {before ls : List Lexeme} {o : Lexeme} {items : List Sexp} :
      Consumed outer before → Accepts outer → o.kind = .openBracket → Items ls items →
      Consumed (.list items :: outer) (before ++ o :: ls)
  | head {outer : List Frame} {before : List Lexeme} {o : Lexeme} :
      Consumed outer before → Accepts outer → o.kind = .openParen →
      Consumed (.head :: outer) (before ++ [o])
  | call {outer : List Frame} {before ls : List Lexeme} {o h : Lexeme} {head : String}
      {args : List Sexp} :
      Consumed outer before → Accepts outer → o.kind = .openParen → h.Symbol head →
      Items ls args → Consumed (.call head args :: outer) (before ++ o :: h :: ls)
  | map {outer : List Frame} {before ls : List Lexeme} {o : Lexeme}
      {pairs : List (String × Sexp)} :
      Consumed outer before → Accepts outer → o.kind = .openBrace → Entries ls pairs →
      Consumed (.map (ofPairs pairs) :: outer) (before ++ o :: ls)
  | value {outer : List Frame} {before ls : List Lexeme} {o k : Lexeme} {key : String}
      {pairs : List (String × Sexp)} :
      Consumed outer before → Accepts outer → o.kind = .openBrace → Entries ls pairs →
      k.Key key → Consumed (.value (ofPairs pairs) key :: outer) (before ++ o :: (ls ++ [k]))

/-- What the lexemes that have been read are. -/
def Reached : Progress → List Lexeme → Prop
  | .within frames, ls => Consumed frames ls
  | .complete v, ls => Derives ls v

/-- Values in a row, before more values. -/
theorem Items.append {vs : List Sexp} : ∀ {ls : List Lexeme} {items : List Sexp}, Items ls items →
    Items ms vs → Items (ls ++ ms) (items ++ vs)
  | _, _, .nil, hvs => hvs
  | _, _, .cons hv hitems, hvs => by
      rw [List.append_assoc, List.cons_append]
      exact .cons hv (hitems.append hvs)

/-- Entries in a row, before more entries. -/
theorem Entries.append {more : List (String × Sexp)} : ∀ {ls : List Lexeme}
    {pairs : List (String × Sexp)}, Entries ls pairs → Entries ms more →
    Entries (ls ++ ms) (pairs ++ more)
  | _, _, .nil, hmore => hmore
  | _, _, .cons hkey hv hpairs, hmore => by
      rw [List.cons_append, List.append_assoc, List.cons_append]
      exact .cons hkey hv (hpairs.append hmore)

/-- A value by itself. -/
theorem Derives.items (h : Derives ls v) : Items ls [v] := by
  have hitems := Items.cons h .nil
  rwa [List.append_nil] at hitems

/-- A value is an element of the innermost form. -/
theorem Consumed.add (h : Consumed frames before) (hf : Accepts frames) (hv : Derives ls v) :
    Reached (.add v frames) (before ++ ls) := by
  cases h with
  | nil => exact hv
  | list houter ho hopen hitems =>
      rw [List.append_assoc, List.cons_append]
      exact .list houter ho hopen (hitems.append hv.items)
  | head => exact hf.elim
  | call houter ho hopen hhead hargs =>
      rw [List.append_assoc, List.cons_append, List.cons_append]
      exact .call houter ho hopen hhead (hargs.append hv.items)
  | map => exact hf.elim
  | @value outer before ms o k key pairs houter ho hopen hpairs hkey =>
      have hentry : Entries (k :: ls) [(key, v)] := by
        have hentry := Entries.cons hkey hv .nil
        rwa [List.append_nil] at hentry
      have hput : put key v (ofPairs pairs) = ofPairs (pairs ++ [(key, v)]) := by
        rw [ofPairs, ofPairs, List.foldl_append]
        rfl
      rw [Progress.add, hput, List.append_assoc, List.cons_append, List.append_assoc,
        List.singleton_append]
      exact .map houter ho hopen (hpairs.append hentry)

/-- Where a value may begin, a lexeme opens a form or is a scalar. -/
theorem reached_openValue (h : Consumed frames before) (hf : Accepts frames) (hl : l.Spelled)
    (hopen : openValue frames l = .ok p) : Reached p (before ++ [l]) := by
  unfold openValue at hopen
  split at hopen
  next hk =>
    obtain rfl := Except.ok.inj hopen
    exact .head h hf hk
  next hk =>
    obtain rfl := Except.ok.inj hopen
    exact .list h hf hk .nil
  next hk =>
    obtain rfl := Except.ok.inj hopen
    have hmap := Consumed.map h hf hk .nil
    exact hmap
  next =>
    obtain ⟨v, hv, rfl⟩ := map_eq_ok.1 hopen
    exact h.add hf (.scalar (scalar_of_eq_ok hl hv))

/-- A form that a lexeme closes is a value of the form around it. -/
theorem Consumed.close {form : Frame} (h : Consumed (form :: outer) before)
    (hclose : l.Closing form v) : Reached (.add v outer) (before ++ [l]) := by
  cases h with
  | list houter ho hopen hitems =>
      cases hclose with
      | list hk =>
          rw [List.append_assoc, List.cons_append]
          exact houter.add ho (.list hopen hitems hk)
  | head => nomatch hclose
  | call houter ho hopen hhead hargs =>
      cases hclose with
      | call hk =>
          rw [List.append_assoc, List.cons_append, List.cons_append]
          exact houter.add ho (.call hopen hhead hargs hk)
  | map houter ho hopen hpairs =>
      cases hclose with
      | map hk =>
          rw [List.append_assoc, List.cons_append]
          exact houter.add ho (.map hopen hpairs hk)
  | value => nomatch hclose

/-- One lexeme keeps what has been read in the grammar. -/
theorem reached_advance (h : Reached p before) (hl : l.Spelled) (hp : advance p l = .ok q) :
    Reached q (before ++ [l]) := by
  cases p with
  | complete v => exact nomatch hp
  | within frames =>
  have htake : take frames l = .ok q := hp
  unfold take at htake
  split at htake
  -- by the innermost form: what may come next, and what it does to that form
  next items outer =>
    split at htake
    next hk =>
      obtain rfl := Except.ok.inj htake
      exact Consumed.close h (.list hk)
    next => exact reached_openValue h trivial hl htake
  next head args outer =>
    split at htake
    next hk =>
      obtain rfl := Except.ok.inj htake
      exact Consumed.close h (.call hk)
    next => exact reached_openValue h trivial hl htake
  next outer =>
    split at htake
    next text htext =>
      obtain ⟨head, rfl, rfl⟩ := map_eq_ok.1 htake
      have hhead := symbol_of_symbolText? hl htext
      cases h with
      | head houter ho hopen =>
          rw [List.append_assoc, List.singleton_append]
          exact .call houter ho hopen hhead .nil
    next => exact nomatch htake
  next entries outer =>
    split at htake
    next hk =>
      obtain rfl := Except.ok.inj htake
      exact Consumed.close h (.map hk)
    next =>
      split at htake
      next text htext =>
        obtain ⟨key, rfl, rfl⟩ := map_eq_ok.1 htake
        have hkey := key_of_keyText? hl htext
        cases h with
        | map houter ho hopen hpairs =>
            rw [List.append_assoc, List.cons_append]
            exact .value houter ho hopen hpairs hkey
      next => exact nomatch htake
  next hlist hcall hhead hmap =>
    refine reached_openValue h ?_ hl htake
    cases frames with
    | nil => trivial
    | cons frame outer =>
      cases frame with
      | list items => trivial
      | head => exact hhead outer rfl
      | call head args => trivial
      | map entries => exact hmap entries outer rfl
      | value entries key => trivial

/-- Whatever is read without an error is reached. -/
theorem reached_foldlM (h : Reached p before) (hls : ∀ l ∈ ls, l.Spelled)
    (hq : ls.foldlM advance p = .ok q) : Reached q (before ++ ls) := by
  induction ls generalizing p before with
  | nil =>
      obtain rfl := Except.ok.inj hq
      rwa [List.append_nil]
  | cons l ls ih =>
      obtain ⟨hl, hls⟩ := List.forall_mem_cons.1 hls
      rw [List.foldlM_cons] at hq
      cases hp : advance p l with
      | error e =>
          rw [hp] at hq
          exact nomatch hq
      | ok p' =>
          rw [hp] at hq
          have hrest := ih (reached_advance h hl hp) hls hq
          rwa [List.append_assoc, List.singleton_append] at hrest

/-- The lexemes that are read as a value are those of the value. -/
theorem foldlM_advance_iff (hls : ∀ l ∈ ls, l.Spelled) :
    ls.foldlM advance (.within []) = .ok (.complete v) ↔ Derives ls v := by
  constructor
  · intro h
    have hstart : Reached (.within []) [] := Consumed.nil
    exact reached_foldlM hstart hls h
  · exact fun h => h.foldlM_advance trivial

/-! ## What is open can be closed -/

/-- Some lexemes more lead to a value. -/
def Closable (p : Progress) : Prop :=
  ∃ (ls : List Lexeme) (v : Sexp), (∀ l ∈ ls, l.Spelled) ∧
    ls.foldlM advance p = .ok (.complete v)

/-- What can be closed after one more lexeme can be closed. -/
theorem Closable.of_advance (h : Closable q) (hl : l.Spelled) (hp : advance p l = .ok q) :
    Closable p := by
  obtain ⟨ls, v, hls, hv⟩ := h
  exact ⟨l :: ls, v, List.forall_mem_cons.2 ⟨hl, hls⟩, by rw [foldlM_cons_ok hp, hv]⟩

/-- A lexeme that closes the form is one way to close it. -/
theorem Closable.of_closing {form : Frame} (h : Closable (.add v outer)) (hl : l.Spelled)
    (hclose : l.Closing form v) : Closable (.within (form :: outer)) :=
  h.of_advance hl (hclose.advance outer)

/-- With a value in the innermost form, the brackets that are missing close all forms. -/
theorem Consumed.closable_add (h : Consumed frames before) (hf : Accepts frames) (v : Sexp) :
    Closable (.add v frames) := by
  induction h generalizing v with
  | nil => exact ⟨[], v, fun _ h => (nomatch h), rfl⟩
  | list _ ho _ _ ih =>
      exact Closable.of_closing (l := ⟨.closeBracket, [']'], 0⟩) (ih ho _) rfl (.list rfl)
  | head => exact hf.elim
  | call _ ho _ _ _ ih =>
      exact Closable.of_closing (l := ⟨.closeParen, [')'], 0⟩) (ih ho _) rfl (.call rfl)
  | map => exact hf.elim
  | value _ ho _ _ _ ih =>
      exact Closable.of_closing (l := ⟨.closeBrace, ['}'], 0⟩) (ih ho _) rfl (.map rfl)

/-- Where a value may begin, a value and the brackets that are missing do. -/
theorem Consumed.closable (h : Consumed frames before) : Closable (.within frames) := by
  have hvalue : Accepts frames → Closable (.within frames) := by
    intro hf
    have hnil : Lexeme.Scalar ⟨.nil, "nil".toList, 0⟩ .nil := .nil rfl
    exact Closable.of_advance (l := ⟨.nil, "nil".toList, 0⟩) (h.closable_add hf .nil) rfl
      (take_scalar hf (scalar_of_scalar hnil))
  cases h with
  | nil => exact hvalue trivial
  | list => exact hvalue trivial
  | call => exact hvalue trivial
  | value => exact hvalue trivial
  | head houter ho hopen =>
      have hsymbol : Lexeme.Symbol ⟨.symbol, ['f'], 0⟩ _ := .bare (.inl rfl)
      have hcall := houter.closable_add ho (.call (String.ofList ['f']) [])
      have hclosed := Closable.of_closing (l := ⟨.closeParen, [')'], 0⟩) hcall rfl (.call rfl)
      have hspelled : Lexeme.Spelled ⟨.symbol, ['f'], 0⟩ :=
        mem_runPattern.2 ⟨by decide, List.all_eq_true.1 (by decide)⟩
      exact hclosed.of_advance hspelled (hsymbol.advance _)
  | map houter ho _ _ =>
      exact Closable.of_closing (l := ⟨.closeBrace, ['}'], 0⟩) (houter.closable_add ho _) rfl
        (.map rfl)

end Manifest.Sexp
