import Manifest.Proofs.Sexp.Scalar

/-!
# Canonical text is read back

A text *reads* as a value when the lexemes at its front add that value to whatever form is open,
and the reader goes on with what follows. Scalars do so by a single lexeme; lists, calls and maps by
the values in them, one after the other.

* `reads_render` — the canonical text of a well-formed value reads as that value, wherever it
  stands.
* `parse_render` — a whole text that is canonical is parsed as the value.
-/

namespace Manifest.Sexp

open Text (byteLength byteLength_append)

variable {kind : Lexeme.Kind} {cs rest : List Char} {c : Char} {offset stop : Nat} {v : Sexp}
  {frames outer : List Frame} {entries : List (String × Sexp)}

/-! ## Values that have a text -/

mutual

/-- Floats are finite, the texts of symbols and heads do not begin with white space or a comment,
and the keys of a map are distinct. -/
def wellFormed : Sexp → Bool
  | .nil => true
  | .bool _ => true
  | .int _ => true
  | .float x => x.isFinite
  | .str _ => true
  | .sym s => startsPlain s
  | .list items => wellFormedItems items
  | .map entries => decide (entries.map Prod.fst).Nodup && wellFormedEntries entries
  | .call head args => startsPlain head && wellFormedItems args

/-- All elements are well-formed. -/
def wellFormedItems : List Sexp → Bool
  | [] => true
  | item :: items => wellFormed item && wellFormedItems items

/-- All values of entries are well-formed. -/
def wellFormedEntries : List (String × Sexp) → Bool
  | [] => true
  | (_, value) :: entries => wellFormed value && wellFormedEntries entries

end

/-! ## The reader between values -/

/-- The innermost form takes a value. -/
def Accepts : List Frame → Prop
  | .head :: _ => False
  | .map _ :: _ => False
  | _ => True

/-- How reading goes on with the lexemes that are left. -/
def proceed (stop : Nat) : Progress → List Lexeme → Except Error Sexp
  | .within frames, ls => readFrom stop frames ls
  | .complete v, [] => .ok v
  | .complete _, extra :: _ => .error (unexpected extra)

/-- The reader goes on behind a lexeme that it takes. -/
theorem readFrom_cons {l : Lexeme} {ls : List Lexeme} {p : Progress}
    (h : take frames l = .ok p) : readFrom stop frames (l :: ls) = proceed stop p ls := by
  rw [readFrom, h]
  cases p with
  | within frames => rfl
  | complete v => cases ls <;> rfl

/-- A lexeme of its own adds its value. -/
theorem take_scalar {l : Lexeme} (hf : Accepts frames) (hv : scalar l = .ok v) :
    take frames l = .ok (.add v frames) := by
  have hopen : openValue frames l = .ok (.add v frames) := by
    unfold openValue
    split
    case h_4 => rw [hv]; rfl
    all_goals
      next hk =>
        rw [scalar, hk, symbolText?, hk] at hv
        exact nomatch hv
  have hclose : l.kind ≠ .closeBracket ∧ l.kind ≠ .closeParen := by
    constructor
    all_goals
      intro hk
      rw [scalar, hk, symbolText?, hk] at hv
      exact nomatch hv
  unfold take
  split
  · rw [if_neg hclose.1, hopen]
  · rw [if_neg hclose.2, hopen]
  · exact hf.elim
  · exact hf.elim
  · exact hopen

/-- A symbol is a scalar. -/
theorem scalar_of_symbolText? {l : Lexeme} {s : String} (h : symbolText? l = some (.ok s)) :
    scalar l = .ok (.sym s) := by
  unfold scalar
  split
  case h_6 => rw [h]; rfl
  all_goals
    next hk =>
      rw [symbolText?, hk] at h
      exact nomatch h

/-! ## Texts that read as a value -/

/-- In front of anything that may follow a value, the text adds the value to the open form. -/
def Reads (v : Sexp) (cs : List Char) : Prop :=
  ∀ stop frames offset rest, Accepts frames → Ends rest →
    readFrom stop frames (lexemesFrom offset (cs ++ rest))
      = proceed stop (.add v frames) (lexemesFrom (offset + byteLength cs) rest)

/-- A single lexeme reads as its value. -/
theorem Spells.reads (h : Spells kind cs) (hv : ∀ offset, scalar ⟨kind, cs, offset⟩ = .ok v) :
    Reads v cs := by
  intro stop frames offset rest hf hrest
  rw [h.lexemesFrom hrest, readFrom_cons (take_scalar hf (hv offset))]

/-- A word without quotes reads as the value that its lexeme stands for. -/
theorem reads_bare {t : List Char} (h : (c :: t).all isBare) (hkind : kindOfRun (c :: t) = kind)
    (hread : kind ≠ .unreadable) (hv : ∀ offset, scalar ⟨kind, c :: t, offset⟩ = .ok v) :
    Reads v (c :: t) :=
  (spells_bare (List.all_eq_true.1 h) hkind hread).reads hv

/-- The word `nil` reads as the empty value. -/
theorem reads_nil : Reads .nil ['n', 'i', 'l'] := by
  have hkind : kindOfRun ['n', 'i', 'l'] = .nil := by decide
  exact reads_bare (by decide) hkind nofun fun _ => rfl

/-- The booleans read back. -/
theorem reads_bool (b : Bool) : Reads (.bool b) (render (.bool b)) := by
  cases b with
  | true =>
      have hkind : kindOfRun ['t', 'r', 'u', 'e'] = .bool true := by decide
      exact reads_bare (by decide) hkind nofun fun _ => rfl
  | false =>
      have hkind : kindOfRun ['f', 'a', 'l', 's', 'e'] = .bool false := by decide
      exact reads_bare (by decide) hkind nofun fun _ => rfl

/-- An integer reads back. -/
theorem reads_int (i : Int64) : Reads (.int i) (Binary64.integerText i.toInt) := by
  refine (spells_int i.toInt).reads ?_
  intro offset
  show intValue _ = _
  rw [intValue, int64OfText?_integerText]

/-- A finite float reads back. -/
theorem reads_float {x : Binary64} (hx : x.isFinite) : Reads (.float x) x.render := by
  obtain ⟨-, -, htext⟩ := Binary64.exists_render hx
  refine (spells_float hx).reads ?_
  intro offset
  show floatValue _ = _
  simp only [floatValue, htext, hx, if_true]

/-- A string reads back. -/
theorem reads_str (s : String) : Reads (.str s) (renderQuoted s) := by
  have hspells : Spells .string (renderQuoted s) := spells_quoted [] s rfl
  refine hspells.reads ?_
  intro offset
  have htext : quotedText ⟨.string, renderQuoted s, offset⟩ 1 = .ok s :=
    quotedText_renderQuoted [] s rfl
  rw [scalar, htext]
  rfl

/-- A symbol reads back. -/
theorem reads_sym {s : String} (hs : startsPlain s) : Reads (.sym s) (renderSymbol s) := by
  obtain ⟨kind, hspells, htext⟩ := exists_spells_symbol hs
  exact hspells.reads fun offset => scalar_of_symbolText? (htext offset)

/-! ## Brackets -/

/-- The bracket that opens a form. -/
inductive Opens : Char → Lexeme.Kind → Frame → Prop
  | call : Opens '(' .openParen .head
  | list : Opens '[' .openBracket (.list [])
  | map : Opens '{' .openBrace (.map [])

/-- The bracket that closes a form, and the value that is complete then. -/
inductive Closes : Char → Lexeme.Kind → Frame → Sexp → Prop
  | call (head : String) (args : List Sexp) :
      Closes ')' .closeParen (.call head args) (.call head args)
  | list (items : List Sexp) : Closes ']' .closeBracket (.list items) (.list items)
  | map (entries : List (String × Sexp)) : Closes '}' .closeBrace (.map entries) (.map entries)

/-- An opening bracket goes into a form. -/
theorem Opens.readFrom {form : Frame} (h : Opens c kind form) (hf : Accepts frames) :
    readFrom stop frames (lexemesFrom offset (c :: cs))
      = Sexp.readFrom stop (form :: frames) (lexemesFrom (offset + 1) cs) := by
  have hlexemes : lexemesFrom offset (c :: cs)
      = ⟨kind, [c], offset⟩ :: lexemesFrom (offset + 1) cs := by
    cases h
    all_goals exact lexemesFrom_of_lexemeAt (by decide) (by decide) rfl (by decide)
  have htake : take frames ⟨kind, [c], offset⟩ = .ok (.within (form :: frames)) := by
    cases frames with
    | nil => cases h <;> rfl
    | cons frame frames =>
        cases frame with
        | head => exact hf.elim
        | map entries => exact hf.elim
        | list items => cases h <;> rfl
        | call head args => cases h <;> rfl
        | value entries key => cases h <;> rfl
  rw [hlexemes, readFrom_cons htake]
  rfl

/-- A closing bracket makes a value of it. -/
theorem Closes.readFrom {form : Frame} (h : Closes c kind form v) :
    readFrom stop (form :: outer) (lexemesFrom offset (c :: cs))
      = proceed stop (.add v outer) (lexemesFrom (offset + 1) cs) := by
  have hlexemes : lexemesFrom offset (c :: cs)
      = ⟨kind, [c], offset⟩ :: lexemesFrom (offset + 1) cs := by
    cases h
    all_goals exact lexemesFrom_of_lexemeAt (by decide) (by decide) rfl (by decide)
  have htake : take (form :: outer) ⟨kind, [c], offset⟩ = .ok (.add v outer) := by
    cases h <;> rfl
  rw [hlexemes, readFrom_cons htake]

/-- A space is passed over. -/
theorem lexemesFrom_space : lexemesFrom offset (' ' :: cs) = lexemesFrom (offset + 1) cs :=
  lexemesFrom_separator (by decide)

/-! ## Elements -/

/-- A form to which values are added at the end. -/
structure Collects (form : List Sexp → Frame) : Prop where
  accepts : ∀ items outer, Accepts (form items :: outer)
  add : ∀ items outer v, Progress.add v (form items :: outer) =
    .within (form (items ++ [v]) :: outer)

/-- A list collects values. -/
theorem collects_list : Collects .list := ⟨fun _ _ => trivial, fun _ _ _ => rfl⟩

/-- A call collects values. -/
theorem collects_call (head : String) : Collects (.call head) :=
  ⟨fun _ _ => trivial, fun _ _ _ => rfl⟩

/-- A value in a form becomes its last element. -/
theorem Reads.readFrom {form : List Sexp → Frame} (h : Reads v cs) (hform : Collects form)
    (items : List Sexp) (hrest : Ends rest) :
    readFrom stop (form items :: outer) (lexemesFrom offset (cs ++ rest))
      = Sexp.readFrom stop (form (items ++ [v]) :: outer)
          (lexemesFrom (offset + byteLength cs) rest) := by
  rw [h stop _ offset rest (hform.accepts items outer) hrest, hform.add]
  rfl

/-- Elements after spaces, or entries, may follow a value when the rest may. -/
theorem ends_renderItems (items : List Sexp) (hrest : Ends rest) :
    Ends (renderItems items ++ rest) := by
  cases items with
  | nil => exact hrest
  | cons item items => exact ends_cons (by decide)

theorem ends_renderEntries (entries : List (String × Sexp)) (hrest : Ends rest) :
    Ends (renderEntries entries ++ rest) := by
  cases entries with
  | nil => exact hrest
  | cons entry entries => exact ends_cons (by decide)

/-- Elements after spaces become the last elements. -/
theorem readFrom_renderItems {form : List Sexp → Frame} (hform : Collects form)
    {items : List Sexp} (hitems : ∀ item ∈ items, Reads item item.render) (done : List Sexp)
    (offset : Nat) (hrest : Ends rest) :
    readFrom stop (form done :: outer) (lexemesFrom offset (renderItems items ++ rest))
      = readFrom stop (form (done ++ items) :: outer)
          (lexemesFrom (offset + byteLength (renderItems items)) rest) := by
  induction items generalizing done offset with
  | nil =>
      rw [List.append_nil]
      rfl
  | cons item items ih =>
      obtain ⟨hitem, hitems⟩ := List.forall_mem_cons.1 hitems
      have hlength : byteLength (renderItems (item :: items))
          = 1 + byteLength item.render + byteLength (renderItems items) := by
        rw [renderItems, byteLength_append]
        rfl
      rw [hlength, renderItems, List.cons_append, List.cons_append, List.append_assoc,
        lexemesFrom_space, hitem.readFrom hform done (ends_renderItems items hrest), ih hitems,
        List.append_assoc, List.singleton_append]
      congr 2
      omega

/-! ## Entries -/

/-- A new key goes to the end. -/
theorem put_of_not_mem {key : String} (h : key ∉ entries.map Prod.fst) :
    put key v entries = entries ++ [(key, v)] := by
  induction entries with
  | nil => rfl
  | cons entry entries ih =>
      rw [List.map_cons, List.mem_cons, not_or] at h
      rw [put, if_neg fun heq => h.1 heq.symm, ih h.2, List.cons_append]

/-- A key opens an entry of the map. -/
theorem readFrom_renderKey (key : String) (hrest : Ends rest) :
    readFrom stop (.map entries :: outer) (lexemesFrom offset (renderKey key ++ rest))
      = readFrom stop (.value entries key :: outer)
          (lexemesFrom (offset + byteLength (renderKey key)) rest) := by
  obtain ⟨kind, hspells, htext⟩ := exists_spells_key key
  have hkind : kind ≠ .closeBrace := by
    rintro rfl
    exact nomatch htext 0
  rw [hspells.lexemesFrom hrest]
  refine readFrom_cons (p := .within (.value entries key :: outer)) ?_
  simp only [take, if_neg hkind, htext]
  rfl

/-- A key and a value make an entry, the last one of the map. -/
theorem readFrom_entry {key : String} (h : Reads v v.render)
    (hkey : key ∉ entries.map Prod.fst) (hrest : Ends rest) :
    readFrom stop (.map entries :: outer)
        (lexemesFrom offset (renderKey key ++ ' ' :: v.render ++ rest))
      = readFrom stop (.map (entries ++ [(key, v)]) :: outer)
          (lexemesFrom (offset + byteLength (renderKey key ++ ' ' :: v.render)) rest) := by
  have hvalue := h stop (.value entries key :: outer) (offset + byteLength (renderKey key) + 1) rest
    trivial hrest
  rw [List.append_assoc, List.cons_append, readFrom_renderKey key (ends_cons (by decide)),
    lexemesFrom_space, hvalue, Progress.add, put_of_not_mem hkey, byteLength_append,
    ← Nat.add_assoc, byteLength, ← Nat.add_assoc]
  rfl

/-- Entries after spaces become the last entries. -/
theorem readFrom_renderEntries {entries : List (String × Sexp)}
    (hentries : ∀ entry ∈ entries, Reads entry.2 entry.2.render) (done : List (String × Sexp))
    (hkeys : ((done ++ entries).map Prod.fst).Nodup) (offset : Nat) (hrest : Ends rest) :
    readFrom stop (.map done :: outer) (lexemesFrom offset (renderEntries entries ++ rest))
      = readFrom stop (.map (done ++ entries) :: outer)
          (lexemesFrom (offset + byteLength (renderEntries entries)) rest) := by
  induction entries generalizing done offset with
  | nil =>
      rw [List.append_nil]
      rfl
  | cons entry entries ih =>
      obtain ⟨key, value⟩ := entry
      obtain ⟨(hvalue : Reads value value.render), hentries⟩ := List.forall_mem_cons.1 hentries
      have hnew : key ∉ done.map Prod.fst := by
        rw [List.map_append, List.map_cons, List.nodup_append] at hkeys
        exact fun hmem => hkeys.2.2 key hmem key List.mem_cons_self rfl
      have hlength : byteLength (renderEntries ((key, value) :: entries))
          = 1 + byteLength (renderKey key ++ ' ' :: value.render)
            + byteLength (renderEntries entries) := by
        rw [renderEntries, byteLength_append]
        rfl
      rw [hlength, renderEntries, List.append_assoc, List.cons_append, List.cons_append,
        lexemesFrom_space, readFrom_entry hvalue hnew (ends_renderEntries entries hrest),
        ih hentries (done ++ [(key, value)]) (by rwa [List.append_assoc, List.singleton_append]),
        List.append_assoc, List.singleton_append]
      congr 2
      omega

/-! ## Forms -/

/-- A list reads as its elements between brackets. -/
theorem reads_list {items : List Sexp} (h : ∀ item ∈ items, Reads item item.render) :
    Reads (.list items) (render (.list items)) := by
  intro stop frames offset rest hf hrest
  cases items with
  | nil =>
      show readFrom stop frames (lexemesFrom offset ('[' :: ']' :: rest)) = _
      rw [Opens.list.readFrom hf, (Closes.list []).readFrom]
      rfl
  | cons item items =>
      obtain ⟨hitem, hitems⟩ := List.forall_mem_cons.1 h
      have hends : Ends (']' :: rest) := ends_cons (by decide)
      have hlength : byteLength (render (.list (item :: items)))
          = 1 + byteLength item.render + byteLength (renderItems items) + 1 := by
        rw [render, byteLength_append, byteLength_append]
        rfl
      have htext : render (.list (item :: items)) ++ rest
          = '[' :: (item.render ++ (renderItems items ++ ']' :: rest)) := by simp [render]
      rw [hlength, htext, Opens.list.readFrom hf,
        hitem.readFrom collects_list [] (ends_renderItems items hends), List.nil_append,
        readFrom_renderItems collects_list hitems [item] _ hends, List.singleton_append,
        (Closes.list (item :: items)).readFrom]
      congr 2
      omega

/-- A map reads as its entries between braces. -/
theorem reads_map {entries : List (String × Sexp)} (hkeys : (entries.map Prod.fst).Nodup)
    (h : ∀ entry ∈ entries, Reads entry.2 entry.2.render) :
    Reads (.map entries) (render (.map entries)) := by
  intro stop frames offset rest hf hrest
  cases entries with
  | nil =>
      show readFrom stop frames (lexemesFrom offset ('{' :: '}' :: rest)) = _
      rw [Opens.map.readFrom hf, (Closes.map []).readFrom]
      rfl
  | cons entry entries =>
      obtain ⟨key, value⟩ := entry
      obtain ⟨(hvalue : Reads value value.render), hentries⟩ := List.forall_mem_cons.1 h
      have hends : Ends ('}' :: rest) := ends_cons (by decide)
      have hlength : byteLength (render (.map ((key, value) :: entries)))
          = 1 + byteLength (renderKey key ++ ' ' :: value.render)
            + byteLength (renderEntries entries) + 1 := by
        rw [render, List.cons_append, byteLength_append, byteLength_append]
        rfl
      have htext : render (.map ((key, value) :: entries)) ++ rest
          = '{' :: (renderKey key ++ ' ' ::
            value.render ++ (renderEntries entries ++ '}' :: rest)) := by
        simp [render]
      rw [hlength, htext, Opens.map.readFrom hf,
        readFrom_entry hvalue List.not_mem_nil (ends_renderEntries entries hends), List.nil_append,
        readFrom_renderEntries hentries [(key, value)] hkeys _ hends, List.singleton_append,
        (Closes.map ((key, value) :: entries)).readFrom]
      congr 2
      omega

/-- A call reads as its head and its arguments between parentheses. -/
theorem reads_call {head : String} {args : List Sexp} (hhead : startsPlain head)
    (h : ∀ arg ∈ args, Reads arg arg.render) :
    Reads (.call head args) (render (.call head args)) := by
  intro stop frames offset rest hf hrest
  have hends : Ends (')' :: rest) := ends_cons (by decide)
  obtain ⟨kind, hspells, hsymbol⟩ := exists_spells_symbol hhead
  have htake : ∀ offset, take (.head :: frames) ⟨kind, renderSymbol head, offset⟩
      = .ok (.within (.call head [] :: frames)) := by
    intro offset
    simp only [take, hsymbol]
    rfl
  have hlength : byteLength (render (.call head args))
      = 1 + byteLength (renderSymbol head) + byteLength (renderItems args) + 1 := by
    rw [render, byteLength_append, byteLength_append]
    rfl
  have htext : render (.call head args) ++ rest
      = '(' :: (renderSymbol head ++ (renderItems args ++ ')' :: rest)) := by simp [render]
  rw [hlength, htext, Opens.call.readFrom hf,
    hspells.lexemesFrom (ends_renderItems args hends), readFrom_cons (htake _)]
  show readFrom stop (.call head [] :: frames) _ = _
  rw [readFrom_renderItems (collects_call head) h [] _ hends, List.nil_append,
    (Closes.call head args).readFrom]
  congr 2
  omega

/-! ## Values -/

mutual

/-- The canonical text of a well-formed value reads as the value. -/
theorem reads_render : ∀ v : Sexp, v.wellFormed → Reads v v.render
  | .nil, _ => reads_nil
  | .bool b, _ => reads_bool b
  | .int i, _ => reads_int i
  | .float _, h => reads_float h
  | .str s, _ => reads_str s
  | .sym _, h => reads_sym h
  | .list items, h => reads_list (reads_renderItems items h)
  | .map entries, h => by
      obtain ⟨hkeys, hentries⟩ := Bool.and_eq_true_iff.1 h
      exact reads_map (of_decide_eq_true hkeys) (reads_renderEntries entries hentries)
  | .call _ args, h => by
      obtain ⟨hhead, hargs⟩ := Bool.and_eq_true_iff.1 h
      exact reads_call hhead (reads_renderItems args hargs)

/-- So do the elements of a list, each on its own. -/
theorem reads_renderItems : ∀ items : List Sexp, wellFormedItems items →
    ∀ item ∈ items, Reads item item.render
  | [], _ => fun _ h => nomatch h
  | item :: items, h => by
      obtain ⟨hitem, hitems⟩ := Bool.and_eq_true_iff.1 h
      exact List.forall_mem_cons.2 ⟨reads_render item hitem, reads_renderItems items hitems⟩

/-- So do the values of entries. -/
theorem reads_renderEntries : ∀ entries : List (String × Sexp), wellFormedEntries entries →
    ∀ entry ∈ entries, Reads entry.2 entry.2.render
  | [], _ => fun _ h => nomatch h
  | (_, value) :: entries, h => by
      obtain ⟨hvalue, hentries⟩ := Bool.and_eq_true_iff.1 h
      exact List.forall_mem_cons.2 ⟨reads_render value hvalue, reads_renderEntries entries hentries⟩

end

/-- The canonical text of a well-formed value is parsed as that value. -/
theorem parse_render (v : Sexp) (h : v.wellFormed) : parse v.render = .ok v := by
  have hreads := reads_render v h (byteLength v.render) [] 0 [] trivial ends_nil
  rw [List.append_nil] at hreads
  rw [parse, lexemes, hreads, lexemesFrom]
  rfl

/-- A map in a call: the smallest integer, a symbol that is a word, a key with a quote and a float
below zero. -/
theorem parse_render_nested :
    wellFormed (.call "f" [.int Int64.minValue, .sym "nil",
        .map [("a\"b", .float ⟨0xBFE8000000000000⟩), ("", .list [.str "\t"])]]) ∧
      parse (render (.call "f" [.int Int64.minValue, .sym "nil",
        .map [("a\"b", .float ⟨0xBFE8000000000000⟩), ("", .list [.str "\t"])]]))
        = .ok (.call "f" [.int Int64.minValue, .sym "nil",
          .map [("a\"b", .float ⟨0xBFE8000000000000⟩), ("", .list [.str "\t"])]]) :=
  ⟨by decide, parse_render _ (by decide)⟩

end Manifest.Sexp
