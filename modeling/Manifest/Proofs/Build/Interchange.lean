import Manifest.Build.Call
import Manifest.Build.Form
import Manifest.Build.Interpolation
import Manifest.Build.Shape

/-!
# Tokens and the expressions they stand for

Where a form of the language is built, a token may be given in place of the expression that it
stands for, also deep inside lists and maps. A material is converted before anything else is done
with it, and the conversions agree on the two. Only references are made differently from a token
that is a name, and the braces behind some tokens mean something else than those behind the
expression.

* `Exchange` — one token in a material is replaced by an expression.
* `Takes` — the functions that build something, each at one of its arguments.
* `token_interchange` — which of them tell a token from its expression.
* `toReference_keeps_name` — a token that is a name does not become a reference.
-/

namespace Manifest.Build

open Text (Excerpt Source)
open Token (Kind)

variable {t : Token} {e : Expr} {m m' : Material}

/-! ## Tokens that stand for expressions -/

/-- The expression does something, is no name, and no braces may follow it. -/
structure Standalone (e : Expr) : Prop where
  isNop : e.isNop = false
  not_name : ∀ s, e.node ≠ .leaf (.name s)
  shape : shapeAfter e = .none

/-- A token stands for a name, for a reference, or for something that stands alone. -/
theorem toExpr_cases (h : t.toExpr = .ok e) :
    ((t.kind = .name ∨ t.kind = .word) ∧ e = t.leafExpr (.name t.text)) ∨
    (t.kind = .reference ∧ e = t.leafExpr (.reference t.text)) ∨
    (t.kind ∉ [.name, .word, .reference] ∧ Standalone e) := by
  unfold Token.toExpr at h
  split at h
  case h_1 hkind => exact .inl ⟨.inl hkind, (Except.ok.inj h).symm⟩
  case h_2 hkind => exact .inl ⟨.inr hkind, (Except.ok.inj h).symm⟩
  case h_3 hkind => exact .inr (.inl ⟨hkind, (Except.ok.inj h).symm⟩)
  case h_4 hkind =>
    unfold Token.toNumber at h
    split at h
    next n _ =>
      obtain rfl := Except.ok.inj h
      refine .inr (.inr ⟨by rw [hkind]; decide, ?_⟩)
      cases n with
      | integer value radix => exact ⟨rfl, nofun, rfl⟩
      | float x => exact ⟨rfl, nofun, rfl⟩
    next => exact nomatch h
  case h_12 => exact nomatch h
  all_goals
    next hkind =>
      obtain rfl := Except.ok.inj h
      exact .inr (.inr ⟨by rw [hkind]; simp, rfl, nofun, rfl⟩)

/-- No token stands for an expression that does nothing. -/
theorem isNop_of_toExpr (h : t.toExpr = .ok e) : e.isNop = false := by
  obtain ⟨_, rfl⟩ | ⟨_, rfl⟩ | ⟨_, he⟩ := toExpr_cases h
  · rfl
  · rfl
  · exact he.isNop

/-! ## Conversions

What is converted is the token, or a list or a map with the token somewhere inside. -/

/-- A material and what it becomes when an expression replaces one token in it. -/
inductive Exchange (t : Token) (e : Expr) : Material → Material → Prop
  | token : Exchange t e (.token t) (.expr e)
  | item {m m' : Material} (front back : List Material) (h : Exchange t e m m') :
      Exchange t e (.list (front ++ m :: back)) (.list (front ++ m' :: back))
  | value {m m' : Material} (front : List (String × Material)) (key : String)
      (back : List (String × Material)) (h : Exchange t e m m') :
      Exchange t e (.map (front ++ (key, m) :: back)) (.map (front ++ (key, m') :: back))

/-- In a list, a material may be exchanged for one that stands for the same expression. -/
theorem toExprs_congr (front back : List Material) (h : m.toExpr = m'.toExpr) :
    Material.toExprs (front ++ m :: back) = Material.toExprs (front ++ m' :: back) := by
  induction front with
  | nil => simp only [List.nil_append, Material.toExprs, h]
  | cons first front ih => simp only [List.cons_append, Material.toExprs, ih]

/-- As the value of a key, a material may be exchanged for one that stands for the same expression.
-/
theorem toValues_congr (front : List (String × Material)) (key : String)
    (back : List (String × Material)) (h : m.toExpr = m'.toExpr) :
    Material.toValues (front ++ (key, m) :: back) =
      Material.toValues (front ++ (key, m') :: back) := by
  induction front with
  | nil => simp only [List.nil_append, Material.toValues, h]
  | cons first front ih => simp only [List.cons_append, Material.toValues, ih]

namespace Exchange

/-- Exchanged materials stand for the same expression. -/
theorem toExpr (hm : Exchange t e m m') (h : t.toExpr = .ok e) : m.toExpr = m'.toExpr := by
  induction hm with
  | token => rw [Material.toExpr, Material.toExpr, h]
  | item front back _ ih =>
      rw [Material.toExpr, Material.toExpr, toExprs_congr front back ih]
  | value front key back _ ih =>
      rw [Material.toExpr, Material.toExpr, toValues_congr front key back ih]

theorem toExprs (hm : Exchange t e m m') (h : t.toExpr = .ok e) (front back : List Material) :
    Material.toExprs (front ++ m :: back) = Material.toExprs (front ++ m' :: back) :=
  toExprs_congr front back (hm.toExpr h)

/-- A name is made from a plain string alone. -/
theorem toName (hm : Exchange t e m m') (h : t.toExpr = .ok e) : m.toName = m'.toName := by
  cases hm with
  | token => exact Exchange.token.toExpr h
  | item front back hm => exact (Exchange.item front back hm).toExpr h
  | value front key back hm => exact (Exchange.value front key back hm).toExpr h

/-- Exchanged materials are spread into the same expressions. -/
theorem spread (hm : Exchange t e m m') (h : t.toExpr = .ok e) : m.spread = m'.spread := by
  cases hm with
  | token => exact congrArg (Except.map _) (Exchange.token.toExpr h)
  | item front back hm => exact hm.toExprs h front back
  | value front key back hm =>
      exact congrArg (Except.map _) ((Exchange.value front key back hm).toExpr h)

/-- Of exchanged materials both are absent or none. -/
theorem isAbsent (hm : Exchange t e m m') (h : t.toExpr = .ok e) : m.isAbsent = m'.isAbsent := by
  cases hm with
  | token => exact (isNop_of_toExpr h).symm
  | item => rfl
  | value => rfl

theorem toExpr? (hm : Exchange t e m m') (h : t.toExpr = .ok e) : m.toExpr? = m'.toExpr? := by
  rw [Material.toExpr?, Material.toExpr?, hm.isAbsent h, hm.toExpr h]

/-- Exchanged materials make up the same statements. -/
theorem toStatements (hm : Exchange t e m m') (h : t.toExpr = .ok e) :
    m.toStatements = m'.toStatements := by
  cases hm with
  | token => exact Exchange.token.toExpr h
  | item front back hm => exact congrArg (Except.map _) (hm.toExprs h front back)
  | value front key back hm =>
      exact congrArg (Except.map _) ((Exchange.value front key back hm).toExpr h)

/-- Exchanged materials make up the same body. -/
theorem toBody? (hm : Exchange t e m m') (h : t.toExpr = .ok e) : m.toBody? = m'.toBody? := by
  have hs := hm.toStatements h
  cases hm with
  | token => exact congrArg (Except.map some) hs
  | item => exact congrArg (Except.map some) hs
  | value => exact congrArg (Except.map some) hs

/-- Only a list is no statement. -/
theorem addStatement (hm : Exchange t e m m') (h : t.toExpr = .ok e) (source : Option Source)
    (done : List Expr) : addStatement source done m = addStatement source done m' := by
  have hx := hm.toExpr h
  have hs := hm.spread h
  unfold Build.addStatement
  split
  · rw [hs]
  · cases hm with
    | token => exact congrArg (Except.map _) hx
    | item => rfl
    | value => exact congrArg (Except.map _) hx

end Exchange

/-- Statements that are added to others do not tell them apart. -/
theorem addStatements_exchange (hm : Exchange t e m m') (h : t.toExpr = .ok e)
    (source : Option Source) (front back : List Material) (done : List Expr) :
    addStatements source done (front ++ m :: back) =
      addStatements source done (front ++ m' :: back) := by
  induction front generalizing done with
  | nil => simp only [List.nil_append, addStatements, hm.addStatement h]
  | cons first front ih => simp only [List.cons_append, addStatements, ih]

/-! ## Functions that build something -/

/-- The functions that build something, each at one of its arguments, which may be an item of a
list; the other arguments are fixed. Those that make a reference and `shape` are not among them. -/
inductive Takes : {α : Type} → (Material → α) → Prop
  /-- a literal -/
  | toExpr : Takes Material.toExpr
  | toName : Takes Material.toName
  | toStatements : Takes Material.toStatements
  | toBody? : Takes Material.toBody?
  | dollar : Takes dollar
  | text : Takes text
  | list : Takes list
  | sequence (kind : Sequence) (front back : List Material) :
      Takes fun m => sequence kind (front ++ m :: back)
  | statementCalls (source : Option Source) (front back : List Material) :
      Takes fun m => statementCalls source (front ++ m :: back)
  | unary (op : UnaryOp) : Takes (unary op)
  | binaryLeft (op : BinaryOp) (right : Material) : Takes fun m => binary op m right
  | binaryRight (op : BinaryOp) (left : Material) : Takes fun m => binary op left m
  | assignLeft (source : Option Source) (op : AssignmentOp) (right : Material) :
      Takes fun m => assign source op m right
  | assignRight (source : Option Source) (op : AssignmentOp) (left : Material) :
      Takes fun m => assign source op left m
  | accessLeft (keys : List Material) : Takes fun m => access m keys
  | accessKey (left : Material) (front back : List Material) :
      Takes fun m => access left (front ++ m :: back)
  | entryKey (value : Material) : Takes fun m => entry m value
  | entryValue (key : Material) : Takes fun m => entry key m
  | branchTest (form : BranchForm) (thenBody elseBody : Material) :
      Takes fun m => branch form m thenBody elseBody
  | branchThen (form : BranchForm) (test elseBody : Material) :
      Takes fun m => branch form test m elseBody
  | branchElse (form : BranchForm) (test thenBody : Material) :
      Takes fun m => branch form test thenBody m
  | cases (options : List (CaseOption Expr)) : Takes fun m => cases m options
  | optionValues (body : Material) : Takes fun m => caseOption m body
  | optionBody (values : Material) : Takes fun m => caseOption values m
  | selector (entries : List (Entry Expr)) : Takes fun m => selector m entries
  | hereDoc (format : Option String) : Takes fun m => hereDoc m format
  | located (excerpt : Excerpt) : Takes (located excerpt)
  | template (params : Option (List (Parameter Expr))) : Takes (template params)
  | resource (form : ResourceForm) (bodies : List (ResourceBody Expr)) :
      Takes fun m => resource form m bodies
  | resourceBody (operations : List (Operation Expr)) : Takes fun m => resourceBody m operations
  | settings (what : SettingsForm) (form : ResourceForm) (operations : List (Operation Expr)) :
      Takes fun m => settings what form m operations
  | query (kind : QueryKind) : Takes (query kind)
  | attributeOperation (name : String) (op : AttributeOp) : Takes (attributeOperation name op)
  | attributesOperation : Takes attributesOperation
  | definition (form : DefinitionForm) (name : String) (params : List (Parameter Expr)) :
      Takes (definition form name params)
  | function (name : String) (params : List (Parameter Expr)) (returns : Option Expr) :
      Takes fun m => function name params m returns
  | lambda (params : List (Parameter Expr)) (returns : Option Expr) :
      Takes fun m => lambda params m returns
  | host (names : List Expr) (parent : Option Expr) : Takes (host names parent)
  | site : Takes site
  | typeAlias (name : String) : Takes (typeAlias name)
  | mappedType (mapping : Material) : Takes fun m => typeMapping m mapping
  | mapping (type : Material) : Takes (typeMapping type)
  | typeDefinition (name : String) (parent : Option String) : Takes (typeDefinition name parent)
  | capability (verb name : String) (mappings : List (Operation Expr)) :
      Takes fun m => capability verb m name mappings
  | callNamed (source : Option Source) (valueRequired : Bool) (args : List Expr) :
      Takes fun m => callNamed source m valueRequired args
  | call (form : CallForm) (valueRequired : Bool) (args : List Expr) (block : Option Expr) :
      Takes fun m => call form m valueRequired args block
  | program (source : Option Source) : Takes (program source)

/-- A token stands for a list of one, as an expression does. -/
theorem list_exchange (hm : Exchange t e m m') (h : t.toExpr = .ok e) : list m = list m' := by
  have hs := hm.spread h
  cases hm with
  | token => exact congrArg (Except.map _) hs
  | item => exact congrArg (Except.map _) hs
  | value => exact congrArg (Except.map _) hs

/-- A function treats a token as the expression that the token stands for, by way of the conversion
that it begins with. -/
theorem eq_of_takes {α : Type} {f : Material → α} (hf : Takes f) (hm : Exchange t e m m')
    (h : t.toExpr = .ok e) : f m = f m' := by
  cases hf with
  | toExpr => exact hm.toExpr h
  | toName => exact hm.toName h
  | toStatements => exact hm.toStatements h
  | toBody? => exact hm.toBody? h
  | list => exact list_exchange hm h
  | dollar | callNamed => simp only [dollar, callNamed, hm.toName h]
  | sequence | accessKey => simp only [sequence, access, hm.toExprs h]
  | statementCalls => simp only [statementCalls, addStatements_exchange hm h]
  | optionValues => simp only [caseOption, hm.spread h]
  | optionBody | branchThen | branchElse | program =>
      simp only [caseOption, branch, program, hm.toStatements h]
  | template | definition | function | lambda | host | site | typeDefinition =>
      simp only [template, definition, function, lambda, host, site, typeDefinition, hm.toBody? h]
  | resourceBody | query => simp only [resourceBody, query, hm.toExpr? h]
  | text | located | hereDoc => simp only [text, located, hereDoc, hm.toExpr h]
  | unary | binaryLeft | binaryRight | assignLeft | assignRight | accessLeft | call =>
      simp only [unary, binary, assign, access, call, hm.toExpr h]
  | entryKey | entryValue | branchTest | cases | selector =>
      simp only [entry, branch, cases, selector, hm.toExpr h]
  | resource | settings | attributeOperation | attributesOperation =>
      simp only [resource, settings, attributeOperation, attributesOperation, hm.toExpr h]
  | typeAlias | mappedType | mapping | capability =>
      simp only [typeAlias, typeMapping, capability, hm.toExpr h]

/-! ## References and braces -/

/-- What is no name stays as it is where a reference is made. -/
theorem toReference_expr (hn : ∀ s, e.node ≠ .leaf (.name s)) :
    (Material.expr e).toReference = .ok e := by
  unfold Material.toReference
  split
  next heq => exact nomatch heq
  next s range heq =>
    obtain rfl := Material.expr.inj heq
    exact absurd rfl (hn s)
  next => rw [Material.toExpr]

/-- Only a token that is a name is told from its expression where a reference is made: it stays a
name, and its expression becomes the reference. -/
theorem toReference_eq_iff (hm : Exchange t e m m') (h : t.toExpr = .ok e) :
    m.toReference = m'.toReference ↔ (m = .token t → t.kind ≠ .name ∧ t.kind ≠ .word) := by
  cases hm with
  | token =>
      have ht : (Material.token t).toReference = .ok e := by
        rw [Material.toReference, Material.toExpr, h]
        all_goals nofun
      rw [ht]
      obtain ⟨hkind, rfl⟩ | ⟨hkind, rfl⟩ | ⟨hkind, he⟩ := toExpr_cases h
      · refine iff_of_false (by simp [Token.leafExpr, Material.toReference]) fun hne => ?_
        exact hkind.elim (hne rfl).1 (hne rfl).2
      · refine iff_of_true (toReference_expr (by simp [Token.leafExpr])).symm fun _ => ?_
        rw [hkind]
        exact ⟨nofun, nofun⟩
      · refine iff_of_true (toReference_expr he.not_name).symm fun _ => ?_
        exact ⟨fun hn => hkind (by simp [hn]), fun hw => hkind (by simp [hw])⟩
  | item front back hm =>
      exact iff_of_true ((Exchange.item front back hm).toExpr h) nofun
  | value front key back hm =>
      exact iff_of_true ((Exchange.value front key back hm).toExpr h) nofun

/-- The same is collected only if the types are the same reference. -/
theorem collect_eq_iff (query : Query Expr) (operations : List (Operation Expr)) :
    collect m query operations = collect m' query operations ↔ m.toReference = m'.toReference := by
  unfold collect
  cases m.toReference <;> cases m'.toReference <;> simp [Except.map, Expr.ofNode]

/-- Braces mean something else behind three tokens than behind their expressions: behind a word with
hyphens, which creates resources only as an expression; behind the keyword `class`, since braces
mean nothing behind a reserved word; and behind a name with that spelling. -/
theorem shape_eq_iff (hm : Exchange t e m m') (h : t.toExpr = .ok e) :
    shape m = shape m' ↔ (m = .token t →
      t.kind ≠ .word ∧ t.kind ≠ .keyword .classWord ∧ (t.kind = .name → t.text ≠ "class")) := by
  cases hm with
  | token =>
      simp only [shape, shapeAfterToken, forall_const]
      obtain ⟨hkind | hkind, rfl⟩ | ⟨hkind, rfl⟩ | ⟨hkind, he⟩ := toExpr_cases h
      · by_cases htext : t.text = "class" <;> simp [hkind, Token.leafExpr, shapeAfter, htext]
      · by_cases htext : t.text = "class" <;> simp [hkind, Token.leafExpr, shapeAfter, htext]
      · simp [hkind, Token.leafExpr, shapeAfter]
      · rw [he.shape]
        split
        next hclass => simp [hclass]
        next hname => simp [hname] at hkind
        next href => simp [href] at hkind
        next hclass _ _ =>
          refine iff_of_true rfl ⟨fun hw => hkind (by simp [hw]), hclass, fun hn => ?_⟩
          simp [hn] at hkind
  | item => exact iff_of_true rfl nofun
  | value => exact iff_of_true rfl nofun

/-! ## Interchange -/

/-- **Tokens and their expressions can be interchanged** wherever something is built, at any depth
of what it is built from, but for two things. No reference is made from a token that is a name, so
that what is collected has a name for its type; and braces behind some tokens mean something
else. -/
theorem token_interchange (h : t.toExpr = .ok e) (hm : Exchange t e m m') :
    (∀ {α : Type} (f : Material → α), Takes f → f m = f m') ∧
    (m.toReference = m'.toReference ↔ (m = .token t → t.kind ≠ .name ∧ t.kind ≠ .word)) ∧
    (∀ query operations, collect m query operations = collect m' query operations ↔
      (m = .token t → t.kind ≠ .name ∧ t.kind ≠ .word)) ∧
    (shape m = shape m' ↔ (m = .token t →
      t.kind ≠ .word ∧ t.kind ≠ .keyword .classWord ∧ (t.kind = .name → t.text ≠ "class"))) := by
  have hreference := toReference_eq_iff hm h
  refine ⟨fun f hf => eq_of_takes hf hm h, hreference, fun query operations => ?_,
    shape_eq_iff hm h⟩
  rw [collect_eq_iff]
  exact hreference

/-- The name `foo` at the start of a text. -/
def fooToken : Token := ⟨.name, .text "foo", ⟨0, 3⟩, .document (.ofText ['f', 'o', 'o'] "t.pp")⟩

/-- What it stands for. -/
def fooName : Expr := fooToken.leafExpr (.name "foo")

/-- A name that begins a statement call. -/
def includeName : Expr := .ofLeaf (.name "include")

/-- A name behind an undefined argument, as a token and as an expression. -/
theorem token_interchange_foo :
    (∃ es,
      statementCalls none [.expr includeName, .list [.undef, .token fooToken]] = .ok es ∧
      statementCalls none [.expr includeName, .list [.undef, .expr fooName]] = .ok es) ∧
    text (.token fooToken) = text (.expr fooName) ∧
    shape (.token fooToken) = shape (.expr fooName) ∧
    (Material.list [.token fooToken]).toReference =
      (Material.list [.expr fooName]).toReference := by
  have hname : fooToken.toExpr = .ok fooName := rfl
  have hargs : Exchange fooToken fooName (.list [.undef, .token fooToken])
      (.list [.undef, .expr fooName]) := .item [.undef] [] .token
  obtain ⟨hbuild, -, -, hshape⟩ := token_interchange hname .token
  have hcalls := (token_interchange hname hargs).1 _ (.statementCalls none [.expr includeName] [])
  refine ⟨⟨_, hcalls.trans rfl, rfl⟩, hbuild _ .text, hshape.mpr fun _ => ?_, ?_⟩
  · exact ⟨nofun, nofun, fun _ => by decide⟩
  · exact (token_interchange hname (.item [] [] .token)).2.1.mpr nofun

/-- A name becomes the reference of that spelling as an expression, and stays a name as a token. -/
theorem toReference_keeps_name : fooToken.toExpr = .ok fooName ∧
    (Material.token fooToken).toReference ≠ (Material.expr fooName).toReference := by
  have htoken : (Material.token fooToken).toReference = .ok fooName := rfl
  have hexpr : (Material.expr fooName).toReference
      = .ok (fooToken.leafExpr (.reference "foo")) := rfl
  refine ⟨rfl, ?_⟩
  rw [htoken, hexpr]
  simp [fooName, Token.leafExpr]

end Manifest.Build
