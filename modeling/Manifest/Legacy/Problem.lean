import Manifest.Diagnostic.Basic

/-!
# Problems of the legacy form

Not every expression has a legacy form. Each problem names the variant that has none; its code and
its wording follow from that. An error is a problem, or another error with a place around it.
-/

namespace Manifest.Legacy

open Text (SourcePosition)

/-- Why an expression has no legacy form. -/
inductive Problem
  | unsupportedResource (label : String)
  | noLegacyForm (label : String)
  | illegalQuery (label : String)
  | illegalHostName (label : String)
  | illegalHashKey (label : String)
  | notAssignable (label : String)
  | unlessWithElse
  /-- what should name something is no name -/
  | unacceptableName (role label : String)
  deriving DecidableEq, Repr

namespace Problem

/-- The code of a problem. -/
def code : Problem → Code
  | unsupportedResource _ => .unsupportedResource
  | noLegacyForm _ => .noLegacyForm
  | illegalQuery _ => .illegalQuery
  | illegalHostName _ => .illegalHostName
  | illegalHashKey _ => .illegalHashKey
  | notAssignable _ => .notAssignable
  | unlessWithElse => .unlessWithElse
  | unacceptableName _ _ => .unacceptableName

/-- What is said after the default text of the code. -/
def detail : Problem → String
  | unsupportedResource label | noLegacyForm label | illegalQuery label | illegalHostName label
  | illegalHashKey label | notAssignable label => ": " ++ label
  | unlessWithElse => ""
  | unacceptableName role label => " for " ++ role ++ ": " ++ label

/-- The wording of a problem. -/
def text (p : Problem) : String := p.code.defaultText ++ p.detail

end Problem

/-- Why a conversion failed: with a problem, or with an error inside that was given a place. -/
inductive Error
  | plain (p : Problem)
  | placed (position : SourcePosition) (error : Error)
  deriving DecidableEq, Repr

namespace Error

/-- The problem inside, without any place. -/
def problem : Error → Problem
  | plain p => p
  | placed _ error => error.problem

/-- The outermost place. -/
def position : Error → Option SourcePosition
  | plain _ => none
  | placed position _ => some position

/-- The code of the problem. -/
def code (e : Error) : Code := e.problem.code

/-- The shown form of an error. -/
def display (e : Error) : String := located e.code e.problem.text e.position

/-- The error with a place around it, unless it has one already or there is none. -/
def orAt : Error → Option SourcePosition → Error
  | placed position error, _ => placed position error
  | plain p, some position => placed position (plain p)
  | plain p, none => plain p

/-- A place changes nothing of the problem. -/
@[simp]
theorem problem_orAt (e : Error) (position : Option SourcePosition) :
    (e.orAt position).problem = e.problem := by
  cases e with
  | placed p error => rfl
  | plain p => cases position <;> rfl

/-- A problem keeps the first place that it is given. -/
theorem orAt_orAt (p : Problem) (first second : Option SourcePosition) :
    ((plain p).orAt first).orAt second = (plain p).orAt (first <|> second) := by
  cases first <;> rfl

end Error

end Manifest.Legacy
