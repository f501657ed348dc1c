import Phrasebook.Payload.Basic
import Phrasebook.Text.Placeholder

/-!
# Syntax — Template

A template is sound if its parameters are parameter names, no two of them equal, and every
placeholder of its text is one of them.  The first parameter that breaks a rule is reported; only
if none does, the first placeholder that is not declared.
-/

namespace Phrasebook

/-- What is wrong with a template. -/
inductive TemplateProblem where
  | undeclaredPlaceholder (text placeholder : String)
  | invalidParameter (param : String)
  | duplicateParameter (param : String)
  deriving DecidableEq

/-- The text of a problem. -/
def TemplateProblem.message : TemplateProblem → String
  | .undeclaredPlaceholder text placeholder =>
      "The translation \"" ++ text ++ "\" requires a value for " ++ placeholder ++
        " but it was not declared"
  | .invalidParameter param => "Declared argument '" ++ param ++ "' is not a valid identifier"
  | .duplicateParameter param => "Argument '" ++ param ++ "' is declared more than once"

/-- The first parameter that is no parameter name, or repeats one before it. -/
def paramProblem? (before : List String) : List String → Option TemplateProblem
  | [] => none
  | p :: ps =>
      if Text.isParameterName p = false then some (.invalidParameter p)
      else if before.contains p then some (.duplicateParameter p)
      else paramProblem? (before ++ [p]) ps

/-- The first problem of a template. -/
def templateProblem? (text : String) (params : List String) : Option TemplateProblem :=
  match paramProblem? [] params with
  | some problem => some problem
  | none =>
      ((Text.placeholders text).find? fun name => !params.contains name).map
        (.undeclaredPlaceholder text)

/-- A problem of the template at some place of a section. -/
structure TemplateFault where
  path : EntryPath
  problem : TemplateProblem
  deriving DecidableEq

/-- The text of a fault. -/
def TemplateFault.message (fault : TemplateFault) : String :=
  "Invalid template at '" ++ fault.path.text ++ "': " ++ fault.problem.message

end Phrasebook
