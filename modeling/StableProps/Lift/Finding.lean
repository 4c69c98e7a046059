import StableProps.Patch.Part
import StableProps.Site.Name

/-!
# Findings

A finding tells that a fresh value is passed to an attribute, and suggests how to keep it. The
first suggestion is the one a fix applies.
-/

namespace StableProps

/-- How a suggestion keeps a value. -/
inductive Keeping where
  | hook (h : Hook)
  | constant
  deriving DecidableEq, Repr

namespace Keeping

/-- The strategy of a way to keep a value. -/
def strategy : Keeping → Strategy
  | .hook _ => .hook
  | .constant => .constant

/-- The identifier of the message. -/
def messageId : Keeping → String
  | .hook _ => "fixWithUseHook"
  | .constant => "fixWithTopLevelScopeConstant"

/-- The message about a new name. -/
def message (name : String) : Keeping → String
  | .hook h => "Wrap it with \"const " ++ name ++ " = " ++ h.name ++ "(...)\""
  | .constant => "Move it to the top-level constant \"" ++ name ++ "\""

end Keeping

/-- A way to keep a value under a name. -/
structure Draft where
  name : String
  keeping : Keeping
  /-- What is changed, before it is put together with other changes. -/
  parts : FixParts

/-- A way to keep a value, with its changes put together. -/
structure Suggestion extends Draft where
  /-- The changes as edits. -/
  edits : List Edit

/-- The message of a suggestion. -/
def Suggestion.message (s : Suggestion) : String := s.keeping.message s.name

/-- A fresh value that is passed to an attribute. -/
structure Finding where
  path : Path
  category : Category
  attributeName : String
  line : Nat
  column : Nat
  /-- The tag of the element. -/
  element : String
  start : Nat
  stop : Nat
  suggestions : List Suggestion

namespace Finding

/-- The identifier of the message. -/
def messageId : String := "noInline"

/-- The message of a finding. -/
def message (f : Finding) : String :=
  "Avoid passing an inline " ++ f.category.name ++ " as '" ++ f.attributeName ++
    "', it creates a new value on every render"

end Finding

end StableProps
