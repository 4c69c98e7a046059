import StableProps.Json.Value
import StableProps.Lift.Finding

/-!
# Findings as JSON

The form in which findings are handed to other programs.
-/

namespace StableProps

/-- An edit as JSON. -/
def Edit.json (e : Edit) : Json :=
  .object [("start", .integer e.start), ("end", .integer e.stop), ("text", .string e.text)]

/-- What the message of a suggestion is about. -/
def Suggestion.data (s : Suggestion) : List (String × Json) :=
  ("name", .string s.name) ::
    match s.keeping with
    | .hook h => [("hookName", .string h.name)]
    | .constant => []

/-- A suggestion as JSON. -/
def Suggestion.json (s : Suggestion) : Json :=
  .object [
    ("message_id", .string s.keeping.messageId), ("message", .string s.message),
    ("data", .object s.data), ("strategy", .string s.keeping.strategy.name),
    ("fix", .object [("edits", .array (s.edits.map Edit.json))])]

/-- A finding as JSON. -/
def Finding.json (f : Finding) : Json :=
  .object [
    ("path", .string f.path.text), ("message_id", .string Finding.messageId),
    ("message", .string f.message),
    ("data", .object [
      ("type", .string f.category.name), ("propName", .string f.attributeName)]),
    ("line", .integer f.line), ("column", .integer f.column), ("element", .string f.element),
    ("start", .integer f.start), ("end", .integer f.stop),
    ("suggestions", .array (f.suggestions.map Suggestion.json))]

end StableProps
