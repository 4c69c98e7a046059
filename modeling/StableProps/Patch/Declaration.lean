import StableProps.Distinct
import StableProps.Site.Name
import StableProps.Source

/-!
# New declarations

The text of the declarations that keep a value, and the constants a module has already.
-/

namespace StableProps

namespace Declaration

/-- A type in angle brackets, if there is one. -/
def typeArgument : Option String → String
  | some t => if t = "" then "" else "<" ++ t ++ ">"
  | none => ""

/-- A type behind a colon, if there is one. -/
def typeNote : Option String → String
  | some t => if t = "" then "" else ": " ++ t
  | none => ""

/-- A value kept by a hook until one of its dependencies changes. -/
def hook (name : String) (h : Hook) (annotated : Option String) (expression : String)
    (dependencies : List String) : String :=
  let list := "[" ++ String.intercalate ", " dependencies ++ "]"
  let value := match h with
    | .callback => expression
    | .memo => "() => \x7b return " ++ expression ++ "; \x7d"
  "const " ++ name ++ " = " ++ h.name ++ typeArgument annotated ++ "(" ++ value ++ ", " ++ list ++
    ");"

/-- A value kept by a constant of the module. -/
def constant (name : String) (annotated : Option String) (expression : String) : String :=
  "const " ++ name ++ typeNote annotated ++ " = " ++ expression ++ ";"

end Declaration

namespace Source

/-- The names and values that a statement declares as constants. -/
def constantsOf (statement : Node) : List (String × String) :=
  let declaration := if statement.is .exportStatement then statement.child? .declaration
    else some statement
  match declaration with
  | none => []
  | some d =>
    if d.is .lexicalDeclaration && d.children.head?.any (·.isToken "const") then
      (d.namedChildren.filter (·.is .variableDeclarator)).filterMap fun v => do
        let name ← (v.child? .name).filter (·.is .identifier)
        let value ← v.child? .value
        return (value.text, name.text)
    else []

/-- The constants of a module: the text of each value with the first name declared for it. -/
def constants (s : Source) : List (String × String) :=
  distinctBy (·.1) (s.root.namedChildren.flatMap constantsOf)

end Source

end StableProps
