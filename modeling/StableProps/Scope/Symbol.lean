import StableProps.Scope.Binding

/-!
# Symbols

A symbol is a name with the place that binds it, the declaration around that place and the scope
it belongs to.
-/

namespace StableProps

/-- What sort of declaration binds a name. -/
inductive BindingKind where
  | plain
  | parameter
  | function
  | classDefinition
  | imported
  | typeName
  | enumeration
  | caught
  deriving DecidableEq, Repr

/-- The word that reports use for a sort of declaration. -/
def BindingKind.name : BindingKind → String
  | .plain => "variable"
  | .parameter => "parameter"
  | .function => "function"
  | .classDefinition => "class"
  | .imported => "import"
  | .typeName => "type"
  | .enumeration => "enum"
  | .caught => "catch"

/-- A declared name. -/
structure Symbol where
  /-- The name. -/
  name : String
  /-- The sort of declaration. -/
  kind : BindingKind
  /-- Where the name stands in its declaration. -/
  binding : Focus
  /-- The declaration. -/
  declaration : Focus
  /-- The number of the node that opens the scope of the name. -/
  scope : Nat
  /-- The path to the name inside a destructuring. -/
  path : List Step

namespace Symbol

/-- Statements that declare variables, functions or classes. -/
def statementKinds : List Kind :=
  [.lexicalDeclaration, .variableDeclaration, .functionDeclaration, .generatorFunctionDeclaration,
   .classDeclaration, .abstractClassDeclaration]

/-- The value a variable starts with. -/
def initializer? (s : Symbol) : Option Focus :=
  if s.kind = .plain ∧ s.declaration.node.is .variableDeclarator then s.declaration.child? .value
  else none

/-- The type written for a variable or parameter; parts of a destructuring have none. -/
def annotation? (s : Symbol) : Option Focus :=
  if s.path = [] ∧ (s.kind = .plain ∨ s.kind = .parameter) then s.declaration.child? .type
  else none

/-- The statement that introduces the symbol. -/
def statement? (s : Symbol) : Option Focus :=
  if s.kind = .function ∨ s.kind = .classDefinition then some s.declaration
  else s.declaration.findUp? (·.node.isOneOf statementKinds)

end Symbol

end StableProps
