import StableProps.Scope.Symbol

/-!
# What a module declares

A tree is visited once from the outside in. Each node plays a role that its parent gives it: most
are visited plainly, parameters and declarators bind names, and what cannot hold declarations is
ignored. The visit yields events in source order: a scope opens, a block stands for a scope that
is open already, or a name is declared.
-/

namespace StableProps

/-- The two kinds of names. -/
inductive Namespace where
  | value
  | type
  deriving DecidableEq, Repr

/-- What a visit meets. -/
inductive Event where
  /-- A node opens a scope inside others, which are given by their numbers, innermost first. -/
  | opened (opener : Focus) (outer : List Nat)
  /-- A node stands for the scope of another one. -/
  | shared (block : Nat) (scope : Nat)
  /-- A name is declared. -/
  | declared (symbol : Symbol) (spaces : List Namespace)

/-- The role a node plays in the visit. -/
inductive Role where
  /-- Visited for its own sake. -/
  | plain
  /-- The parameters of a function. -/
  | parameterList
  /-- One parameter of a function. -/
  | parameter
  /-- The block of a function, which shares the function's scope. -/
  | functionBlock
  /-- A block that opens no scope of its own. -/
  | transparent
  /-- A variable with its value; hoisted ones belong to the function around them. -/
  | declarator (hoisted : Bool)
  /-- Not visited. -/
  | ignored
  deriving DecidableEq, Repr

/-- The open scopes at a point of the visit, innermost first, as the nodes that opened them. -/
abbrev OpenScopes := List Node

namespace OpenScopes

/-- The number of the innermost scope. -/
def current (scopes : OpenScopes) : Nat := (scopes.head?.map Node.id).getD 0

/-- The number of the outermost scope. -/
def root (scopes : OpenScopes) : Nat := (scopes.getLast?.map Node.id).getD 0

/-- The number of the nearest scope that belongs to a function, or of the outermost one. -/
def function : OpenScopes → Nat
  | [] => 0
  | [s] => s.id
  | s :: t :: rest => if s.isFunction then s.id else function (t :: rest)

end OpenScopes

namespace Event

/-- The declaration of a name in a scope. -/
def declare (scope : Nat) (kind : BindingKind) (declaration : Focus) (spaces : List Namespace)
    (bound : Bound) : Event :=
  .declared ⟨bound.place.node.text, kind, bound.place, declaration, scope, bound.path⟩ spaces

/-- The declaration of the name a node has as its child, if it has one. -/
def declareName (scope : Nat) (kind : BindingKind) (f : Focus) (spaces : List Namespace) :
    List Event :=
  (f.child? .name).toList.map fun name => declare scope kind f spaces ⟨name, []⟩

/-- The names that one part of an import clause brings in. -/
def ofImportPart (scope : Nat) (statement part : Focus) : List Event :=
  let both : List Namespace := [.value, .type]
  match part.node.label with
  | .rule .identifier => [declare scope .imported statement both ⟨part, []⟩]
  | .rule .namespaceImport =>
    (part.node.childOf? .identifier).toList.map fun name =>
      declare scope .imported part both ⟨part.down name, []⟩
  | .rule .namedImports =>
    (part.namedChildren.filter (·.node.is .importSpecifier)).flatMap fun specifier =>
      (specifier.child? .alias <|> specifier.child? .name).toList.map fun name =>
        declare scope .imported specifier both ⟨name, []⟩
  | _ => []

/-- The names an import brings in. -/
def ofImport (scope : Nat) (f : Focus) : List Event :=
  match f.node.childOf? .importClause with
  | none => []
  | some clause => (f.down clause).namedChildren.flatMap (ofImportPart scope f)

/-- The pattern of a parameter. -/
def parameterPattern? (f : Focus) : Option Focus :=
  let pattern := match f.node.label with
    | .rule .requiredParameter => f.child? .pattern
    | .rule .optionalParameter => f.child? .pattern
    | .rule .assignmentPattern => f.child? .left
    | _ => some f
  pattern.filter (!·.node.is .thisKeyword)

/-- What happens when the visit reaches a node that is visited for its own sake: the events and
the scopes open below the node. -/
def enterPlain (f : Focus) (scopes : OpenScopes) : List Event × OpenScopes :=
  let n := f.node
  let opening : Event := .opened f (scopes.map Node.id)
  if n.isFunction then
    let name := (f.child? .name).filter (·.node.is .identifier)
    let home := if n.isOneOf [.functionDeclaration, .generatorFunctionDeclaration] then
      scopes.current else n.id
    let named := name.toList.map fun name => declare home .function f [.value] ⟨name, []⟩
    let single := (f.child? .parameter).toList.map fun p =>
      declare n.id .parameter p [.value] ⟨p, []⟩
    (opening :: named ++ single, n :: scopes)
  else match n.kind? with
    | some .classDeclaration =>
      (declareName scopes.current .classDefinition f [.value, .type], scopes)
    | some .abstractClassDeclaration =>
      (declareName scopes.current .classDefinition f [.value, .type], scopes)
    | some .importStatement => (ofImport scopes.root f, scopes)
    | some .interfaceDeclaration => (declareName scopes.current .typeName f [.type], scopes)
    | some .typeAliasDeclaration => (declareName scopes.current .typeName f [.type], scopes)
    | some .enumDeclaration =>
      (declareName scopes.current .enumeration f [.value, .type], scopes)
    | some .statementBlock => ([opening], n :: scopes)
    | some .forStatement => ([opening], n :: scopes)
    | some .forInStatement =>
      let left := if (f.child? .kind).isSome then f.child? .left else none
      let bound := left.toList.flatMap Focus.bindings
      (opening :: bound.map (declare n.id .plain f [.value]), n :: scopes)
    | some .catchClause =>
      let bound := (f.child? .parameter).toList.flatMap Focus.bindings
      (opening :: bound.map (declare n.id .caught f [.value]), n :: scopes)
    | _ => ([], scopes)

/-- What happens when the visit reaches a node in a role. -/
def enter (role : Role) (f : Focus) (scopes : OpenScopes) : List Event × OpenScopes :=
  match role with
  | .plain => enterPlain f scopes
  | .parameter =>
    let bound := (parameterPattern? f).toList.flatMap Focus.bindings
    (bound.map (declare scopes.current .parameter f [.value]), scopes)
  | .functionBlock => ([.shared f.id scopes.current], scopes)
  | .declarator hoisted =>
    let bound := (f.child? .name).toList.flatMap Focus.bindings
    let home := if hoisted then scopes.function else scopes.current
    (bound.map (declare home .plain f [.value]), scopes)
  | _ => ([], scopes)

/-- The role of the parts of a function. -/
def functionPart (c : Node) : Role :=
  if c.field = some .parameters then .parameterList
  else if c.field = some .body then if c.is .statementBlock then .functionBlock else .plain
  else .ignored

/-- The role a visited node gives a child. -/
def plainPart (n c : Node) : Role :=
  if n.isFunction then functionPart c
  else match n.kind? with
    | some .lexicalDeclaration => if c.is .variableDeclarator then .declarator false else .ignored
    | some .variableDeclaration => if c.is .variableDeclarator then .declarator true else .ignored
    | some .importStatement => .ignored
    | some .interfaceDeclaration => .ignored
    | some .typeAliasDeclaration => .ignored
    | some .enumDeclaration => .ignored
    | some .forInStatement =>
      if c.field = some .right ∨ c.field = some .body then .plain else .ignored
    | some .catchClause => if c.field = some .body then .transparent else .ignored
    | _ => .plain

/-- The role of the parts of a parameter: only its default is visited. -/
def parameterPart (n c : Node) : Role :=
  let field : Option Field := match n.label with
    | .rule .requiredParameter => some .value
    | .rule .optionalParameter => some .value
    | .rule .assignmentPattern => some .right
    | _ => none
  if field.isSome ∧ c.field = field ∧ (parameterPattern? ⟨n, []⟩).isSome then .plain else .ignored

/-- The role a node in a role gives its child. -/
def roleOf (role : Role) (n c : Node) : Role :=
  match role with
  | .plain => plainPart n c
  | .parameterList => if c.isNamed then .parameter else .ignored
  | .parameter => parameterPart n c
  | .functionBlock => .plain
  | .transparent => .plain
  | .declarator _ => if c.field = some .value then .plain else .ignored
  | .ignored => .ignored

mutual

/-- The events of a node and all below it. -/
def ofNode (role : Role) (scopes : OpenScopes) (above : List Node) (n : Node) : List Event :=
  match n with
  | ⟨id, label, field, start, stop, text, children⟩ =>
    let n : Node := ⟨id, label, field, start, stop, text, children⟩
    let (here, inner) := enter role ⟨n, above⟩ scopes
    here ++ ofChildren role n inner (n :: above) children
termination_by structural n

/-- The events of the children of a node. -/
def ofChildren (role : Role) (n : Node) (scopes : OpenScopes) (above : List Node)
    (children : List Node) : List Event :=
  match children with
  | [] => []
  | c :: cs =>
    ofNode (roleOf role n c) scopes above c ++ ofChildren role n scopes above cs
termination_by structural children

end

/-- The events of a whole module. -/
def ofModule (root : Node) : List Event :=
  .opened root.focus [] :: ofChildren .transparent root [root] [root] root.children

end Event

end StableProps
