import StableProps.Syntax.Reader.Expressions

/-!
# Statements and declarations

A statement that is not ended by a semicolon may be ended by its line, a closing brace or the end
of the source. It then reaches over the comments left on its line; otherwise they stand outside.
-/

namespace StableProps.Reader

/-- A statement from its parts up to its end. -/
def ended (kind : Kind) (inExpression : Bool) (parts : List Node) : Reader Node := do
  let (semicolon, stop) ← statementEnd inExpression
  return branchTo kind (parts ++ semicolon) stop

/-- One declared variable with its type and value. -/
def variableDeclarator (g : Grammar) : Reader Node := do
  let typed := (← get).language.hasTypes
  let name ← g.binding
  let mark ← if typed then atMostOne (tokenUnless "!" ['=']) else pure []
  let type ← if typed then atMostOne (inField .type <$> annotatedType g) else pure []
  let value ← orNone (initializer g)
  return branch .variableDeclarator (inField .name name :: mark ++ type ++ value)

/-- A declaration of variables. -/
def variableDeclaration (g : Grammar) : Reader Node := do
  let i ← get
  if i.word == "var" then
    let word ← keyword "var"
    let declarators ← sepByComma (variableDeclarator g)
    ended .variableDeclaration true (word :: declarators)
  else
    let word ← keyword "const" <|> keyword "let"
    let declarators ← sepByComma (variableDeclarator g)
    ended .lexicalDeclaration true (inField .kind word :: declarators)

/-- A function with a name, or its signature alone. -/
def functionDeclaration (g : Grammar) : Reader Node := do
  let lead ← atMostOne (keyword "async")
  let word ← keyword "function"
  let star ← atMostOne (token "*")
  let name ← inField .name <$> identifier
  let signature ← callSignature g
  let head := lead ++ word :: star ++ name :: signature
  let complete : Reader Node := do
    let body ← functionBody g
    let kind : Kind := if star.isEmpty then .functionDeclaration else .generatorFunctionDeclaration
    return branch kind (head ++ [body])
  complete <|> ended .functionSignature false head

/-- What a class extends and implements. -/
def classHeritage (g : Grammar) : Reader (List Node) := do
  let typed := (← get).language.hasTypes
  if typed then
    let bases ← orNone do
      let word ← keyword "extends"
      let value ← inField .value <$> g.operand
      let types ← atMostOne (inField .typeArguments <$> typeArguments g)
      return [branch .extendsClause (word :: value :: types)]
    let interfaces ← orNone do
      let word ← keyword "implements"
      let types ← sepByComma g.type
      return [branch .implementsClause (word :: types)]
    match bases ++ interfaces with
    | [] => return []
    | clauses => return [branch .classHeritage clauses]
  else orNone do
    let word ← keyword "extends"
    let value ← g.operand
    return [branch .classHeritage [word, value]]

/-- Words that can stand before a member of a class. -/
def memberModifiers : List String :=
  ["public", "private", "protected", "static", "override", "readonly", "abstract", "declare",
   "async", "get", "set", "accessor"]

/-- Statements that run when a class is created. -/
def staticBlock (g : Grammar) : Reader Node := do
  let word ← keyword "static"
  let body ← functionBody g
  return branch .classStaticBlock [word, body]

/-- A field, method or signature of a class. -/
def classMember (g : Grammar) : Reader Node := do
  let typed := (← get).language.hasTypes
  let decorators ← many ((fun n => [inField .decorator n]) <$> decorator g)
  let modifiers ← many ((fun n => [n]) <$> modifier memberModifiers)
  let star ← atMostOne (token "*")
  let name ← propertyName g
  let mark ← if typed then atMostOne (token "?" <|> tokenUnless "!" ['=']) else pure []
  let i ← get
  let lead := decorators ++ modifiers ++ star
  if i.startsWith "(" || (typed && i.startsWith "<") then
    let signature ← callSignature g
    let head := lead ++ inField .name name :: mark ++ signature
    let method : Reader Node := do
      let body ← functionBody g
      return branch .methodDefinition (head ++ [body])
    let kind : Kind :=
      if modifiers.any (·.isToken "abstract") then .abstractMethodSignature else .methodSignature
    method <|> pure (branch kind head)
  else
    let type ← if typed then atMostOne (inField .type <$> annotatedType g) else pure []
    let value ← orNone (initializer g)
    let kind : Kind := if typed then .publicFieldDefinition else .fieldDefinition
    let part : Field := if typed then .name else .property
    return branch kind (lead ++ inField part name :: mark ++ type ++ value)

/-- Members of a class in braces. -/
def classMembers (g : Grammar) : Reader Node := do
  let part : Node → Node := if (← get).language.hasTypes then id else inField .member
  let entry : Reader (List Node) := do
    let member ← staticBlock g <|> indexSignature g <|> classMember g
    if member.isOneOf [.methodDefinition, .classStaticBlock] then
      let semicolon ← atMostOne (token ";")
      return part member :: semicolon
    else
      match ← optional? (token ",") with
      | some comma => return [part member, comma]
      | none =>
        let (semicolon, _) ← statementEnd true
        return part member :: semicolon
  let opening ← token "\x7b"
  let members ← many ((fun n => [n]) <$> token ";" <|> entry)
  let closing ← token "\x7d"
  return branch .classBody (opening :: members ++ [closing])

/-- All of a class behind its name, as the children of a node. -/
def classRest (g : Grammar) : Reader Node := do
  let typed := (← get).language.hasTypes
  let generics ← if typed then atMostOne (inField .typeParameters <$> typeParameters g) else pure []
  let heritage ← classHeritage g
  let body ← classMembers g
  return branch .classBody (generics ++ heritage ++ [inField .body body])

/-- A class with a name. Comments behind its closing brace belong to it if its line ends with
them. -/
def classDeclaration (g : Grammar) : Reader Node := do
  let decorators ← many ((fun n => [inField .decorator n]) <$> decorator g)
  let typed := (← get).language.hasTypes
  let lead ← if typed then atMostOne (keyword "abstract") else pure []
  let word ← keyword "class"
  let name ← inField .name <$>
    whenInput (fun i => i.word != "extends" && i.word != "implements")
      (nameLeaf (if typed then .typeIdentifier else .identifier))
  let rest ← g.classBody
  let parts := decorators ++ lead ++ word :: name :: rest.children
  if lead.isEmpty then
    let i ← get
    return branchTo .classDeclaration parts (if i.endsStatement false then i.tail else rest.stop)
  else return branch .abstractClassDeclaration parts

/-- An interface. -/
def interfaceDeclaration (g : Grammar) : Reader Node := do
  let word ← keyword "interface"
  let name ← inField .name <$> nameLeaf .typeIdentifier
  let generics ← atMostOne (inField .typeParameters <$> typeParameters g)
  let bases ← orNone do
    let word ← keyword "extends"
    let types ← sepByComma (inField .type <$> typeReference g)
    return [branch .extendsTypeClause (word :: types)]
  let body ← inField .body <$> typeMembers g .interfaceBody
  return branch .interfaceDeclaration (word :: name :: generics ++ bases ++ [body])

/-- A name for a type. -/
def typeAliasDeclaration (g : Grammar) : Reader Node := do
  let word ← keyword "type"
  let name ← inField .name <$> whenInput (fun i => !i.newline) (nameLeaf .typeIdentifier)
  let generics ← atMostOne (inField .typeParameters <$> typeParameters g)
  let equals ← token "="
  let value ← inField .value <$> g.type
  ended .typeAliasDeclaration false (word :: name :: generics ++ [equals, value])

/-- An enumeration. -/
def enumDeclaration (g : Grammar) : Reader Node := do
  let lead ← atMostOne (keyword "const")
  let word ← keyword "enum"
  let name ← inField .name <$> identifier
  let body ← inField .body <$> enclosed .enumBody "\x7b" "\x7d" entry
  return branch .enumDeclaration (lead ++ word :: name :: [body])
where
  /-- A name, maybe with a value. -/
  entry : Reader Node := do
    let name ← inField .name <$> propertyName g
    match ← orNone (initializer g) with
    | [] => return name
    | value => return branch .enumAssignment (name :: value)

/-- The name of a namespace. -/
def namespaceName : Reader Node := do
  let first ← identifier
  let parts ← many do
    let dot ← token "."
    let part ← nameLeaf .propertyIdentifier
    return [dot, part]
  return nest first parts
where
  /-- Nests parts to the left. -/
  nest (object : Node) : List Node → Node
    | dot :: part :: rest =>
      nest (branch .nestedIdentifier [inField .object object, dot, inField .property part]) rest
    | _ => object

/-- A module or namespace with its statements. -/
def moduleDeclaration (g : Grammar) : Reader Node := do
  let i ← get
  let kind : Kind := if i.word == "module" then .moduleDeclaration else .internalModule
  let word ← keyword "namespace" <|> keyword "module"
  let name ← inField .name <$>
    whenInput (fun i => !i.newline) (stringLiteral <|> namespaceName)
  let body ← atMostOne (functionBody g)
  return branch kind (word :: name :: body)

/-- A declaration of any sort. -/
def declaration (g : Grammar) : Reader Node := do
  let i ← get
  let typed := i.language.hasTypes
  match i.word with
  | "function" => functionDeclaration g
  | "async" => functionDeclaration g
  | "class" => classDeclaration g
  | "var" => variableDeclaration g
  | "let" => variableDeclaration g
  | "const" => if typed then enumDeclaration g <|> variableDeclaration g else variableDeclaration g
  | "abstract" => if typed then classDeclaration g else failure
  | "interface" => if typed then interfaceDeclaration g else failure
  | "type" => if typed then typeAliasDeclaration g else failure
  | "enum" => if typed then enumDeclaration g else failure
  | "namespace" => if typed then moduleDeclaration g else failure
  | "module" => if typed then moduleDeclaration g else failure
  | "declare" => if typed then ambient else failure
  | _ => if i.startsWith "@" then classDeclaration g else failure
where
  /-- A declaration of what exists elsewhere. -/
  ambient : Reader Node := do
    let word ← keyword "declare"
    let part ← whenInput (fun i => !i.newline) (globalPart <|> plainPart (← get).word)
    return branch .ambientDeclaration (word :: part)
  /-- An addition to the global names. -/
  globalPart : Reader (List Node) := do
    let word ← keyword "global"
    let body ← block g
    return [word, body]
  /-- A declaration behind its leading word. -/
  plainPart (word : String) : Reader (List Node) := do
    let d ← match word with
      | "function" => functionDeclaration g
      | "async" => functionDeclaration g
      | "class" => classDeclaration g
      | "abstract" => classDeclaration g
      | "var" => variableDeclaration g
      | "let" => variableDeclaration g
      | "const" => enumDeclaration g <|> variableDeclaration g
      | "interface" => interfaceDeclaration g
      | "type" => typeAliasDeclaration g
      | "enum" => enumDeclaration g
      | "namespace" => moduleDeclaration g
      | "module" => moduleDeclaration g
      | _ => failure
    return [d]

/-- A name as modules export it. -/
def exportedName : Reader Node := do
  let i ← get
  if i.word == "default" && !i.language.hasTypes then keyword "default"
  else stringLiteral <|> nameLeaf .identifier

/-- A name in braces, with the name it gets here. -/
def moduleSpecifier (kind : Kind) : Reader Node := do
  let typed := (← get).language.hasTypes
  let lead ← if typed then atMostOne (typeWord "type" <|> typeWord "typeof") else pure []
  let name ← inField .name <$> exportedName
  let renamed ← orNone do
    let word ← keyword "as"
    let other ← exportedName
    return [word, inField .alias other]
  return branch kind (lead ++ name :: renamed)
where
  /-- A word that marks a type, unless it is the name itself. -/
  typeWord (word : String) : Reader Node := whenInput
    (fun i =>
      let next := i.afterWord
      next.wordChars != [] &&
        (next.word != "as" || (next.afterWord.wordChars == [])))
    (keyword word)

/-- `from` and the module. -/
def fromClause : Reader (List Node) := do
  let word ← keyword "from"
  let source ← inField .source <$> stringLiteral
  return [word, source]

/-- Names that an import brings in. -/
def importClause : Reader Node := (fun parts => branch .importClause parts) <$>
  ((fun n => [n]) <$> group <|> withDefault)
where
  /-- All names of a module under one. -/
  namespaceImport : Reader Node := do
    let star ← token "*"
    let word ← keyword "as"
    let name ← identifier
    return branch .namespaceImport [star, word, name]
  /-- Everything but a default. -/
  group : Reader Node :=
    namespaceImport <|> enclosed .namedImports "\x7b" "\x7d" (moduleSpecifier .importSpecifier)
  /-- A default, maybe with more. -/
  withDefault : Reader (List Node) := do
    let name ← identifier
    let more ← orNone do
      let comma ← token ","
      let more ← group
      return [comma, more]
    return name :: more

/-- Conditions on how a module is loaded. -/
def importAttribute (g : Grammar) : Reader Node := do
  let word ← keyword "with" <|> whenInput (fun i => !i.newline) (keyword "assert")
  let value ← objectLiteral g
  return branch .importAttribute [word, value]

/-- An import. -/
def importStatement (g : Grammar) : Reader Node := do
  let word ← keyword "import"
  let i ← get
  if i.startsWith "(" || i.startsWith "." then failure
  let marked := i.language.hasTypes && (i.word == "type" || i.word == "typeof") &&
    !(i.afterWord.startsWith ",") && !(i.afterWord.startsWith "=") &&
    (i.afterWord.word != "from" || i.afterWord.afterWord.word == "from")
  let lead ← if marked then atMostOne (keyword i.word) else pure []
  let named : Reader (List Node) := do
    let clause ← importClause
    let source ← fromClause
    return clause :: source
  let required : Reader (List Node) := do
    let name ← identifier
    let equals ← token "="
    let word ← keyword "require"
    let opening ← token "("
    let source ← inField .source <$> stringLiteral
    let closing ← token ")"
    return [branch .importRequireClause [name, equals, word, opening, source, closing]]
  let plain : Reader (List Node) := (fun n => [inField .source n]) <$> stringLiteral
  let shorthand : Reader Node := do
    let name ← identifier
    let equals ← token "="
    let value ← namespaceName
    ended .importAlias false [word, name, equals, value]
  let whole : Reader Node := do
    let parts ← named <|> required <|> plain
    let conditions ← atMostOne (importAttribute g)
    ended .importStatement false (word :: lead ++ parts ++ conditions)
  whole <|> shorthand

/-- An export. -/
def exportStatement (g : Grammar) : Reader Node := do
  let decorators ← many ((fun n => [inField .decorator n]) <$> decorator g)
  let word ← keyword "export"
  let typed := (← get).language.hasTypes
  let finish (parts : List Node) : Reader Node :=
    ended .exportStatement false (word :: parts)
  let clause : Reader Node :=
    enclosed .exportClause "\x7b" "\x7d" (moduleSpecifier .exportSpecifier)
  let star : Reader Node := do
    let star ← token "*"
    let whole ← orNone do
      let word ← keyword "as"
      let name ← exportedName
      return [branch .namespaceExport [star, word, name]]
    let source ← fromClause
    finish ((if whole.isEmpty then [star] else whole) ++ source)
  let names : Reader Node := do
    let lead ← if typed then atMostOne (keyword "type") else pure []
    let clause ← clause
    let source ← orNone fromClause
    finish (lead ++ clause :: source)
  let assigned : Reader Node := do
    let equals ← token "="
    let value ← g.expression
    ended .exportStatement true [word, equals, value]
  let asNamespace : Reader Node := do
    let first ← keyword "as"
    let second ← keyword "namespace"
    let name ← identifier
    finish [first, second, name]
  let shorthand : Reader Node := do
    let inner ← whenInput (fun i => i.word == "import") (importStatement g)
    return branch .exportStatement [word, inner]
  let declared : Reader Node := do
    let d ← declaration g
    return branch .exportStatement (decorators ++ [word, inField .declaration d])
  let default : Reader Node := do
    let lead ← keyword "default"
    let declared : Reader Node := do
      let d ← whenInput (fun i => !(["let", "const", "var"].contains i.word)) (declaration g)
      return branch .exportStatement (decorators ++ [word, lead, inField .declaration d])
    let valued : Reader Node := do
      let value ← inField .value <$> g.expression
      ended .exportStatement true (decorators ++ [word, lead, value])
    declared <|> valued
  star <|> names <|> default <|> assigned <|> (if typed then asNamespace else failure) <|>
    shorthand <|> declared

/-- `if` with its branches. -/
def ifStatement (g : Grammar) : Reader Node := do
  let word ← keyword "if"
  let condition ← inField .condition <$> parenthesized g
  let consequence ← inField .consequence <$> g.statement
  let alternative ← orNone do
    let word ← keyword "else"
    let body ← g.statement
    return [inField .alternative (branch .elseClause [word, body])]
  return branch .ifStatement (word :: condition :: consequence :: alternative)

/-- A loop over keys or values. -/
def forInStatement (g : Grammar) : Reader Node := do
  let word ← keyword "for"
  let await ← atMostOne (keyword "await")
  let opening ← token "("
  let declared : Reader (List Node) := do
    let i ← get
    let kind ← whenInput (fun _ => ["var", "let", "const"].contains i.word) (keyword i.word)
    let left ← g.binding
    return [inField .kind kind, inField .left left]
  let plain : Reader (List Node) := (fun n => [inField .left n]) <$> g.target
  let (left, operator) ← (do return (← declared, ← relation)) <|> (do return (← plain, ← relation))
  let right ← inField .right <$> expressions g
  let closing ← token ")"
  let body ← inField .body <$> g.statement
  return branch .forInStatement
    (word :: await ++ opening :: left ++ [inField .operator operator, right, closing, body])
where
  /-- The word between the variable and what it runs through. -/
  relation : Reader Node := keyword "of" <|> keyword "in"

/-- A loop that counts. -/
def forStatement (g : Grammar) : Reader Node := do
  let word ← keyword "for"
  let opening ← token "("
  let empty : Reader Node := (fun t => branch .emptyStatement [t]) <$> token ";"
  let plain (field : Field) : Reader (List Node) := do
    let value ← expressions g
    let semicolon ← token ";"
    return [inField field value, semicolon]
  let declared : Reader (List Node) := do
    let i ← get
    let d ← whenInput (fun _ => ["var", "let", "const"].contains i.word) (variableDeclaration g)
    return [inField .initializer d]
  let first ← declared <|> plain .initializer <|>
    (fun n => [inField .initializer n]) <$> empty
  let second ← (fun ns => ns.map (inField .condition)) <$> plain .condition <|>
    (fun n => [inField .condition n]) <$> empty
  let third ← atMostOne (inField .increment <$> expressions g)
  let closing ← token ")"
  let body ← inField .body <$> g.statement
  return branch .forStatement (word :: opening :: first ++ second ++ third ++ [closing, body])

/-- A loop with its condition in front. -/
def whileStatement (g : Grammar) : Reader Node := do
  let word ← keyword "while"
  let condition ← inField .condition <$> parenthesized g
  let body ← inField .body <$> g.statement
  return branch .whileStatement [word, condition, body]

/-- A loop with its condition behind. -/
def doStatement (g : Grammar) : Reader Node := do
  let first ← keyword "do"
  let body ← inField .body <$> g.statement
  let second ← keyword "while"
  let condition ← inField .condition <$> parenthesized g
  let parts := [first, body, second, condition]
  ended .doStatement false parts <|> pure (branch .doStatement parts)

/-- One case of a switch. -/
def switchCase (g : Grammar) : Reader Node := case <|> defaultCase
where
  /-- Statements behind a colon. -/
  body : Reader (List Node) := many ((fun n => [inField .body n]) <$> g.statement)
  /-- A case with a value. -/
  case : Reader Node := do
    let word ← keyword "case"
    let value ← inField .value <$> expressions g
    let colon ← token ":"
    let statements ← body
    return branch .switchCase (word :: value :: colon :: statements)
  /-- The case for all other values. -/
  defaultCase : Reader Node := do
    let word ← keyword "default"
    let colon ← token ":"
    let statements ← body
    return branch .switchDefault (word :: colon :: statements)

/-- A choice among cases. -/
def switchStatement (g : Grammar) : Reader Node := do
  let word ← keyword "switch"
  let value ← inField .value <$> parenthesized g
  let opening ← token "\x7b"
  let cases ← many ((fun n => [n]) <$> switchCase g)
  let closing ← token "\x7d"
  let body := branch .switchBody (opening :: cases ++ [closing])
  return branch .switchStatement [word, value, inField .body body]

/-- Statements guarded against errors. -/
def tryStatement (g : Grammar) : Reader Node := do
  let word ← keyword "try"
  let body ← functionBody g
  let handler ← orNone do
    let word ← keyword "catch"
    let parameter ← orNone do
      let opening ← token "("
      let pattern ← inField .parameter <$> g.binding
      let type ← atMostOne (inField .type <$> annotatedType g)
      let closing ← token ")"
      return opening :: pattern :: type ++ [closing]
    let body ← functionBody g
    return [inField .handler (branch .catchClause (word :: parameter ++ [body]))]
  let finalizer ← orNone do
    let word ← keyword "finally"
    let body ← functionBody g
    return [inField .finalizer (branch .finallyClause [word, body])]
  return branch .tryStatement (word :: body :: handler ++ finalizer)

/-- `break` or `continue`, maybe with a label on its line. -/
def jumpStatement (word : String) (kind : Kind) : Reader Node := do
  let first ← keyword word
  let label ← atMostOne (whenInput (fun i => !i.newline)
    (inField .label <$> nameLeaf .statementIdentifier))
  ended kind false (first :: label)

/-- `return` with its value, which must start before the line ends. -/
def returnStatement (g : Grammar) : Reader Node := do
  let word ← keyword "return"
  let bare := ended .returnStatement false [word]
  bare <|> do
    let value ← expressions g
    ended .returnStatement true [word, value]

/-- `throw` with its value. -/
def throwStatement (g : Grammar) : Reader Node := do
  let word ← keyword "throw"
  let value ← expressions g
  ended .throwStatement true [word, value]

/-- Statements in the scope of an object. -/
def withStatement (g : Grammar) : Reader Node := do
  let word ← keyword "with"
  let object ← inField .object <$> parenthesized g
  let body ← inField .body <$> g.statement
  return branch .withStatement [word, object, body]

/-- A statement with a label. -/
def labeledStatement (g : Grammar) : Reader Node := do
  let i ← get
  if reservedWords.contains i.word then failure
  let label ← inField .label <$> nameLeaf .statementIdentifier
  let colon ← token ":"
  let body ← inField .body <$> g.statement
  return branch .labeledStatement [label, colon, body]

/-- An expression as a statement. -/
def expressionStatement (g : Grammar) : Reader Node := do
  let value ← expressions g
  ended .expressionStatement true [value]

/-- A declaration as a statement; a namespace is an expression of its own. -/
def declarationStatement (g : Grammar) : Reader Node := do
  let d ← declaration g
  if d.is .internalModule then
    let parts := [d]
    ended .expressionStatement true parts <|> pure (branch .expressionStatement parts)
  else return d

/-- A statement. -/
def statement (g : Grammar) : Reader Node := do
  let i ← get
  match i.peek? with
  | none => failure
  | some '\x7b' => block g
  | some ';' => (fun t => branch .emptyStatement [t]) <$> token ";"
  | some '@' => exportStatement g <|> classDeclaration g
  | some '\x7d' => failure
  | some _ =>
    match i.word with
    | "import" => importStatement g <|> expressionStatement g
    | "export" => exportStatement g
    | "if" => ifStatement g
    | "for" => forInStatement g <|> forStatement g
    | "while" => whileStatement g
    | "do" => doStatement g
    | "switch" => switchStatement g
    | "try" => tryStatement g
    | "break" => jumpStatement "break" .breakStatement
    | "continue" => jumpStatement "continue" .continueStatement
    | "debugger" => jumpStatement "debugger" .debuggerStatement
    | "return" => returnStatement g
    | "throw" => throwStatement g
    | "with" => withStatement g
    | _ => declarationStatement g <|> labeledStatement g <|> expressionStatement g

end StableProps.Reader
