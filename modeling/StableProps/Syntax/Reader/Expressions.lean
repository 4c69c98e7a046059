import StableProps.Syntax.Reader.Patterns
import StableProps.Syntax.Reader.Markup

/-!
# Expressions

Operators are read by climbing their strengths: an operand takes all stronger operators to its
right before a weaker one is looked at. A type behind `as` or `satisfies` is weaker than every
operator to its left, so it applies to the whole operation before it.
-/

namespace StableProps.Reader

/-- Whether a text follows and none of the characters behind it. -/
def Input.hasToken (i : Input) (s : String) (followers : List Char) : Bool :=
  (tokenUnless s followers i).isSome

/-- The body of a function: statements in braces. -/
def functionBody (g : Grammar) : Reader Node := inField .body <$> block g

/-- A function expression; with a star it is a generator. -/
def functionExpression (g : Grammar) : Reader Node := do
  let lead ← atMostOne (keyword "async")
  let word ← keyword "function"
  let star ← atMostOne (token "*")
  let name ← atMostOne (inField .name <$> identifier)
  let signature ← callSignature g
  let body ← functionBody g
  let kind : Kind := if star.isEmpty then .functionExpression else .generatorFunction
  return branch kind (lead ++ word :: star ++ name ++ signature ++ [body])

/-- What stands left of the arrow. -/
def arrowHead (g : Grammar) (typed : Bool) : Reader (List Node) := do
  let generics ← if typed then atMostOne (inField .typeParameters <$> typeParameters g) else pure []
  let parameters ← formalParameters g
  let result ← if typed then atMostOne (inField .returnType <$> returnAnnotation g) else pure []
  return generics ++ inField .parameters parameters :: result

/-- An arrow function. In the middle of a conditional expression a colon behind the parameters is
the type of the result only if another colon follows the function. -/
def arrowFunction (g : Grammar) (inChoice : Bool) : Reader Node := do
  let typed := (← get).language.hasTypes
  let async ← orNone do
    let word ← whenInput (fun i => !i.afterWord.startsWith "=>" && !i.afterWord.newline)
      (keyword "async")
    return [word]
  let attempt (head : Reader (List Node)) : Reader (List Node × Node) := do
    let head ← head
    let arrow ← whenInput (fun i => !i.newline) (token "=>")
    return (head, arrow)
  let single : Reader (List Node) := (fun n => [inField .parameter n]) <$> identifier
  let whole : Reader Node := do
    let (head, arrow) ← attempt (single <|> arrowHead g typed)
    let body ← functionBody g <|> inField .body <$> g.expression
    return branch .arrowFunction (async ++ head ++ [arrow, body])
  let untyped : Reader Node := do
    let (head, arrow) ← attempt (single <|> arrowHead g false)
    let body ← functionBody g <|> inField .body <$> g.consequence
    return branch .arrowFunction (async ++ head ++ [arrow, body])
  if inChoice then
    (do let f ← whole; if ← testInput (·.startsWith ":") then return f else failure) <|> untyped
  else whole

/-- Whether the input may start an arrow function. -/
def Input.maybeArrow (i : Input) : Bool :=
  match i.peek? with
  | some '(' => true
  | some '<' => i.language.hasTypes
  | some c =>
    isNameStart c && (i.afterWord.startsWith "=>" ||
      (i.word == "async" && !i.afterWord.newline &&
        (i.afterWord.startsWith "(" || i.afterWord.startsWith "<" ||
          (i.afterWord.peek?.map isNameStart).getD false)))
  | none => false

/-- A member of an object literal. -/
def objectMember (g : Grammar) : Reader Node := spread <|> method <|> pair <|> shorthand
where
  /-- Dots and an expression. -/
  spread : Reader Node := do
    let dots ← token "..."
    let value ← g.expression
    return branch .spreadElement [dots, value]
  /-- A method, getter or setter. -/
  method : Reader Node := do
    let modifiers ← many ((fun n => [n]) <$> modifier ["async", "get", "set"])
    let star ← atMostOne (token "*")
    let name ← propertyName g
    let signature ← callSignature g
    let body ← functionBody g
    return branch .methodDefinition (modifiers ++ star ++ inField .name name :: signature ++ [body])
  /-- A key and its value. -/
  pair : Reader Node := do
    let key ← propertyName g
    let colon ← token ":"
    let value ← g.expression
    return branch .pair [inField .key key, colon, inField .value value]
  /-- A name that is key and value at once. -/
  shorthand : Reader Node := do
    let name ← nameLeaf .shorthandPropertyIdentifier
    let i ← get
    if i.startsWith "," || i.startsWith "\x7d" then return name else failure

/-- An object literal. -/
def objectLiteral (g : Grammar) : Reader Node :=
  enclosed .objectLiteral "\x7b" "\x7d" (objectMember g)

/-- An array literal. -/
def arrayLiteral (g : Grammar) : Reader Node :=
  enclosed .arrayLiteral "[" "]" (objectMember.spread g <|> g.expression)

/-- Arguments of a call. -/
def callArguments (g : Grammar) : Reader Node :=
  enclosed .callArguments "(" ")" (objectMember.spread g <|> g.expression)

/-- A template with expressions in it. -/
def templateString (g : Grammar) : Reader Node := templateOf .templateString do
  let opening ← token "$\x7b"
  let inside ← expressions g
  let closing ← rawToken "\x7d"
  return branch .templateSubstitution [opening, inside, closing]

/-- A class without a statement of its own. -/
def classExpression (g : Grammar) : Reader Node := do
  let decorators ← many ((fun n => [inField .decorator n]) <$> decorator g)
  let typed := (← get).language.hasTypes
  let word ← keyword "class"
  let nameKind : Kind := if typed then .typeIdentifier else .identifier
  let name ← atMostOne (whenInput (fun i => i.word != "extends" && i.word != "implements")
    (inField .name <$> nameLeaf nameKind))
  let body ← g.classBody
  return branch .classExpression (decorators ++ word :: name ++ body.children)

/-- A member access by name. -/
def memberOf (object : Node) : Reader Node := do
  let dot ← tokenUnless "." ['.']
  let name ← nameLeaf .propertyIdentifier <|> propertyName.privateName
  return branch .memberExpression [inField .object object, dot, inField .property name]

/-- An access by index. -/
def subscriptOf (g : Grammar) (object : Node) (lead : List Node) : Reader Node := do
  let opening ← token "["
  let index ← expressions g
  let closing ← token "]"
  return branch .subscriptExpression
    (inField .object object :: lead ++ [opening, inField .index index, closing])

/-- An access or call that is left out when the object is missing. -/
def optionalAccess (g : Grammar) (object : Node) : Reader Node := do
  let typed := (← get).language.hasTypes
  let mark ← tokenUnless "?." ['0', '1', '2', '3', '4', '5', '6', '7', '8', '9']
  let chain := inField .optionalChain (branch .optionalChain [mark])
  let call : Reader Node := do
    let types ← if typed then atMostOne (inField .typeArguments <$> typeArguments g) else pure []
    let arguments ← callArguments g
    return branch .callExpression
      (inField .function object :: mark :: types ++ [inField .arguments arguments])
  let named : Reader Node := do
    let name ← nameLeaf .propertyIdentifier <|> propertyName.privateName
    return branch .memberExpression [inField .object object, chain, inField .property name]
  call <|> subscriptOf g object [chain] <|> named

/-- A call. -/
def callOf (g : Grammar) (callee : Node) : Reader Node := do
  let arguments ← callArguments g
  return branch .callExpression [inField .function callee, inField .arguments arguments]

/-- A call by a template. -/
def templateCallOf (g : Grammar) (callee : Node) : Reader Node := do
  let template ← templateString g
  return branch .callExpression [inField .function callee, inField .arguments template]

/-- A call with type arguments, or the callee with them when nothing is called. -/
def instantiationOf (g : Grammar) (callee : Node) : Reader Node :=
  whenInput (fun i => i.language.hasTypes) do
    let types ← inField .typeArguments <$> typeArguments g
    let i ← get
    if i.startsWith "(" then
      let arguments ← callArguments g
      return branch .callExpression
        [inField .function callee, types, inField .arguments arguments]
    else if (i.peek?.map (")],;:.\x7d".toList.contains ·)).getD true || i.newline then
      return branch .instantiationExpression [callee, types]
    else failure

/-- A value that is promised to be present. -/
def nonNullOf (operand : Node) : Reader Node :=
  whenInput (fun i => i.language.hasTypes && !i.newline) do
    let mark ← tokenUnless "!" ['=']
    return branch .nonNullExpression [operand, mark]

/-- Everything that can follow an operand directly, as often as it does. -/
def trailers (g : Grammar) (calls : Bool) : Nat → Node → Reader Node
  | 0, operand => pure operand
  | n + 1, operand => do
    let access := memberOf operand <|> subscriptOf g operand [] <|> nonNullOf operand
    let call := optionalAccess g operand <|> callOf g operand <|> templateCallOf g operand <|>
      instantiationOf g operand
    match ← optional? (if calls then access <|> call else access) with
    | some next => trailers g calls n next
    | none => return operand

/-- `new` with a constructor and maybe arguments. -/
def newExpression (g : Grammar) (primary : Reader Node) : Reader Node := do
  let word ← keyword "new"
  let property : Reader Node := do
    let dot ← token "."
    let target ← keyword "target"
    return branch .metaProperty [word, dot, target]
  let creation : Reader Node := do
    let typed := (← get).language.hasTypes
    let first ← primary
    let callee ← trailers g false (← get).fuel first
    let types ← if typed then
        atMostOne (inField .typeArguments <$> typeArguments g)
      else pure []
    let arguments ← atMostOne (inField .arguments <$> callArguments g)
    return branch .newExpression (word :: inField .constructor callee :: types ++ arguments)
  property <|> creation

/-- `import` as the callee of a call or as the holder of `meta`. -/
def importExpression (g : Grammar) : Reader Node := do
  let word ← keyword "import"
  let property : Reader Node := do
    let dot ← token "."
    let name ← keyword "meta"
    return branch .metaProperty [word, dot, name]
  property <|> callOf g (branch .importKeyword [word])

/-- An operand without anything behind it. The number bounds repeated `new`. -/
def primary (g : Grammar) : Nat → Reader Node
  | 0 => failure
  | n + 1 => do
    let i ← get
    match i.peek? with
    | none => failure
    | some c =>
      if c == '(' then parenthesized g
      else if c == '[' then arrayLiteral g
      else if c == '\x7b' then objectLiteral g
      else if c == doubleQuote || c == singleQuote then stringLiteral
      else if c == backquote then templateString g
      else if c == '/' then regexLiteral
      else if c == '<' then
        if i.language.hasMarkup then g.element <* settle else failure
      else if c == '@' then classExpression g
      else if c == '#' then propertyName.privateName
      else if c.isDigit || c == '.' then numberLiteral
      else match i.word with
        | "function" => functionExpression g
        | "class" => classExpression g
        | "new" => newExpression g (primary g n)
        | "import" => importExpression g
        | "this" => nameLeaf .thisKeyword
        | "super" => nameLeaf .superKeyword
        | "null" => nameLeaf .nullLiteral
        | "true" => nameLeaf .trueLiteral
        | "false" => nameLeaf .falseLiteral
        | "undefined" => nameLeaf .undefinedKeyword
        | "async" => functionExpression g <|> identifier
        | _ => identifier

/-- An operand with its member accesses and calls. -/
def operand (g : Grammar) : Reader Node := do
  let first ← primary g (← get).fuel
  trailers g true (← get).fuel first

/-- An operand with a counting operator behind it. -/
def counted (g : Grammar) : Reader Node := do
  let value ← operand g
  let sign ← optional? (whenInput (fun i => !i.newline) (token "++" <|> token "--"))
  match sign with
  | some sign => return branch .updateExpression [inField .argument value, inField .operator sign]
  | none => return value

/-- `as` or `satisfies` with a type. -/
def typedAs (g : Grammar) (value : Node) : Reader Node :=
  whenInput (fun i => i.language.hasTypes && !i.newline) (asType <|> satisfiesType)
where
  /-- A change of type. -/
  asType : Reader Node := do
    let word ← keyword "as"
    let type ← keyword "const" <|> g.type
    return branch .asExpression [value, word, type]
  /-- A check of type. -/
  satisfiesType : Reader Node := do
    let word ← keyword "satisfies"
    let type ← g.type
    return branch .satisfiesExpression [value, word, type]

/-- Whether an operand follows on the word here. -/
def Input.startsOperand (i : Input) : Bool :=
  match i.afterWord.peek? with
  | some c => !"),;:=?.]\x7d".toList.contains c
  | none => false

/-- Operators that are words and stand before their operand. -/
def unaryWords : List String := ["typeof", "void", "delete"]

/-- An operand with the operators before it. The number bounds how many there are. -/
def unary (g : Grammar) : Nat → Reader Node
  | 0 => failure
  | n + 1 => do
    let i ← get
    let count : Reader Node := do
      let sign ← token "++" <|> token "--"
      let value ← unary g n
      return branch .updateExpression [inField .operator sign, inField .argument value]
    let sign : Reader Node := do
      let sign ← token "!" <|> token "~" <|> token "-" <|> token "+"
      let value ← unary g n
      return branch .unaryExpression [inField .operator sign, inField .argument value]
    let assertion : Reader Node := do
      let types ← typeArguments g
      let value ← unary g n
      return branch .typeAssertion [types, value]
    match i.peek? with
    | some '<' =>
      if i.language == .typescript then assertion else counted g
    | some c =>
      if "!~-+".toList.contains c then count <|> sign
      else if unaryWords.contains i.word then
        let word ← keyword i.word
        let value ← unary g n
        return branch .unaryExpression [inField .operator word, inField .argument value]
      else if i.word == "await" && i.startsOperand then
        let word ← keyword "await"
        let value ← unary g n
        let value ← typedAs g value <|> pure value
        return branch .awaitExpression [word, value]
      else counted g
    | none => failure

/-- Operators of two operands with their strengths; the longer ones come first. Assignments and
marks that only look like operators have strength zero. -/
def operatorTable : List (String × Nat) :=
  [(">>>=", 0), ("===", 9), ("!==", 9), ("**=", 0), ("<<=", 0), (">>=", 0), (">>>", 11),
   ("&&=", 0), ("||=", 0), ("??=", 0), ("=>", 0), ("==", 9), ("!=", 9), ("<=", 10), (">=", 10),
   ("&&", 5), ("||", 4), ("??", 3), ("**", 14), ("<<", 11), (">>", 11), ("+=", 0), ("-=", 0),
   ("*=", 0), ("/=", 0), ("%=", 0), ("&=", 0), ("|=", 0), ("^=", 0), ("++", 0), ("--", 0),
   ("?.", 0), ("<", 10), (">", 10), ("+", 12), ("-", 12), ("*", 13), ("/", 13), ("%", 13),
   ("&", 8), ("|", 6), ("^", 7), ("=", 0), ("?", 0)]

/-- The operator at a position with its strength. -/
def Input.operator? (i : Input) : Option (String × Nat) :=
  if isRelationWord i.word then some (i.word, 10)
  else match operatorTable.find? (fun (op, _) => i.startsWith op) with
    | some (op, strength) => if strength == 0 then none else some (op, strength)
    | none => none

/-- Operations on `left` by operators of at least the strength `least`. The number bounds how many
there are. -/
def operations (g : Grammar) : Nat → Nat → Node → Reader Node
  | 0, _, left => pure left
  | n + 1, least, left => do
    let i ← get
    match i.operator? with
    | some (op, strength) =>
      if strength < least then return left
      let sign ← token op
      let arrow := if (← get).maybeArrow then arrowFunction g false else failure
      let first ← arrow <|> unary g n
      let right ← operations g n (if op == "**" then strength else strength + 1) first
      operations g n least (branch .binaryExpression
        [inField .left left, inField .operator sign, inField .right right])
    | none =>
      if least > 0 then return left
      match ← optional? (typedAs g left) with
      | some cast => operations g n least cast
      | none => return left

/-- Whether a question mark opens a choice here. -/
def Input.opensChoice (i : Input) : Bool :=
  match i.rest with
  | '?' :: '?' :: _ => false
  | '?' :: '.' :: c :: _ => c.isDigit
  | '?' :: _ => true
  | _ => false

/-- An operation, or the choice between two expressions by it. -/
def conditional (g : Grammar) (inChoice : Bool) : Reader Node := do
  let fuel := (← get).fuel
  let first ← unary g fuel
  let condition ← operations g fuel 0 first
  if (← get).opensChoice then
    let question ← token "?"
    let consequence ← g.consequence
    let colon ← token ":"
    let alternative ← if inChoice then g.consequence else g.expression
    return branch .ternaryExpression [inField .condition condition, question,
      inField .consequence consequence, colon, inField .alternative alternative]
  else return condition

/-- Assignments that combine the old value with the new one. -/
def assignmentOperators : List String :=
  [">>>=", "**=", "<<=", ">>=", "&&=", "||=", "??=", "+=", "-=", "*=", "/=", "%=", "&=", "|=",
   "^="]

/-- `yield` with what it hands out. -/
def yieldExpression (g : Grammar) : Reader Node := do
  let word ← keyword "yield"
  let delegated : Reader (List Node) := do
    let star ← token "*"
    let value ← g.expression
    return [star, value]
  let value ← orNone (whenInput (fun i => !i.newline)
    (delegated <|> (fun n => [n]) <$> g.expression))
  return branch .yieldExpression (word :: value)

/-- An assignment to a destructuring pattern. -/
def patternAssignment (g : Grammar) : Reader Node :=
  whenInput (fun i => i.startsWith "[" || i.startsWith "\x7b") do
    let left ← target g
    let equals ← tokenUnless "=" ['=', '>']
    let right ← g.expression
    return branch .assignmentExpression [inField .left left, equals, inField .right right]

/-- An assignment, or the expression that would be its left side. Braces and brackets before `=`
are a pattern. -/
def assignment (g : Grammar) (inChoice : Bool) : Reader Node := do
  let value ← conditional g inChoice
  let i ← get
  if i.hasToken "=" ['=', '>'] then
    if value.isOneOf [.objectLiteral, .arrayLiteral] then failure
    let equals ← token "="
    let right ← g.expression
    return branch .assignmentExpression [inField .left value, equals, inField .right right]
  else
    match assignmentOperators.find? i.startsWith with
    | some op =>
      let sign ← token op
      let right ← g.expression
      return branch .augmentedAssignmentExpression
        [inField .left value, inField .operator sign, inField .right right]
    | none => return value

/-- An expression without a comma operator. -/
def expression (g : Grammar) (inChoice : Bool) : Reader Node := do
  let i ← get
  let arrow := if i.maybeArrow then arrowFunction g inChoice else failure
  let yields := if i.word == "yield" then yieldExpression g else failure
  arrow <|> yields <|> assignment g inChoice <|> patternAssignment g

end StableProps.Reader
