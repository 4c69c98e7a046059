import StableProps.Syntax.Reader.Literal

/-!
# The grammar's mutual recursion

Types, patterns, expressions, markup and statements refer to each other. Each part of the grammar
takes the others as a record of readers, and the record is tied together by `Grammar.level`
elsewhere, one level for each step of nesting.
-/

namespace StableProps.Reader

/-- The readers that parts of the grammar need of each other. -/
structure Grammar where
  /-- An expression without a comma operator. -/
  expression : Reader Node
  /-- The middle of a conditional expression, where a typed arrow function needs its colon. -/
  consequence : Reader Node
  /-- An operand as it can stand left of an assignment or behind `extends`. -/
  operand : Reader Node
  /-- A type. -/
  type : Reader Node
  /-- A type that can stand behind `extends` in a conditional type. -/
  unionType : Reader Node
  /-- A type that array brackets have been read for. -/
  arrayType : Reader Node
  /-- A statement. -/
  statement : Reader Node
  /-- The members and braces of a class. -/
  classBody : Reader Node
  /-- A markup element, staying right behind it. -/
  element : Reader Node
  /-- A name or destructuring that declares variables. -/
  binding : Reader Node
  /-- What can be assigned to: a destructuring or an operand. -/
  target : Reader Node

/-- The grammar in which nothing can be read. -/
def Grammar.none : Grammar :=
  { expression := failure, consequence := failure, operand := failure, type := failure,
    unionType := failure, arrayType := failure, statement := failure, classBody := failure,
    element := failure, binding := failure, target := failure }

/-- Items with commas between them, the commas kept, up to but without the closing mark. Items may
be missing, so that holes and a comma at the end are read too. -/
def commaSeparated (item : Reader Node) : Reader (List Node) :=
  many (atMostOne (tokenUnless "," []) >>= fun
    | [] => (fun n => [n]) <$> item
    | comma => pure comma)

/-- Items in brackets with commas between them. -/
def enclosed (kind : Kind) (opening closing : String) (item : Reader Node) : Reader Node := do
  let first ← token opening
  let items ← commaSeparated item
  let last ← token closing
  return branch kind (first :: items ++ [last])

/-- At least one item, with single commas between items and none at the end. -/
def sepByComma (item : Reader Node) : Reader (List Node) := do
  let first ← item
  let more ← many do
    let comma ← token ","
    let next ← item
    return [comma, next]
  return first :: more

/-- An expression with its comma operator. -/
def expressions (g : Grammar) : Reader Node := do
  let parts ← sepByComma g.expression
  match parts with
  | [single] => return single
  | _ => return branch .sequenceExpression parts

/-- An expression in parentheses. -/
def parenthesized (g : Grammar) : Reader Node := do
  let opening ← token "("
  let inside ← expressions g
  let closing ← token ")"
  return branch .parenthesizedExpression [opening, inside, closing]

/-- Reads `=` and an expression as the value of what stands before it. -/
def initializer (g : Grammar) : Reader (List Node) := do
  let equals ← tokenUnless "=" ['=', '>']
  let value ← g.expression
  return [equals, inField .value value]

/-- The name of a property: a word, a private word, a string, a number or brackets. -/
def propertyName (g : Grammar) : Reader Node :=
  nameLeaf .propertyIdentifier <|> privateName <|> stringLiteral <|> numberLiteral <|> computed
where
  /-- A name behind a number sign. -/
  privateName : Reader Node := do
    let start := (← get).offset
    let _ ← rawToken "#"
    let name ← nameLeaf .privatePropertyIdentifier
    return { name with start := start }
  /-- An expression in brackets. -/
  computed : Reader Node := do
    let opening ← token "["
    let inside ← g.expression
    let closing ← token "]"
    return branch .computedPropertyName [opening, inside, closing]

/-- Statements in braces. Comments behind the closing brace belong to the block if its line ends
with them. -/
def block (g : Grammar) : Reader Node := do
  let opening ← token "\x7b"
  let statements ← many ((fun n => [n]) <$> g.statement)
  let closing ← token "\x7d"
  let i ← get
  let stop := if i.endsStatement false then i.tail else closing.stop
  return branchTo .statementBlock (opening :: statements ++ [closing]) stop

/-- A decorator: a name, a member of it, a call of either, or parentheses. -/
def decorator (g : Grammar) : Reader Node := do
  let mark ← token "@"
  let value ← g.operand
  return branch .decorator [mark, value]

end StableProps.Reader
