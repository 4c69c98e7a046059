import StableProps.Syntax.Reader.Grammar

/-!
# Types

Unions bind weaker than intersections, and these weaker than operators and array brackets. Both
are read from the left, so a union of three is a union whose first part is a union of two.
-/

namespace StableProps.Reader

/-- Type names that stand for themselves. -/
def predefinedTypes : List String :=
  ["any", "number", "boolean", "string", "symbol", "void", "unknown", "never", "object"]

/-- A colon and a type. -/
def annotatedType (g : Grammar) : Reader Node := do
  let colon ← token ":"
  let type ← g.type
  return branch .annotatedType [colon, type]

/-- `x is T`, where `x` may be `this`. -/
def typePredicate (g : Grammar) : Reader Node := do
  let name ← identifier <|> thisLeaf
  let word ← whenInput (fun i => !i.newline) (keyword "is")
  let type ← g.type
  return branch .typePredicate [inField .name name, word, inField .type type]
where
  /-- The name `this`. -/
  thisLeaf : Reader Node := whenInput (·.word == "this") (nameLeaf .thisKeyword)

/-- `asserts x` or `asserts x is T`. -/
def assertion (g : Grammar) : Reader Node := do
  let word ← keyword "asserts"
  let subject ← typePredicate g <|>
    whenInput (fun i => !i.newline) (identifier <|> typePredicate.thisLeaf)
  return branch .asserts [word, subject]

/-- The annotation behind a parameter list. -/
def returnAnnotation (g : Grammar) : Reader Node :=
  predicateAnnotation <|> assertionAnnotation <|> annotatedType g
where
  /-- A colon and a predicate. -/
  predicateAnnotation : Reader Node := do
    let colon ← token ":"
    let p ← typePredicate g
    return branch .annotatedPredicate [colon, p]
  /-- A colon and an assertion. -/
  assertionAnnotation : Reader Node := do
    let colon ← token ":"
    let p ← assertion g
    return branch .annotatedAsserts [colon, p]

/-- Types in angle brackets. -/
def typeArguments (g : Grammar) : Reader Node := do
  let opening ← token "<"
  let items ← sepByComma g.type
  let comma ← atMostOne (token ",")
  let closing ← token ">"
  return branch .typeArguments (opening :: items ++ comma ++ [closing])

/-- A type parameter with its bound and default. -/
def typeParameter (g : Grammar) : Reader Node := do
  let modifiers ← many do
    let word ← whenInput (fun i => ["const", "in", "out"].contains i.word &&
      i.afterWord.wordChars != []) (keyword (← get).word)
    return [word]
  let name ← nameLeaf .typeIdentifier
  let bound ← orNone do
    let word ← keyword "extends"
    let type ← g.type
    return [inField .constraint (branch .typeConstraint [word, type])]
  let value ← orNone do
    let equals ← token "="
    let type ← g.type
    return [inField .value (branch .defaultType [equals, type])]
  return branch .typeParameter (modifiers ++ inField .name name :: bound ++ value)

/-- Type parameters in angle brackets. -/
def typeParameters (g : Grammar) : Reader Node := do
  let opening ← token "<"
  let items ← sepByComma (typeParameter g)
  let comma ← atMostOne (token ",")
  let closing ← token ">"
  return branch .typeParameters (opening :: items ++ comma ++ [closing])

/-- Whether the word here is a modifier, that is, another part of the member follows on it. -/
def Input.isModifier (i : Input) (words : List String) : Bool :=
  words.contains i.word &&
    match i.afterWord.rest with
    | c :: _ => isNameStart c || "[*#\"'".toList.contains c || c.isDigit
    | [] => false

/-- Reads a word as a modifier. -/
def modifier (words : List String) : Reader Node := do
  let i ← get
  if i.isModifier words then
    let w := i.word
    if ["public", "private", "protected"].contains w then
      (fun t => branch .accessibilityModifier [t]) <$> keyword w
    else if w == "override" then (fun t => branch .overrideModifier [t]) <$> keyword w
    else keyword w
  else failure

/-- A parameter of a typed function: modifiers, a pattern, a question mark, a type, a default. -/
def typedParameter (g : Grammar) : Reader Node := do
  let decorators ← many ((fun n => [inField .decorator n]) <$> decorator g)
  let modifiers ← many ((fun n => [n]) <$>
    modifier ["public", "private", "protected", "override", "readonly"])
  let pattern ← restPattern <|> typePredicate.thisLeaf <|> g.binding
  let mark ← atMostOne (tokenUnless "?" ['.', '?'])
  let type ← atMostOne (inField .type <$> annotatedType g)
  let value ← orNone (initializer g)
  let kind : Kind := if mark.isEmpty then .requiredParameter else .optionalParameter
  return branch kind
    (decorators ++ modifiers ++ inField .pattern pattern :: mark ++ type ++ value)
where
  /-- Dots and the name for the remaining arguments. -/
  restPattern : Reader Node := do
    let dots ← token "..."
    let inside ← g.binding
    return branch .restPattern [dots, inside]

/-- A parameter of a function without types: a pattern, maybe with a default. -/
def plainParameter (g : Grammar) : Reader Node := do
  let pattern ← typedParameter.restPattern g <|> g.binding
  let value ← optional? do
    let equals ← tokenUnless "=" ['=', '>']
    let value ← g.expression
    return (equals, value)
  match value with
  | some (equals, value) =>
    return branch .assignmentPattern [inField .left pattern, equals, inField .right value]
  | none => return pattern

/-- A parameter list in parentheses. -/
def formalParameters (g : Grammar) : Reader Node := do
  let typed := (← get).language.hasTypes
  enclosed .formalParameters "(" ")" (if typed then typedParameter g else plainParameter g)

/-- Type parameters, parameters and the type of the result. -/
def callSignature (g : Grammar) : Reader (List Node) := do
  let typed := (← get).language.hasTypes
  let generics ← if typed then atMostOne (inField .typeParameters <$> typeParameters g) else pure []
  let parameters ← formalParameters g
  let result ← if typed then atMostOne (inField .returnType <$> returnAnnotation g) else pure []
  return generics ++ inField .parameters parameters :: result

/-- A function type. -/
def functionType (g : Grammar) : Reader Node := do
  let generics ← atMostOne (inField .typeParameters <$> typeParameters g)
  let parameters ← formalParameters g
  let arrow ← token "=>"
  let result ← typePredicate g <|> assertion g <|> g.type
  return branch .functionType
    (generics ++ [inField .parameters parameters, arrow, inField .returnType result])

/-- The type of a constructor. -/
def constructorType (g : Grammar) : Reader Node := do
  let lead ← atMostOne (keyword "abstract")
  let new ← keyword "new"
  let generics ← atMostOne (inField .typeParameters <$> typeParameters g)
  let parameters ← formalParameters g
  let arrow ← token "=>"
  let result ← g.type
  return branch .constructorType
    (lead ++ new :: generics ++ [inField .parameters parameters, arrow, inField .type result])

/-- A name, maybe qualified, maybe with type arguments. -/
def typeReference (g : Grammar) : Reader Node := do
  let i ← get
  if reservedWords.contains i.word then failure
  let first ← nameLeaf .typeIdentifier
  let name ← qualify first 
  let arguments ← atMostOne (inField .typeArguments <$>
    whenInput (fun i => !i.newline) (typeArguments g))
  match arguments with
  | [] => return name
  | _ => return branch .genericType (inField .name name :: arguments)
where
  /-- Appends `.name` parts; all but the last are part of the qualifier. -/
  qualify (first : Node) : Reader Node := do
    let parts ← many do
      let dot ← tokenUnless "." ['.']
      let part ← nameLeaf .propertyIdentifier
      return [dot, part]
    return nest { first with label := .rule .identifier } first parts
  /-- Nests qualifiers to the left. -/
  nest (qualifier whole : Node) : List Node → Node
    | dot :: part :: rest =>
      let nested := branch .nestedTypeIdentifier
        [inField .qualifier qualifier, dot,
          inField .name { part with label := .rule .typeIdentifier }]
      nest (branch .nestedIdentifier [inField .object qualifier, dot, inField .property part])
        nested rest
    | _ => whole

/-- `typeof` with a name, its members and type arguments. -/
def typeQuery (g : Grammar) : Reader Node := do
  let word ← keyword "typeof"
  let root ← typePredicate.thisLeaf <|> identifier <|> importCall
  let parts ← many do
    let dot ← tokenUnless "." ['.']
    let part ← nameLeaf .propertyIdentifier <|> propertyName.privateName
    return [dot, part]
  let subject := members root parts
  let arguments ← atMostOne (inField .typeArguments <$>
    whenInput (fun i => !i.newline) (typeArguments g))
  match arguments with
  | [] => return branch .typeQuery [word, subject]
  | _ => return branch .typeQuery [word, branch .instantiationExpression (subject :: arguments)]
where
  /-- Nests members to the left. -/
  members (object : Node) : List Node → Node
    | dot :: part :: rest =>
      members (branch .memberExpression [inField .object object, dot, inField .property part]) rest
    | _ => object
  /-- A module by its name. -/
  importCall : Reader Node := do
    let word ← keyword "import"
    let arguments ← enclosed .callArguments "(" ")" stringLiteral
    return branch .callExpression
      [inField .function (branch .importKeyword [word]), inField .arguments arguments]

/-- A literal that stands for its own type. -/
def literalType : Reader Node := (fun n => branch .literalType [n]) <$> literal
where
  /-- The literal. -/
  literal : Reader Node :=
    stringLiteral <|> numberLiteral <|> negative <|> constant "true" .trueLiteral <|>
      constant "false" .falseLiteral <|> constant "null" .nullLiteral <|>
      constant "undefined" .undefinedKeyword
  /-- A number with a sign. -/
  negative : Reader Node := do
    let sign ← token "-" <|> token "+"
    let number ← numberLiteral
    return branch .unaryExpression [inField .operator sign, inField .argument number]
  /-- A word with a fixed meaning. -/
  constant (word : String) (kind : Kind) : Reader Node :=
    whenInput (·.word == word) (nameLeaf kind)

/-- An entry of a tuple type. -/
def tupleMember (g : Grammar) : Reader Node := named <|> rest <|> plain
where
  /-- An entry with a name. -/
  named : Reader Node := do
    let name ← restName <|> identifier
    let mark ← atMostOne (token "?")
    let type ← annotatedType g
    let kind : Kind := if mark.isEmpty then .requiredParameter else .optionalParameter
    return branch kind (inField .name name :: mark ++ [inField .type type])
  /-- Dots and a name. -/
  restName : Reader Node := do
    let dots ← token "..."
    let name ← identifier
    return branch .restPattern [dots, name]
  /-- Dots and a type. -/
  rest : Reader Node := do
    let dots ← token "..."
    let type ← g.type
    return branch .restType [dots, type]
  /-- A type, maybe optional. -/
  plain : Reader Node := do
    let type ← g.type
    let mark ← atMostOne (token "?")
    if mark.isEmpty then return type else return branch .optionalType (type :: mark)

/-- The annotation behind the brackets of an index signature. -/
def indexAnnotation (g : Grammar) : Reader Node :=
  marked "-?:" .omittingAnnotatedType <|> marked "+?:" .addingAnnotatedType <|>
    marked "?:" .optingAnnotatedType <|> marked ":" .annotatedType
where
  /-- A mark and a type. -/
  marked (mark : String) (kind : Kind) : Reader Node := do
    let mark ← token mark
    let type ← g.type
    return branch kind [mark, type]

/-- An index signature, or the entry of a mapped type. -/
def indexSignature (g : Grammar) : Reader Node := do
  let lead ← orNone do
    let sign ← atMostOne (inField .sign <$> (token "-" <|> token "+"))
    let word ← keyword "readonly"
    return sign ++ [word]
  let opening ← token "["
  let inside ← key <|> mapped
  let closing ← token "]"
  let type ← atMostOne (inField .type <$> indexAnnotation g)
  return branch .indexSignature (lead ++ opening :: inside ++ closing :: type)
where
  /-- A name for the key and its type. -/
  key : Reader (List Node) := do
    let name ← nameLeaf .identifier
    let colon ← token ":"
    let type ← g.type
    return [inField .name name, colon, inField .indexType type]
  /-- A name that runs through a type. -/
  mapped : Reader (List Node) := do
    let name ← nameLeaf .typeIdentifier
    let word ← keyword "in"
    let type ← g.type
    let renamed ← orNone do
      let word ← keyword "as"
      let type ← g.type
      return [word, inField .alias type]
    return [branch .mappedTypeClause
      (inField .name name :: word :: inField .type type :: renamed)]

/-- A member of an object type or interface. -/
def typeMember (g : Grammar) : Reader Node :=
  call <|> construct <|> indexSignature g <|> named
where
  /-- A call signature. -/
  call : Reader Node := whenInput (fun i => i.startsWith "(" || i.startsWith "<") do
    let signature ← callSignature g
    return branch .callSignature signature
  /-- A construct signature. -/
  construct : Reader Node := do
    let lead ← atMostOne (keyword "abstract")
    let new ← keyword "new"
    let generics ← atMostOne (inField .typeParameters <$> typeParameters g)
    let parameters ← formalParameters g
    let type ← atMostOne (inField .type <$> annotatedType g)
    return branch .constructSignature
      (lead ++ new :: generics ++ inField .parameters parameters :: type)
  /-- A property or method. -/
  named : Reader Node := do
    let modifiers ← many ((fun n => [n]) <$> modifier
      ["public", "private", "protected", "static", "override", "readonly", "async", "get", "set"])
    let star ← atMostOne (token "*")
    let name ← propertyName g
    let mark ← atMostOne (token "?")
    let i ← get
    let head := modifiers ++ star ++ inField .name name :: mark
    if i.startsWith "(" || i.startsWith "<" then
      let signature ← callSignature g
      return branch .methodSignature (head ++ signature)
    else
      let type ← atMostOne (inField .type <$> annotatedType g)
      return branch .propertySignature (head ++ type)

/-- Members in braces, each ended by a comma, a semicolon or its line. -/
def typeMembers (g : Grammar) (kind : Kind) : Reader Node := do
  let opening ← token "\x7b"
  let members ← many (separator <|> entry)
  let closing ← token "\x7d"
  return branch kind (opening :: members ++ [closing])
where
  /-- A written separator. -/
  separator : Reader (List Node) := (fun n => [n]) <$> (token "," <|> token ";")
  /-- A member and what ends it. -/
  entry : Reader (List Node) := do
    let member ← typeMember g
    let comma ← optional? (token ",")
    match comma with
    | some comma => return [member, comma]
    | none =>
      let (semicolon, _) ← statementEnd false
      return member :: semicolon

/-- A type that other types can be made of without parentheses. -/
def primaryType (g : Grammar) : Reader Node := do
  let i ← get
  if i.startsWith "(" then functionType g <|> parenthesizedType
  else if i.startsWith "<" then functionType g
  else if i.startsWith "[" then enclosed .tupleType "[" "]" (tupleMember g)
  else if i.startsWith "\x7b" then typeMembers g .objectType
  else if (i.peek?.map (· == backquote)).getD false then
    templateOf .templateLiteralType substitution
  else match i.word with
    | "typeof" => typeQuery g
    | "new" => constructorType g
    | "this" => nameLeaf .thisType
    | "import" => importType
    | "unique" => uniqueSymbol <|> typeReference g
    | "abstract" => constructorType g <|> typeReference g
    | "keyof" => keyType <|> typeReference g
    | "readonly" => readonlyType <|> typeReference g
    | "infer" => inferType <|> typeReference g
    | w =>
      if predefinedTypes.contains w then
        (fun t => branch .predefinedType [t]) <$> keyword w
      else literalType <|> typeReference g
where
  /-- A type in parentheses. -/
  parenthesizedType : Reader Node := do
    let opening ← token "("
    let inside ← g.type
    let closing ← token ")"
    return branch .parenthesizedType [opening, inside, closing]
  /-- A type inside a template. -/
  substitution : Reader Node := do
    let opening ← token "$\x7b"
    let inside ← g.type
    let closing ← rawToken "\x7d"
    return branch .templateType [opening, inside, closing]
  /-- The type of a symbol that equals no other. -/
  uniqueSymbol : Reader Node := do
    let first ← keyword "unique"
    let second ← keyword "symbol"
    return branch .predefinedType [leaf (.token "unique symbol") first.start second.stop]
  /-- The keys of a type. -/
  keyType : Reader Node := do
    let word ← keyword "keyof"
    let inside ← g.arrayType
    return branch .indexTypeQuery [word, inside]
  /-- An array or tuple that cannot be written to. -/
  readonlyType : Reader Node := do
    let word ← keyword "readonly"
    let inside ← g.arrayType
    return branch .readonlyType [word, inside]
  /-- A type variable bound by a conditional type. -/
  inferType : Reader Node := do
    let word ← keyword "infer"
    let name ← nameLeaf .typeIdentifier
    let bound ← orNone do
      let word ← keyword "extends"
      let type ← g.unionType
      let more ← testInput (·.startsWith "?")
      if more then failure
      return [word, type]
    return branch .inferType (word :: name :: bound)
  /-- A type exported by a module. -/
  importType : Reader Node := do
    let module ← typeQuery.importCall
    let parts ← many do
      let dot ← tokenUnless "." ['.']
      let part ← nameLeaf .propertyIdentifier
      return [dot, part]
    return typeQuery.members module parts

/-- A type with the brackets of arrays and indexed access behind it. -/
def arrayType (g : Grammar) : Reader Node := do
  let first ← primaryType g
  let parts ← many (whenInput (fun i => !i.newline) do
    let opening ← token "["
    let inside ← atMostOne g.type
    let closing ← token "]"
    return [branch .arrayType (opening :: inside ++ [closing])])
  return parts.foldl wrap first
where
  /-- Puts a type before a group of brackets. -/
  wrap (type group : Node) : Node :=
    let kind : Kind := if group.children.length == 2 then .arrayType else .lookupType
    branch kind (type :: group.children)

/-- Operands joined by a mark, which may also stand before the first one. -/
def joinedTypes (kind : Kind) (mark : String) (follower : Char) (operand : Reader Node) :
    Reader Node := do
  let lead ← atMostOne (tokenUnless mark [follower])
  let first ← operand
  let start := if lead.isEmpty then first else branch kind (lead ++ [first])
  let parts ← many do
    let sign ← tokenUnless mark [follower]
    let next ← operand
    return [branch kind [sign, next]]
  return parts.foldl (fun left part => branch kind (left :: part.children)) start

/-- Types joined by `&`. -/
def intersectionType (g : Grammar) : Reader Node :=
  joinedTypes .intersectionType "&" '&' (arrayType g)

/-- Types joined by `|`. -/
def unionType (g : Grammar) : Reader Node :=
  joinedTypes .unionType "|" '|' (intersectionType g)

/-- A type: a union, or the choice between two types by a third. -/
def type (g : Grammar) : Reader Node := do
  let left ← unionType g
  let choice ← orNone do
    let word ← keyword "extends"
    let right ← g.unionType
    let question ← token "?"
    let consequence ← g.type
    let colon ← token ":"
    let alternative ← g.type
    return [word, inField .right right, question, inField .consequence consequence, colon,
      inField .alternative alternative]
  match choice with
  | [] => return left
  | _ => return branch .conditionalType (inField .left left :: choice)

end StableProps.Reader
