import StableProps.Syntax.Reader.Types

/-!
# Markup

Elements with attributes and children. Text between tags is taken as it stands, so tags are read
without skipping anything behind their last mark; only white space that holds a line break is
dropped when nothing else stands beside it.
-/

namespace StableProps.Reader

/-- Number of characters of a character reference such as an ampersand, a name and a semicolon. -/
def referenceLength? (cs : List Char) : Option Nat :=
  match cs with
  | '&' :: rest =>
    let body := rest.takeWhile fun c => c.isAlphanum || c == '#'
    if body.isEmpty then none
    else if (rest.drop body.length).head? == some ';' then some (body.length + 2) else none
  | _ => none

/-- Reads a character reference. -/
def characterReference : Reader Node := fun i =>
  match referenceLength? i.rest with
  | none => none
  | some n =>
    let bytes := byteCount (i.rest.take n)
    some (leaf (.rule .htmlCharacterReference) i.offset (i.offset + bytes),
      i.after (i.rest.drop n) bytes)

/-- Reads an ampersand that starts no character reference. -/
def looseAmpersand (kind : Kind) : Reader Node := fun i =>
  match i.rest with
  | '&' :: rest => some (leaf (.rule kind) i.offset (i.offset + 1), i.after rest 1)
  | _ => none

/-- Whether a run of text is more than the white space around a line break: it has a visible
character, or white space that follows no line break. -/
def isVisibleText : Bool → List Char → Bool
  | _, [] => false
  | atNewline, c :: cs =>
    if c == '\n' then isVisibleText true cs
    else if atNewline && isBlank c then isVisibleText true cs
    else true

/-- Reads text between tags; invisible text leaves no node. -/
def markupText : Reader (List Node) := fun i =>
  match runLeaf (.rule .jsxText) (fun c => !"<>&\x7b\x7d".toList.contains c) i with
  | none => none
  | some (text, j) =>
    let run := i.rest.take (i.rest.length - j.rest.length)
    some (if isVisibleText false run then [text] else [], j)

/-- Characters of names in tags. -/
def isTagPart (c : Char) : Bool := isNamePart c || c == '-'

/-- Reads a name that may contain hyphens. -/
def tagName (kind : Kind) : Reader Node := do
  let i ← get
  if !(i.peek?.map isNameStart).getD false then failure
  let name ← runLeaf (.rule kind) isTagPart
  settle
  return name

/-- The rest of a qualified name behind its first part, if it is qualified by a colon. -/
def namespaced (first : Node) : Reader Node := do
  let colon ← token ":"
  let second ← tagName .identifier
  return branch .jsxNamespaceName [{ first with label := .rule .identifier }, colon, second]

/-- The name of an element: a name, a name with a colon, or a member of a component. -/
def elementName : Reader Node := do
  let first ← tagName .identifier
  namespaced first <|> do
    let parts ← many do
      let dot ← token "."
      let part ← nameLeaf .propertyIdentifier
      return [dot, part]
    return typeQuery.members first parts

/-- A string as the value of an attribute; it may hold line breaks but no escapes. -/
def attributeString : Reader Node := do
  let inside (q : Char) : Reader Node :=
    runLeaf (.rule .stringFragment) (fun c => c != q && c != '&') <|> characterReference <|>
      looseAmpersand .stringFragment
  let s ← quotedBy "\"" (inside doubleQuote) <|> quotedBy "'" (inside singleQuote)
  settle
  return s

/-- An expression in braces, staying right behind them. -/
def expressionContainer (g : Grammar) : Reader Node := do
  let opening ← token "\x7b"
  let inside ← atMostOne (spread <|> expressions g)
  let closing ← rawToken "\x7d"
  return branch .jsxExpression (opening :: inside ++ [closing])
where
  /-- Dots and an expression. -/
  spread : Reader Node := do
    let dots ← token "..."
    let value ← g.expression
    return branch .spreadElement [dots, value]

/-- An attribute of an element. -/
def tagAttribute (g : Grammar) : Reader Node := spreadAttribute <|> named
where
  /-- All members of an expression as attributes. -/
  spreadAttribute : Reader Node := do
    let container ← expressionContainer g
    settle
    return container
  /-- A name, maybe with a value. -/
  named : Reader Node := do
    let first ← tagName .propertyIdentifier
    let name ← namespaced first <|> pure first
    let value ← orNone do
      let equals ← token "="
      let value ← attributeString <|> spreadAttribute <|> (g.element <* settle)
      return [equals, value]
    return branch .jsxAttribute (name :: value)

/-- Name, type arguments and attributes of an opening tag. -/
def tagContent (g : Grammar) : Reader (List Node) := orNone do
  let typed := (← get).language.hasTypes
  let name ← elementName
  let arguments ← if typed then atMostOne (inField .typeArguments <$> typeArguments g) else pure []
  let attributes ← many ((fun n => [inField .attribute n]) <$> tagAttribute g)
  return inField .name name :: arguments ++ attributes

/-- A closing tag. -/
def closingTag : Reader Node := do
  let opening ← token "<"
  let slash ← token "/"
  let name ← atMostOne (inField .name <$> elementName)
  let closing ← rawToken ">"
  let mark := leaf (.token "</") opening.start slash.stop
  return branch .jsxClosingElement (mark :: name ++ [closing])

/-- What stands between tags. -/
def markupChild (g : Grammar) : Reader (List Node) :=
  markupText <|> (fun n => [n]) <$>
    (characterReference <|> looseAmpersand .jsxText <|> expressionContainer g <|> g.element)

/-- An element, staying right behind it. -/
def element (g : Grammar) : Reader Node := do
  let opening ← token "<"
  let content ← tagContent g
  match ← optional? (whenInput (fun _ => !content.isEmpty) (rawToken "/>")) with
  | some closing => return branch .jsxSelfClosingElement (opening :: content ++ [closing])
  | none =>
    let bracket ← rawToken ">"
    let tag := branch .jsxOpeningElement (opening :: content ++ [bracket])
    let children ← many (markupChild g)
    let closing ← closingTag
    return branch .jsxElement
      (inField .openTag tag :: children ++ [inField .closeTag closing])

end StableProps.Reader
