import StableProps.Syntax.Reader.Types

/-!
# Patterns

Destructuring takes two forms. A declaration binds names only; an assignment may also put values
into members of objects. The two differ in their leaves alone.
-/

namespace StableProps.Reader

/-- A pattern with an optional default. -/
def patternWithDefault (g : Grammar) (pattern : Reader Node) : Reader Node := do
  let left ← pattern
  let value ← optional? do
    let equals ← tokenUnless "=" ['=', '>']
    let value ← g.expression
    return [equals, inField .right value]
  match value with
  | some value => return branch .assignmentPattern (inField .left left :: value)
  | none => return left

/-- Dots and the pattern for all that remains. -/
def restOf (pattern : Reader Node) : Reader Node := do
  let dots ← token "..."
  let inside ← pattern
  return branch .restPattern [dots, inside]

/-- An entry of an object pattern. -/
def objectPatternEntry (g : Grammar) (pattern : Reader Node) : Reader Node :=
  restOf pattern <|> pair <|> shorthand
where
  /-- A key, a colon and a pattern. -/
  pair : Reader Node := do
    let key ← propertyName g
    let colon ← token ":"
    let value ← patternWithDefault g pattern
    return branch .pairPattern [inField .key key, colon, inField .value value]
  /-- A name that is key and variable at once. -/
  shorthand : Reader Node := do
    let name ← nameLeaf .shorthandPropertyIdentifierPattern
    let value ← optional? do
      let equals ← tokenUnless "=" ['=', '>']
      let value ← g.expression
      return [equals, inField .right value]
    match value with
    | some value => return branch .objectAssignmentPattern (inField .left name :: value)
    | none => return name

/-- A pattern in braces. -/
def objectPattern (g : Grammar) (pattern : Reader Node) : Reader Node :=
  enclosed .objectPattern "\x7b" "\x7d" (objectPatternEntry g pattern)

/-- A pattern in brackets. -/
def arrayPattern (g : Grammar) (pattern : Reader Node) : Reader Node :=
  enclosed .arrayPattern "[" "]" (restOf pattern <|> patternWithDefault g pattern)

/-- What declares variables: a name or a destructuring of such. -/
def binding (g : Grammar) : Reader Node :=
  objectPattern g g.binding <|> arrayPattern g g.binding <|> identifier

/-- What can be assigned to: a destructuring or an operand. -/
def target (g : Grammar) : Reader Node :=
  objectPattern g g.target <|> arrayPattern g g.target <|> g.operand

end StableProps.Reader
