import StableProps.Site.Category
import StableProps.Source

/-!
# Sites

A site is an attribute of a markup element whose value is fresh each time the component around it
renders. The element is known by its tag; short tags take the first class of the element instead.
The component is the nearest function around the value that is neither a function inside braces of
markup nor a callback passed inside another function.
-/

namespace StableProps

/-- An attribute with a fresh value. -/
structure Site where
  /-- Where the attribute stands. -/
  place : Focus
  attributeName : String
  element : Focus
  tag : Focus
  /-- The name the element goes by in new names. -/
  host : String
  /-- The value. -/
  expression : Focus
  classification : Classification
  /-- The function that renders the element. -/
  component : Focus

/-- A function of the rendering library that keeps a value between renders. -/
inductive Hook where
  | callback
  | memo
  deriving DecidableEq, Repr

/-- The name of a hook. -/
def Hook.name : Hook → String
  | .callback => "useCallback"
  | .memo => "useMemo"

/-- Elements that have attributes. -/
def elementKinds : List Kind := [.jsxOpeningElement, .jsxSelfClosingElement]

/-- Characters that names are made of. -/
def isNamePart (c : Char) : Bool := c.isAlphanum || c == '_' || c == '$'

/-- Maximal runs of characters that satisfy a test. -/
def runs (test : Char → Bool) : List Char → List (List Char)
  | [] => []
  | c :: cs =>
    if test c then
      match cs, runs test cs with
      | d :: _, r :: rs => if test d then (c :: r) :: rs else [c] :: r :: rs
      | _, rs => [c] :: rs
    else runs test cs

/-- The parts of a text that can stand in names, each with its first letter in upper case. -/
def pascalCase (s : String) : String :=
  String.join ((runs isNamePart s.toList).map fun r => Text.upperFirst (String.ofList r))

/-- What stands behind the last separator. -/
def lastPart (separator : Char) (s : String) : String := ((Text.split separator s).getLast?).getD s

namespace Node

/-- The component name a tag stands for. -/
def componentName (tag : Node) : String :=
  if tag.is .memberExpression then ((tag.child? .property).map Node.text).getD tag.text
  else if tag.is .jsxNamespaceName then lastPart ':' tag.text
  else tag.text

/-- The value of an attribute that gives classes, if a node is one. -/
def classValue? (attr : Node) : Option Node :=
  if attr.is .jsxAttribute then
    match attr.namedChildren with
    | name :: value :: rest =>
      if name.text = "className" then some ((value :: rest).getLast (by simp)) else none
    | _ => none
  else none

/-- The first class that an attribute value gives, if the value is a plain text. -/
def firstClass? (value : Node) : Option String :=
  let inner := if value.is .jsxExpression then value.firstNamed?.getD value else value
  let plain := inner.is .stringLiteral ||
    (inner.is .templateString && !inner.children.any (·.is .templateSubstitution))
  if plain then Text.firstWord? (String.ofList (inner.text.toList.drop 1).dropLast) else none

/-- The first class of an element. -/
def className? (element : Node) : Option String :=
  (element.namedChildren.findSome? classValue?).bind firstClass?

/-- The name an element goes by. -/
def hostName (element tag : Node) (threshold : Nat) : String :=
  let name := tag.componentName
  if name.length < threshold then
    match element.className?.map pascalCase with
    | some derived => if derived = "" then name else derived
    | none => name
  else name

end Node

namespace Focus

/-- Whether a function stands inside braces of markup. -/
def isInsideBraces (f : Focus) : Bool := f.above.any (·.is .jsxExpression)

/-- Whether a function is passed as an argument inside another function. -/
def isNestedCallback (f : Focus) : Bool :=
  match f.above.dropWhile (·.is .parenthesizedExpression) with
  | p :: ps => p.is .callArguments && (p :: ps).any Node.isFunction
  | [] => false

/-- The function that renders what stands at a place. -/
def component? (f : Focus) : Option Focus :=
  (Focus.ofAbove f.above).find? fun g =>
    g.node.isFunction && !g.isInsideBraces && !g.isNestedCallback

end Focus

namespace Site

/-- The braces that hold the value of an attribute, if a node is an attribute with such. -/
def bracedValue? (f : Focus) : Option Focus :=
  if f.node.is .jsxAttribute && f.node.children.any (·.is .propertyIdentifier) then
    (f.node.childOf? .jsxExpression).map f.down
  else none

/-- The site at a place, if there is one. -/
def at? (o : Options) (ignored : IgnoreList) (f : Focus) : Option Site := do
  let expression ← (← bracedValue? f).firstNamed?
  if expression.node.isOneOf [.comment, .spreadElement] then none
  let classification ← expression.node.classify? o
  let element ← (Focus.ofAbove f.above).find? (·.node.isOneOf elementKinds)
  let tag ← element.child? .name
  let host := element.node.hostName tag.node o.shortNameThreshold
  if [tag.node.text, tag.node.componentName, host].any ignored.covers then none
  let component ← expression.component?
  return {
    place := f
    attributeName := ((f.node.firstNamed?).map Node.text).getD ""
    element, tag, host, expression, classification, component }

/-- The sites of a source; outer ones come before those inside of them. -/
def all (s : Source) (o : Options) (ignored : IgnoreList) : List Site :=
  s.focus.walk.filterMap (at? o ignored)

/-- The category of the value. -/
def category (s : Site) : Category := s.classification.category

/-- The name of the tag. -/
def tagName (s : Site) : String := s.tag.node.text

/-- The hook that keeps values of this category. -/
def hook (s : Site) : Hook := if s.category = .function then .callback else .memo

end Site

end StableProps
