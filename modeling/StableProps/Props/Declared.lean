import StableProps.Props.Callable

/-!
# Declared types of props and of symbols

The type that a component declares for one of its props, and the types of the symbols inside a
component as far as their declarations tell them.
-/

namespace StableProps

/-- The declared type of a prop. -/
structure PropType where
  type : TypeExpr
  /-- The module that declares the type, by its file or specifier. -/
  origin : Option String := none
  isDefaultExport : Bool := false

/-- Why a prop has no declared type. -/
inductive PropFault where
  | noComponent (tag : String)
  | untypedProps (tag : String)
  | noProp (tag prop : String)
  deriving DecidableEq, Repr

/-- The words for a fault. -/
def PropFault.message : PropFault → String
  | .noComponent tag => s!"cannot find the declaration of <{tag}>"
  | .untypedProps tag => s!"<{tag}> has no typed props parameter"
  | .noProp tag prop => s!"<{tag}> declares no prop '{prop}'"

/-- A type with where it comes from. -/
def PropType.ofType (t : TypeExpr) : PropType :=
  match t.declaration? with
  | none => { type := t }
  | some d =>
    { type := t, origin := d.modulePath.map Path.text <|> d.moduleSpecifier
      isDefaultExport := d.isDefaultExport }

namespace Project

variable {m : Type → Type} [Monad m]

/-- The declared type of a prop; plain elements have props whose type is not known. -/
def propType (p : Project m) (i : ModuleIndex) (tag : Focus) (prop : String) :
    m (Except PropFault (Option PropType)) := do
  let name := tag.node.text
  if tag.node.is .identifier && Intrinsic.isTag name then
    let type := (Intrinsic.attributeType? name prop).bind Intrinsic.type?
    return .ok (type.map fun t => { type := t.withOptional, origin := reactModule })
  else
    match ← p.component? i tag with
    | none => return .error (.noComponent name)
    | some declaration =>
      match ← p.propsOfDeclaration declaration with
      | none => return .error (.untypedProps name)
      | some props =>
        match ← p.memberType props prop with
        | none => return .error (.noProp name prop)
        | some t => return .ok (some (.ofType (← p.collapse t)))

/-- The type of a value made by a hook of the rendering library, as text. -/
def hookType? (s : Symbol) (call : Node) : Option String :=
  let value := ((call.typeArguments.head?).map Node.text).getD "unknown"
  if call.calleeName = "useState" && s.path == [.index 1] then
    some ("Dispatch<SetStateAction<" ++ value ++ ">>")
  else if call.calleeName = "useRef" && s.path.isEmpty then
    some ("MutableRefObject<" ++ value ++ ">")
  else if call.calleeName = "createRef" && s.path.isEmpty then
    some ("RefObject<" ++ value ++ ">")
  else none

/-- The type of a symbol as far as its declaration tells it. -/
def symbolType (p : Project m) (i : ModuleIndex) (s : Symbol) : m (Option TypeExpr) := do
  match s.annotation?, s.initializer? with
  | some f, _ => return some (← p.typeAt i f)
  | none, some f =>
    if f.node.is .callExpression then return (hookType? s f.node).bind Intrinsic.type?
    else return none
  | none, none => return none

end Project

end StableProps
