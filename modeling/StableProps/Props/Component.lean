import StableProps.Module.Project
import StableProps.Props.Intrinsic
import StableProps.Site.Basic

/-!
# Components and the types of their props

A tag leads to the declaration of its component, possibly in another module, and the declaration
to the type of the props: the first parameter of a function, or the type argument by which a
component type, a wrapper or a base class is told it.
-/

namespace StableProps

namespace Node

/-- The name of the function that a call calls; of a member the last part. -/
def calleeName (call : Node) : String :=
  match call.child? .function with
  | none => ""
  | some f =>
    if f.is .memberExpression then ((f.child? .property).map Node.text).getD "" else f.text

/-- The type arguments of a call. -/
def typeArguments (call : Node) : List Node :=
  ((call.child? .typeArguments).map Node.namedChildren).getD []

end Node

/-- The type arguments of a call in their places. -/
def Focus.typeArguments (call : Focus) : List Focus :=
  ((call.child? .typeArguments).map Focus.namedChildren).getD []

/-- A place in a module. -/
structure ModulePlace where
  module : ModuleIndex
  place : Focus

/-- Types of components, which take the type of the props as their argument. -/
def componentTypes : List String :=
  ["ComponentType", "FC", "ForwardRefExoticComponent", "FunctionComponent", "MemoExoticComponent",
   "NamedExoticComponent", "VFC", "VoidFunctionComponent"]

/-- The type of the props by the type of a component. -/
def TypeExpr.props? : TypeExpr → Option TypeExpr
  | .function _ parameters _ => parameters.head?.bind TypeMember.type?
  | .reference _ name (first :: _) _ =>
    if componentTypes.contains (lastPart '.' name) then some first else none
  | _ => none

namespace Project

variable {m : Type → Type} [Monad m]

/-- The declaration of a symbol that is not imported. -/
def ownDeclaration? (i : ModuleIndex) (s : Symbol) : Option ModulePlace :=
  if s.kind = .function || s.kind = .classDefinition || s.kind = .plain then
    some ⟨i, s.declaration⟩
  else none

/-- The declaration of a symbol; an imported one is declared elsewhere. -/
def declarationOf (p : Project m) (i : ModuleIndex) (s : Symbol) : m (Option ModulePlace) := do
  if s.kind = .imported then
    match ← p.followImport i s.name with
    | none => return none
    | some declared =>
      match declared.module.value? declared.localName with
      | none => return none
      | some target => return ownDeclaration? declared.module target
  else return ownDeclaration? i s

/-- The declaration of the component that a tag names. -/
def component? (p : Project m) (i : ModuleIndex) (tag : Focus) : m (Option ModulePlace) := do
  if tag.node.is .memberExpression then
    match tag.node.child? .object, tag.node.child? .property with
    | some object, some property =>
      match object.is .identifier, i.importOf? object.text with
      | true, some (existing, binding) =>
        if !binding.imported.isModule then return none
        match ← p.index? existing.resolved with
        | none => return none
        | some target =>
          match ← p.resolveExport target property.text with
          | none => return none
          | some declared =>
            match declared.module.value? declared.localName with
            | none => return none
            | some s => p.declarationOf declared.module s
      | _, _ => return none
    | _, _ => return none
  else if tag.node.is .identifier then
    match i.scopes.resolve tag with
    | none => return none
    | some s => p.declarationOf i s
  else return none

/-- The type of the first parameter of a function. -/
def firstParameterType (p : Project m) (i : ModuleIndex) (function : Focus) :
    m (Option TypeExpr) := do
  let parameters := ((function.child? .parameters).map Focus.namedChildren).getD []
  let first := parameters.find? (·.node.isOneOf [.requiredParameter, .optionalParameter])
  match first.bind (·.child? .type) with
  | some f => return some (← p.typeAt i f)
  | none => return none

/-- The type of the props that a class tells its base class. -/
def propsOfClass (p : Project m) (i : ModuleIndex) (f : Focus) : m (Option TypeExpr) := do
  let clause := do
    let heritage ← f.node.childOf? .classHeritage
    let clause ← heritage.childOf? .extendsClause
    return (f.down heritage).down clause
  match clause with
  | none => return none
  | some clause =>
    match clause.node.child? .value, clause.typeArguments with
    | some base, first :: _ =>
      if ["Component", "PureComponent"].contains (lastPart '.' base.text) then
        return some (← p.typeAt i first)
      else return none
    | _, _ => return none

mutual

/-- The type of the props by an expression that makes a component. A name leads on to its
declaration by `jump`, which is told how many steps were made. -/
def propsOfExpression (p : Project m) (jump : Nat → ModulePlace → m (Option TypeExpr))
    (i : ModuleIndex) (depth : Nat) (above : List Node) (n : Node) : m (Option TypeExpr) :=
  match n with
  | ⟨id, label, field, start, stop, text, children⟩ =>
    let n : Node := ⟨id, label, field, start, stop, text, children⟩
    let f : Focus := ⟨n, above⟩
    if n.isFunction then p.firstParameterType i f
    else match label with
      | .rule .parenthesizedExpression =>
        if n.namedChildren.length = 1 then
          propsOfFirst p jump i depth (n :: above) children
        else return none
      | .rule .asExpression => propsOfFirst p jump i (depth + 1) (n :: above) children
      | .rule .satisfiesExpression => propsOfFirst p jump i (depth + 1) (n :: above) children
      | .rule .callExpression =>
        match n.calleeName, f.typeArguments with
        | "forwardRef", _ :: props :: _ => do return some (← p.typeAt i props)
        | "memo", props :: _ => do return some (← p.typeAt i props)
        | _, _ => propsOfArguments p jump i (depth + 1) (n :: above) children
      | .rule .identifier => do
        if 8 < depth then return none
        match i.scopes.resolve f with
        | none => return none
        | some s =>
          match ← p.declarationOf i s with
          | none => return none
          | some declaration => jump (depth + 1) declaration
      | .rule .classExpression => p.propsOfClass i f
      | _ => return none
termination_by structural n

/-- The type of the props by the first named expression of a list. -/
def propsOfFirst (p : Project m) (jump : Nat → ModulePlace → m (Option TypeExpr))
    (i : ModuleIndex) (depth : Nat) (above : List Node) (cs : List Node) : m (Option TypeExpr) :=
  match cs with
  | [] => return none
  | c :: cs =>
    if c.isNamed then propsOfExpression p jump i depth above c
    else propsOfFirst p jump i depth above cs
termination_by structural cs

/-- The type of the props by the first argument of a call. -/
def propsOfArguments (p : Project m) (jump : Nat → ModulePlace → m (Option TypeExpr))
    (i : ModuleIndex) (depth : Nat) (above : List Node) (cs : List Node) : m (Option TypeExpr) :=
  match cs with
  | [] => return none
  | ⟨id, label, field, start, stop, text, children⟩ :: cs =>
    if field == some .arguments then
      let n : Node := ⟨id, label, field, start, stop, text, children⟩
      propsOfFirst p jump i depth (n :: above) children
    else propsOfArguments p jump i depth above cs
termination_by structural cs

end

/-- The type of the props by a declaration, after a number of steps. -/
def propsAfter (p : Project m) : Nat → Nat → ModulePlace → m (Option TypeExpr)
  | 0, _, _ => return none
  | fuel + 1, depth, ⟨i, f⟩ => do
    if 8 < depth then return none
    if f.node.isFunction then p.firstParameterType i f
    else if f.node.is .variableDeclarator then
      let declared ← match f.child? .type with
        | some t => pure (← p.typeAt i t).props?
        | none => pure none
      match declared, f.child? .value with
      | some props, _ => return some props
      | none, some value =>
        p.propsOfExpression (p.propsAfter fuel) i (depth + 1) value.above value.node
      | none, none => return none
    else if f.node.isOneOf [.classDeclaration, .abstractClassDeclaration, .classExpression] then
      p.propsOfClass i f
    else return none

/-- The type of the props by a declaration. Names are followed over a few steps only. -/
def propsOfDeclaration (p : Project m) (d : ModulePlace) : m (Option TypeExpr) :=
  p.propsAfter 9 0 d

end Project

end StableProps
