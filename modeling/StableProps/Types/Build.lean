import StableProps.Types.Expr

/-!
# From syntax to types

A type node becomes a type expression whose names are bound by a given function. The function is
asked once for each name, from left to right, arguments before the name they belong to; it may run
in any monad.
-/

namespace StableProps

/-- Finds the declaration that a name, which may be qualified by another one, refers to. -/
abbrev Binder (m : Type → Type) := String → Option String → m (Option TypeDeclaration)

namespace TypeExpr

/-- A reference to a name. A name without a declaration keeps its qualifier. -/
def bound [Monad m] (bind : Binder m) (text name : String) (qualifier : Option String)
    (arguments : List TypeExpr) : m TypeExpr := do
  match ← bind name qualifier with
  | some d => return .reference text name arguments (some d)
  | none =>
    match qualifier.filter (· ≠ "") with
    | some q => return .reference text (q ++ "." ++ name) arguments none
    | none => return .reference text name arguments none

/-- A form that is not looked into. -/
def ofUnread [Monad m] (bind : Binder m) (n : Node) : m TypeExpr := do
  let names := n.walk.filter (·.is .typeIdentifier)
  return .raw n.text (← names.mapM fun c => bound bind c.text c.text none [])

/-- A reference by the node that names it. -/
def ofName [Monad m] (bind : Binder m) (text : String) (name : Node) (arguments : List TypeExpr) :
    m TypeExpr :=
  match name.is .nestedTypeIdentifier, name.child? .qualifier, name.child? .name with
  | true, some qualifier, some last => bound bind text last.text (some qualifier.text) arguments
  | _, _, _ => bound bind text name.text none arguments

/-- The text of a method written as a function. -/
def methodText (n : Node) : String :=
  let parameters := ((n.child? .parameters).map Node.text).getD "()"
  let returns := match n.child? .returnType with
    | some r => Text.trim (String.ofList (r.text.toList.dropWhile (· == ':')))
    | none => "void"
  parameters ++ " => " ++ returns

/-- The parts of a union or intersection that become members of one around it. -/
def sameForm (isUnion : Bool) : TypeExpr → List TypeExpr
  | .union text members => if isUnion then members else [.union text members]
  | .intersection text members => if isUnion then [.intersection text members] else members
  | t => [t]

/-- A member with or without a type. -/
def member (name : String) (type : Option TypeExpr) (isOptional : Bool) : TypeMember :=
  match type with
  | some t => .typed name t isOptional
  | none => .untyped name isOptional

mutual

/-- The type that a node stands for. -/
def build [Monad m] (bind : Binder m) (n : Node) : m TypeExpr :=
  match n with
  | ⟨id, label, field, start, stop, text, children⟩ =>
    let n : Node := ⟨id, label, field, start, stop, text, children⟩
    match label with
    | .rule .annotatedType => buildFirst bind (.raw text []) children
    | .rule .optingAnnotatedType => buildFirst bind (.raw text []) children
    | .rule .omittingAnnotatedType => buildFirst bind (.raw text []) children
    | .rule .parenthesizedType => buildFirst bind (.raw text []) children
    | .rule .typeIdentifier => bound bind text text none []
    | .rule .nestedTypeIdentifier => ofName bind text n []
    | .rule .genericType => do
      let arguments ← buildArguments bind children
      match n.child? .name with
      | some name => ofName bind text name arguments
      | none => return .raw text []
    | .rule .predefinedType => return .keyword text
    | .rule .literalType =>
      match n.firstNamed? with
      | some c =>
        if c.is .undefinedKeyword then return .keyword "undefined"
        else if c.is .nullLiteral then return .keyword "null"
        else return .literal text
      | none => return .literal text
    | .rule .unionType => return .union text (← buildFlat bind true children)
    | .rule .intersectionType => return .intersection text (← buildFlat bind false children)
    | .rule .functionType => do
      let parameters ← buildParameters bind children
      return .function text parameters (← buildField bind .returnType children)
    | .rule .constructorType => do
      let parameters ← buildParameters bind children
      return .function text parameters (← buildField bind .returnType children)
    | .rule .objectType => do
      let members ← buildMembers bind children
      return .object text members (children.any (·.is .callSignature))
    | .rule .arrayType => return .array text (← buildFirst bind (.raw "unknown" []) children)
    | .rule .tupleType => return .tuple text (← buildNamed bind children)
    | .rule .lookupType => return .indexed text (← buildNamed bind children)
    | .rule .typeQuery => return .query text
    | _ => ofUnread bind n
termination_by structural n

/-- The type of the first named node of a list, or a given one. -/
def buildFirst [Monad m] (bind : Binder m) (otherwise : TypeExpr) (cs : List Node) : m TypeExpr :=
  match cs with
  | [] => return otherwise
  | c :: cs => if c.isNamed then build bind c else buildFirst bind otherwise cs
termination_by structural cs

/-- The types of all named nodes. -/
def buildNamed [Monad m] (bind : Binder m) (cs : List Node) : m (List TypeExpr) :=
  match cs with
  | [] => return []
  | c :: cs => do
    if c.isNamed then
      let t ← build bind c
      return t :: (← buildNamed bind cs)
    else buildNamed bind cs
termination_by structural cs

/-- The members of a union or intersection, those of nested ones included. -/
def buildFlat [Monad m] (bind : Binder m) (isUnion : Bool) (cs : List Node) :
    m (List TypeExpr) :=
  match cs with
  | [] => return []
  | c :: cs => do
    if c.isNamed then
      let t ← build bind c
      return sameForm isUnion t ++ (← buildFlat bind isUnion cs)
    else buildFlat bind isUnion cs
termination_by structural cs

/-- The type of the child that plays a part. -/
def buildField [Monad m] (bind : Binder m) (part : Field) (cs : List Node) :
    m (Option TypeExpr) :=
  match cs with
  | [] => return none
  | c :: cs =>
    if c.field == some part then do return some (← build bind c) else buildField bind part cs
termination_by structural cs

/-- The type arguments among the children of a node. -/
def buildArguments [Monad m] (bind : Binder m) (cs : List Node) : m (List TypeExpr) :=
  match cs with
  | [] => return []
  | ⟨_, _, field, _, _, _, children⟩ :: cs =>
    if field == some .typeArguments then buildNamed bind children else buildArguments bind cs
termination_by structural cs

/-- The parameters among the children of a node. -/
def buildParameters [Monad m] (bind : Binder m) (cs : List Node) : m (List TypeMember) :=
  match cs with
  | [] => return []
  | ⟨_, _, field, _, _, _, children⟩ :: cs =>
    if field == some .parameters then buildParameterList bind children
    else buildParameters bind cs
termination_by structural cs

/-- The parameters of a list. -/
def buildParameterList [Monad m] (bind : Binder m) (cs : List Node) : m (List TypeMember) :=
  match cs with
  | [] => return []
  | c :: cs => do
    if c.isOneOf [.requiredParameter, .optionalParameter] then
      let p ← buildParameter bind c
      return p :: (← buildParameterList bind cs)
    else buildParameterList bind cs
termination_by structural cs

/-- One parameter. -/
def buildParameter [Monad m] (bind : Binder m) (n : Node) : m TypeMember :=
  match n with
  | ⟨id, label, field, start, stop, text, children⟩ => do
    let n : Node := ⟨id, label, field, start, stop, text, children⟩
    let type ← buildField bind .type children
    return member (((n.child? .pattern).map Node.text).getD "") type (n.is .optionalParameter)
termination_by structural n

/-- The members of an object. -/
def buildMembers [Monad m] (bind : Binder m) (cs : List Node) : m (List TypeMember) :=
  match cs with
  | [] => return []
  | c :: cs => do
    if c.isOneOf [.propertySignature, .methodSignature] then
      let p ← buildMember bind c
      return p :: (← buildMembers bind cs)
    else buildMembers bind cs
termination_by structural cs

/-- One member of an object. -/
def buildMember [Monad m] (bind : Binder m) (n : Node) : m TypeMember :=
  match n with
  | ⟨id, label, field, start, stop, text, children⟩ => do
    let n : Node := ⟨id, label, field, start, stop, text, children⟩
    let name := ((n.child? .name).map Node.keyText).getD ""
    if n.is .methodSignature then
      let parameters ← buildParameters bind children
      let returns ← buildField bind .returnType children
      return .typed name (.function (methodText n) parameters returns) (n.hasToken "?")
    else
      return member name (← buildField bind .type children) (n.hasToken "?")
termination_by structural n

end

end TypeExpr

end StableProps
