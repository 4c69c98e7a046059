import StableProps.Distinct
import StableProps.Module.Index

/-!
# Types

Type expressions with the declarations their names refer to. `TypeExpr.render` writes a type so
that it can stand in another module: names appear as they are exported. Unions are flat lists
without two members of one rendering.
-/

namespace StableProps

/-- Where a named type comes from. -/
structure TypeDeclaration where
  name : String
  kind : DeclarationKind
  /-- The file of the module, if the declaration was found there. -/
  modulePath : Option Path := none
  /-- The specifier of a module that was not read. -/
  moduleSpecifier : Option String := none
  /-- The name by which the module exports it. -/
  exportName : Option String := none
  /-- The declaring statement. -/
  place : Option Focus := none

namespace TypeDeclaration

/-- What tells declarations apart: the module and the name. -/
def identity (d : TypeDeclaration) : String × String :=
  ((d.modulePath.map Path.text).getD (d.moduleSpecifier.getD ""), d.name)

/-- Whether the declaration is the default export. -/
def isDefaultExport (d : TypeDeclaration) : Bool := d.exportName == some "default"

/-- The name by which other modules write the type. -/
def spelling (d : TypeDeclaration) : String :=
  match d.exportName with
  | some e => if e = "default" then d.name else e
  | none => d.name

end TypeDeclaration

mutual

/-- A type, with the text it was written as. -/
inductive TypeExpr where
  | reference (text name : String) (arguments : List TypeExpr)
      (declaration : Option TypeDeclaration)
  | union (text : String) (members : List TypeExpr)
  | intersection (text : String) (members : List TypeExpr)
  | function (text : String) (parameters : List TypeMember) (returns : Option TypeExpr)
  | object (text : String) (members : List TypeMember) (callable : Bool)
  | array (text : String) (element : TypeExpr)
  | tuple (text : String) (items : List TypeExpr)
  | keyword (name : String)
  | literal (text : String)
  | indexed (text : String) (parts : List TypeExpr)
  | query (text : String)
  /-- A form that is not looked into, with the names that occur in it. -/
  | raw (text : String) (references : List TypeExpr)

/-- A parameter of a function or a member of an object. -/
inductive TypeMember where
  | typed (name : String) (type : TypeExpr) (isOptional : Bool)
  | untyped (name : String) (isOptional : Bool)

end

instance : Inhabited TypeExpr := ⟨.keyword "unknown"⟩

namespace TypeMember

/-- The name of a member. -/
def name : TypeMember → String
  | .typed name _ _ => name
  | .untyped name _ => name

/-- Whether a member may be left out. -/
def isOptional : TypeMember → Bool
  | .typed _ _ b => b
  | .untyped _ b => b

/-- The type of a member. -/
def type? : TypeMember → Option TypeExpr
  | .typed _ t _ => some t
  | .untyped _ _ => none

end TypeMember

namespace TypeExpr

/-- The text a type was written as. -/
def text : TypeExpr → String
  | .reference text .. => text
  | .union text _ => text
  | .intersection text _ => text
  | .function text .. => text
  | .object text .. => text
  | .array text _ => text
  | .tuple text _ => text
  | .keyword name => name
  | .literal text => text
  | .indexed text _ => text
  | .query text => text
  | .raw text _ => text

/-- The word that reports use for a form of type. -/
def kindName : TypeExpr → String
  | .reference .. => "reference"
  | .union .. => "union"
  | .intersection .. => "intersection"
  | .function .. => "function"
  | .object .. => "object"
  | .array .. => "array"
  | .tuple .. => "tuple"
  | .keyword .. => "keyword"
  | .literal .. => "literal"
  | .indexed .. => "indexed"
  | .query .. => "query"
  | .raw .. => "raw"

/-- The types a type is directly made of, parameters and members apart. -/
def arguments : TypeExpr → List TypeExpr
  | .reference _ _ arguments _ => arguments
  | .union _ members => members
  | .intersection _ members => members
  | .array _ element => [element]
  | .tuple _ items => items
  | .indexed _ parts => parts
  | .raw _ references => references
  | _ => []

/-- The declaration that a reference refers to. -/
def declaration? : TypeExpr → Option TypeDeclaration
  | .reference _ _ _ d => d
  | _ => none

/-- Whether a type is a function. -/
def isFunction : TypeExpr → Bool
  | .function .. => true
  | _ => false

/-- Whether a type is a union. -/
def isUnion : TypeExpr → Bool
  | .union .. => true
  | _ => false

/-- Whether a type is an intersection. -/
def isIntersection : TypeExpr → Bool
  | .intersection .. => true
  | _ => false

/-- Whether a type has a call signature of its own. -/
def hasCallSignature : TypeExpr → Bool
  | .function .. => true
  | .object _ _ callable => callable
  | _ => false

/-- The members of a union; any other type is its own only member. -/
def unionMembers : TypeExpr → List TypeExpr
  | .union _ members => members
  | t => [t]

/-- A text in parentheses where they are needed. -/
def parenthesized (needed : Bool) (s : String) : String := if needed then "(" ++ s ++ ")" else s

/-- The name of a reference as other modules write it. -/
def referenceName (name : String) : Option TypeDeclaration → String
  | some d => if d.kind = .typeParameter then name else d.spelling
  | none => name

mutual

/-- The text of a type in another module. -/
def render : TypeExpr → String
  | .reference text name arguments d =>
    let name := referenceName (if name = "" then text else name) d
    if arguments.isEmpty then name
    else name ++ "<" ++ String.intercalate ", " (renderAll arguments) ++ ">"
  | .union _ members => String.intercalate " | " (renderUnion members)
  | .intersection _ members => String.intercalate " & " (renderIntersection members)
  | .array _ element =>
    parenthesized (element.isFunction || element.isUnion || element.isIntersection)
      (render element) ++ "[]"
  | .function text _ _ => text
  | .object text _ _ => text
  | .tuple text _ => text
  | .keyword name => name
  | .literal text => text
  | .indexed text _ => text
  | .query text => text
  | .raw text _ => text

/-- The texts of several types. -/
def renderAll : List TypeExpr → List String
  | [] => []
  | t :: ts => render t :: renderAll ts

/-- The texts of the members of a union. -/
def renderUnion : List TypeExpr → List String
  | [] => []
  | t :: ts => parenthesized t.isFunction (render t) :: renderUnion ts

/-- The texts of the members of an intersection. -/
def renderIntersection : List TypeExpr → List String
  | [] => []
  | t :: ts => parenthesized (t.isFunction || t.isUnion) (render t) :: renderIntersection ts

end

/-- The union of types: flat, each rendering once, and a single member stands for itself. -/
def unionOf (types : List TypeExpr) : TypeExpr :=
  match distinctBy render (types.flatMap unionMembers) with
  | [t] => t
  | members => .union (String.intercalate " | " (members.map render)) members

/-- The type of a value that may be missing. -/
def withOptional (t : TypeExpr) : TypeExpr := unionOf [t, .keyword "undefined"]

/-- The union of those members that satisfy a test, if there are any. -/
def filteredUnion? [Monad m] (test : TypeExpr → m Bool) (t : TypeExpr) : m (Option TypeExpr) := do
  let kept ← t.unionMembers.filterM test
  if kept.isEmpty then return none
  else if t.isUnion then return some (unionOf kept)
  else return some t

mutual

/-- All declarations that a type refers to, outermost first. -/
def mentioned : TypeExpr → List TypeDeclaration
  | .reference _ _ arguments d => d.toList ++ mentionedAll arguments
  | .union _ members => mentionedAll members
  | .intersection _ members => mentionedAll members
  | .function _ parameters returns =>
    mentionedMembers parameters ++ match returns with
      | some t => mentioned t
      | none => []
  | .object _ members _ => mentionedMembers members
  | .array _ element => mentioned element
  | .tuple _ items => mentionedAll items
  | .indexed _ parts => mentionedAll parts
  | .raw _ references => mentionedAll references
  | .keyword _ => []
  | .literal _ => []
  | .query _ => []

/-- All declarations that several types refer to. -/
def mentionedAll : List TypeExpr → List TypeDeclaration
  | [] => []
  | t :: ts => mentioned t ++ mentionedAll ts

/-- All declarations that members refer to. -/
def mentionedMembers : List TypeMember → List TypeDeclaration
  | [] => []
  | .typed _ t _ :: ms => mentioned t ++ mentionedMembers ms
  | .untyped _ _ :: ms => mentionedMembers ms

end

end TypeExpr

end StableProps
