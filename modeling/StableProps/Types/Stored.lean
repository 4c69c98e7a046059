import StableProps.Types.Expr

/-!
# Stored types

A type as it is stored is made of objects, one of which may stand at several places. Declarations
are collected object by object, and each of them hands on only what it has not met before: no object
is looked into twice, and no two declarations of one identity are handed on.
-/

namespace StableProps

/-- A type as it is stored: its object, the declaration that it refers to, and the types directly
inside of it. -/
inductive StoredType (κ : Type) where
  | mk (object : κ) (declaration : Option TypeDeclaration) (inside : List (StoredType κ))

namespace StoredType

variable {κ : Type} [DecidableEq κ]

mutual

/-- The declarations that a stored type refers to, each once and outermost first, and the objects
that have been visited. There is nothing to be had from an object that was visited before. -/
def collect (visited : List κ) (t : StoredType κ) : List TypeDeclaration × List κ :=
  match t with
  | ⟨object, declaration, inside⟩ =>
    if object ∈ visited then ([], visited)
    else
      let (found, visited) := collectAll (object :: visited) inside
      (distinctBy TypeDeclaration.identity (declaration.toList ++ found), visited)
termination_by structural t

/-- The declarations of several stored types, one after the other. -/
def collectAll (visited : List κ) (ts : List (StoredType κ)) : List TypeDeclaration × List κ :=
  match ts with
  | [] => ([], visited)
  | t :: ts =>
    let (found, visited) := collect visited t
    let (more, visited) := collectAll visited ts
    (found ++ more, visited)
termination_by structural ts

end

end StoredType

namespace TypeExpr

variable {κ : Type}

mutual

/-- A type as it is stored, if the objects at its places are given. The place of a type directly
inside of another one is named by its number and the place around it. -/
def stored (object : List Nat → κ) (place : List Nat) : TypeExpr → StoredType κ
  | .reference _ _ arguments d => ⟨object place, d, storedAll object place 0 arguments⟩
  | .union _ members => ⟨object place, none, storedAll object place 0 members⟩
  | .intersection _ members => ⟨object place, none, storedAll object place 0 members⟩
  | .function _ parameters returns =>
    let types := storedMembers object place 0 parameters
    ⟨object place, none, types ++ match returns with
      | some t => [stored object (types.length :: place) t]
      | none => []⟩
  | .object _ members _ => ⟨object place, none, storedMembers object place 0 members⟩
  | .array _ element => ⟨object place, none, [stored object (0 :: place) element]⟩
  | .tuple _ items => ⟨object place, none, storedAll object place 0 items⟩
  | .indexed _ parts => ⟨object place, none, storedAll object place 0 parts⟩
  | .raw _ references => ⟨object place, none, storedAll object place 0 references⟩
  | .keyword _ => ⟨object place, none, []⟩
  | .literal _ => ⟨object place, none, []⟩
  | .query _ => ⟨object place, none, []⟩

/-- Several types as they are stored, numbered from a given number on. -/
def storedAll (object : List Nat → κ) (place : List Nat) (n : Nat) :
    List TypeExpr → List (StoredType κ)
  | [] => []
  | t :: ts => stored object (n :: place) t :: storedAll object place (n + 1) ts

/-- The types of members as they are stored, numbered from a given number on. -/
def storedMembers (object : List Nat → κ) (place : List Nat) (n : Nat) :
    List TypeMember → List (StoredType κ)
  | [] => []
  | .typed _ t _ :: ms => stored object (n :: place) t :: storedMembers object place (n + 1) ms
  | .untyped _ _ :: ms => storedMembers object place n ms

end

/-- The declarations that a type refers to, each once, outermost first. Each of its places is taken
for an object of its own. -/
def declarations (t : TypeExpr) : List TypeDeclaration := ((t.stored id []).collect []).1

end TypeExpr

end StableProps
