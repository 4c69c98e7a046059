import StableProps.Props.Component

/-!
# Types of members

The type of a member is looked up through unions, intersections, aliases and interfaces. A
declaration is opened at most once in a look-up, so that types that refer to themselves do not
keep it going.
-/

namespace StableProps

/-- The declarations that were opened in a look-up. -/
abbrev Opened := List (String × String)

/-- The outcome of a look-up and the declarations opened so far. -/
abbrev Lookup := Option TypeExpr × Opened

namespace TypeMember

/-- The type by which a member is seen from outside. -/
def seenType? (x : TypeMember) : Option TypeExpr :=
  match x with
  | .typed _ t isOptional => some (if isOptional then t.withOptional else t)
  | .untyped .. => none

/-- The type of the first member of a name that has one. -/
def find? (members : List TypeMember) (name : String) : Option TypeExpr :=
  (members.filter (·.name == name)).findSome? seenType?

end TypeMember

/-- Types that have the members of their first argument. -/
def passThroughTypes : List String := ["Partial", "Required", "Readonly", "Omit", "Pick"]

namespace TypeExpr

variable {m : Type → Type} [Monad m]

mutual

/-- The type of a member of a type. Declarations are opened by `jump`. -/
def memberVia (jump : TypeDeclaration → Opened → m Lookup) (name : String) (t : TypeExpr)
    (opened : Opened) : m Lookup :=
  match t with
  | .object _ members _ => return (TypeMember.find? members name, opened)
  | .intersection _ parts => memberOfFirst jump name parts opened
  | .union _ parts => do
    let (found, opened) ← memberOfEach jump name parts opened
    return (if found.isEmpty then none else some (unionOf found), opened)
  | .reference _ outer arguments none =>
    if passThroughTypes.contains (lastPart '.' outer) then do
      let (found, opened) ← memberOfArgument jump name arguments opened
      return (if lastPart '.' outer = "Partial" then found.map withOptional else found, opened)
    else return (none, opened)
  | .reference _ _ _ (some d) => jump d opened
  | _ => return (none, opened)
termination_by structural t

/-- The type of a member of the first argument. -/
def memberOfArgument (jump : TypeDeclaration → Opened → m Lookup) (name : String)
    (ts : List TypeExpr) (opened : Opened) : m Lookup :=
  match ts with
  | [] => return (none, opened)
  | t :: _ => memberVia jump name t opened
termination_by structural ts

/-- The type of a member of the first type that has it. -/
def memberOfFirst (jump : TypeDeclaration → Opened → m Lookup) (name : String)
    (ts : List TypeExpr) (opened : Opened) : m Lookup :=
  match ts with
  | [] => return (none, opened)
  | t :: ts => do
    match ← memberVia jump name t opened with
    | (some found, opened) => return (some found, opened)
    | (none, opened) => memberOfFirst jump name ts opened
termination_by structural ts

/-- The types of a member in all types that have it. -/
def memberOfEach (jump : TypeDeclaration → Opened → m Lookup) (name : String)
    (ts : List TypeExpr) (opened : Opened) : m (List TypeExpr × Opened) :=
  match ts with
  | [] => return ([], opened)
  | t :: ts => do
    let (found, opened) ← memberVia jump name t opened
    let (more, opened) ← memberOfEach jump name ts opened
    return (found.toList ++ more, opened)
termination_by structural ts

end

end TypeExpr

namespace Project

variable {m : Type → Type} [Monad m]

/-- The type of a member among the signatures of an interface, which are read in order. -/
def ownMember (p : Project m) (i : ModuleIndex) (context : Focus) (name : String) :
    List Node → m (Option TypeExpr)
  | [] => return none
  | c :: cs => do
    if c.isOneOf [.propertySignature, .methodSignature] then
      let x ← TypeExpr.buildMember (p.binder i context) c
      match if x.name = name then x.seenType? else none with
      | some t => return some t
      | none => ownMember p i context name cs
    else ownMember p i context name cs

/-- The types that an interface extends. -/
def basesOf (interface : Node) : List Node :=
  (interface.namedChildren.filter (·.isOneOf [.extendsTypeClause, .extendsClause])).flatMap
    Node.namedChildren

/-- The type of a member of the first base that has it. -/
def baseMember (p : Project m) (ask : TypeExpr → Opened → m Lookup) (i : ModuleIndex)
    (context : Focus) : List Node → Opened → m Lookup
  | [], opened => return (none, opened)
  | base :: bases, opened => do
    let t ← TypeExpr.build (p.binder i context) base
    match ← ask t opened with
    | (some found, opened) => return (some found, opened)
    | (none, opened) => baseMember p ask i context bases opened

/-- The type of a member of a declaration that is opened. -/
def memberOfDeclaration (p : Project m) (ask : TypeExpr → Opened → m Lookup) (name : String)
    (d : TypeDeclaration) (opened : Opened) : m Lookup := do
  match d.place, d.modulePath with
  | some place, some path =>
    if opened.contains d.identity then return (none, opened)
    let opened := d.identity :: opened
    match ← p.index path with
    | none => return (none, opened)
    | some i =>
      if d.kind = .interface then
        let signatures := ((place.node.child? .body).map Node.namedChildren).getD []
        match ← p.ownMember i place name signatures with
        | some t => return (some t, opened)
        | none => p.baseMember ask i place (basesOf place.node) opened
      else if d.kind = .alias then
        match place.child? .value with
        | some value => ask (← p.typeAt i value) opened
        | none => return (none, opened)
      else return (none, opened)
  | _, _ => return (none, opened)

/-- The type of a member, opening at most a number of declarations inside each other. -/
def memberWithin (p : Project m) (name : String) : Nat → TypeExpr → Opened → m Lookup
  | 0, t, opened => t.memberVia (fun _ opened => return (none, opened)) name opened
  | fuel + 1, t, opened =>
    t.memberVia (p.memberOfDeclaration (p.memberWithin name fuel) name) name opened

/-- The type of a member of a type. -/
def memberType (p : Project m) (t : TypeExpr) (name : String) : m (Option TypeExpr) := do
  return (← p.memberWithin name p.bound t []).1

/-- Follows aliases of plain references to the last one that is not an alias of another. -/
def followAlias (p : Project m) : Nat → Opened → TypeExpr → m TypeExpr
  | 0, _, t => return t
  | fuel + 1, opened, t => do
    match t with
    | .reference _ _ [] (some d) =>
      match d.kind, d.place, d.modulePath with
      | .alias, some place, some path =>
        if opened.contains d.identity then return t
        match place.child? .value, ← p.index path with
        | some value, some i =>
          let target ← p.typeAt i value
          match target with
          | .reference .. => followAlias p fuel (d.identity :: opened) target
          | _ => return t
        | _, _ => return t
      | _, _, _ => return t
    | _ => return t

mutual

/-- A type with aliases of plain references replaced by what they stand for, in unions too. -/
def collapse (p : Project m) (t : TypeExpr) : m TypeExpr :=
  match t with
  | .union _ members => do return TypeExpr.unionOf (← collapseAll p members)
  | t => p.followAlias p.bound [] t
termination_by structural t

/-- Several types with their aliases replaced. -/
def collapseAll (p : Project m) (ts : List TypeExpr) : m (List TypeExpr) :=
  match ts with
  | [] => return []
  | t :: ts => do
    let t ← collapse p t
    return t :: (← collapseAll p ts)
termination_by structural ts

end

end Project

end StableProps
