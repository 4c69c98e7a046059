import StableProps.Import.Plan

/-!
# Import declarations

An entry is one import declaration of a file, as it is or as it will be: the names it has and the
names to be added. Rendering writes new names before those that were there.
-/

namespace StableProps

/-- A name with the name it is imported by. -/
structure ImportedName where
  imported : String
  localName : String
  typeOnly : Bool := false
  deriving DecidableEq, Repr

/-- An imported name as it stands between braces. -/
def ImportedName.render (n : ImportedName) : String :=
  (if n.typeOnly then "type " else "") ++
    (if n.imported = n.localName then n.localName else n.imported ++ " as " ++ n.localName)

/-- An import declaration and what is added to it. -/
structure ImportEntry where
  /-- What tells the module from others. -/
  key : String
  specifier : String
  quote : String := "\""
  semicolon : Bool := true
  /-- The range of a declaration that is there already. -/
  span : Option (Nat × Nat) := none
  typeOnly : Bool := false
  defaultName : Option String := none
  starName : Option String := none
  named : List ImportedName := []
  added : List ImportedName := []
  addedDefault : Option String := none
  deriving DecidableEq, Repr

namespace ImportEntry

/-- The first of two names that is there and not empty, else the second. -/
def firstName (a b : Option String) : Option String := a.filter (· ≠ "") <|> b

/-- Whether the declaration differs from the one in the file. -/
def changesFile (e : ImportEntry) : Bool :=
  !e.added.isEmpty || (e.addedDefault.isSome && e.defaultName.isNone)

/-- The local names between the braces. -/
def locals (e : ImportEntry) : List String := (e.named ++ e.added).map (·.localName)

/-- Adds the name of a request unless it is there. -/
def addRequest (e : ImportEntry) (r : ImportRequest) : ImportEntry :=
  if r.kind = .default then
    if e.defaultName.isSome || e.addedDefault.isSome then e
    else { e with addedDefault := some r.localName }
  else if e.locals.contains r.localName then e
  else { e with added := e.added ++ [{ imported := r.imported, localName := r.localName }] }

/-- Adds a name to a list unless its local name is taken there or elsewhere. -/
def addNew (named : List ImportedName) (added : List ImportedName) (n : ImportedName) :
    List ImportedName :=
  if (named ++ added).any (·.localName == n.localName) then added else added ++ [n]

/-- Adds to an entry what is added to another one for the same declaration. -/
def merge (e f : ImportEntry) : ImportEntry :=
  { e with
    specifier := Specifier.prefer e.specifier f.specifier
    added := f.added.foldl (addNew e.named) e.added
    addedDefault := firstName e.addedDefault f.addedDefault
    starName := firstName e.starName f.starName }

/-- The names between the braces of the rendered declaration. -/
def specifiers (e : ImportEntry) : List ImportedName :=
  distinctBy (·.localName) (e.added ++ e.named)

/-- A list of names in braces. -/
def braced (names : List ImportedName) : String :=
  "\x7b " ++ String.intercalate ", " (names.map ImportedName.render) ++ " \x7d"

/-- The text of the declaration. A namespace and names in braces take two statements. -/
def render (e : ImportEntry) : String :=
  let head := (firstName e.defaultName e.addedDefault).filter (· ≠ "")
  let source := e.quote ++ e.specifier ++ e.quote ++ (if e.semicolon then ";" else "")
  let keyword := if e.typeOnly then "import type" else "import"
  let names := e.specifiers
  match e.starName with
  | some star =>
    let lead := match head with
      | some d => d ++ ", "
      | none => ""
    let first := keyword ++ " " ++ lead ++ "* as " ++ star ++ " from " ++ source
    if names.isEmpty then first
    else first ++ "\n" ++ keyword ++ " " ++ braced names ++ " from " ++ source
  | none =>
    match head.toList ++ (if names.isEmpty then [] else [braced names]) with
    | [] => keyword ++ " " ++ source
    | clause => keyword ++ " " ++ String.intercalate ", " clause ++ " from " ++ source

end ImportEntry

end StableProps
