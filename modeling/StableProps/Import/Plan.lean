import StableProps.Distinct
import StableProps.File.Path
import StableProps.Import.Specifier

/-!
# Import plans

A plan collects the imports that new code needs. Two requests for one local name from one module
are the same request, so plans can be merged in any number and nothing is asked for twice.
-/

namespace StableProps

/-- The form of an import. -/
inductive ImportKind where
  | default
  | named
  | namespace
  deriving DecidableEq, Repr

/-- The word for a form of import. -/
def ImportKind.name : ImportKind → String
  | .default => "default"
  | .named => "named"
  | .namespace => "namespace"

/-- A name that new code needs from a module. -/
structure ImportRequest where
  /-- The specifier of the module. -/
  specifier : String
  imported : String
  kind : ImportKind
  localName : String
  /-- The file of the module, where it is known. -/
  resolved : Option Path := none
  /-- Whether the name is only used as a type. -/
  typeOnly : Bool := true
  deriving DecidableEq, Repr

/-- What tells modules apart: the file, or the package where there is none. -/
def moduleKey (resolved : Option Path) (specifier : String) : String :=
  match resolved with
  | some p => p.text
  | none => Specifier.runtime specifier

/-- What tells the module of a request from others. -/
def ImportRequest.moduleKey (r : ImportRequest) : String :=
  StableProps.moduleKey r.resolved r.specifier

/-- The imports that new code needs. -/
structure ImportPlan where
  /-- New imports in the order they were asked for. -/
  requests : List ImportRequest := []
  /-- Names that are there already. -/
  satisfied : List String := []
  /-- Names that cannot be imported. -/
  unreachable : List String := []
  deriving DecidableEq, Repr

namespace ImportPlan

/-- The plan that needs nothing. -/
def empty : ImportPlan := {}

/-- Adds a request unless the plan has one for the same name of the same module. -/
def add (p : ImportPlan) (r : ImportRequest) : ImportPlan :=
  if p.requests.any fun s => s.moduleKey == r.moduleKey && s.localName == r.localName then p
  else { p with requests := p.requests ++ [r] }

/-- Notes a name that is there already. -/
def satisfy (p : ImportPlan) (name : String) : ImportPlan :=
  { p with satisfied := distinct (p.satisfied ++ [name]) }

/-- Notes a name that cannot be imported. -/
def block (p : ImportPlan) (name : String) : ImportPlan :=
  { p with unreachable := distinct (p.unreachable ++ [name]) }

/-- What either of two plans needs. -/
def merge (p q : ImportPlan) : ImportPlan :=
  { requests := (q.requests.foldl add p).requests
    satisfied := distinct (p.satisfied ++ q.satisfied)
    unreachable := distinct (p.unreachable ++ q.unreachable) }

/-- Whether anything is missing. -/
def hasNewImports (p : ImportPlan) : Bool := !p.requests.isEmpty

/-- Whether everything can be imported. -/
def isImportable (p : ImportPlan) : Bool := p.unreachable.isEmpty

end ImportPlan

end StableProps
