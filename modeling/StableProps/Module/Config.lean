import StableProps.Failure
import StableProps.Json.Read

/-!
# Project configuration

A configuration file says where module names start and how they are mapped. It can extend another
file and then takes from it what it does not set itself. Files that extend each other in a circle
are followed once around.
-/

namespace StableProps

/-- The settings of a project. -/
structure Config where
  path : Path
  /-- The directory plain module names start from. -/
  baseUrl : Option Path := none
  /-- Patterns of module names with the paths they are mapped to. -/
  paths : List (String × List String) := []
  /-- The directory of the file that set the patterns. -/
  pathsBase : Option Path := none

namespace Config

/-- The directory that mapped paths start from. -/
def aliasRoot (c : Config) : Path := (c.baseUrl <|> c.pathsBase).getD c.path.parent

/-- The name of configuration files. -/
def fileName : String := "tsconfig.json"

/-- The nearest configuration file around a path. -/
def find? (t : FileTree) (start : Path) : Option Path :=
  let directory := if t.isFolder start then start else start.parent
  (directory.upward.map (·.append fileName)).find? t.isFile

/-- The path of a configuration file, which may be given without its extension. The root has no name
to add one to. -/
def withExtension (p : Path) : Except Failure Path :=
  if p.suffix = ".json" then .ok p
  else if p.name = "" then .error (.nameless p)
  else .ok (p.addSuffix ".json")

/-- The file that a configuration extends, where it is given by a relative path. -/
def extended? (path : Path) (data : Json) : Except Failure (Option Path) :=
  match (data.get? "extends").bind Json.string? with
  | none => .ok none
  | some target =>
    if Text.startsWith target "." then
      some <$> withExtension (path.parent.append target).normalized
    else .ok none

/-- The patterns that a configuration sets. -/
def patterns? (options : Json) : Option (List (String × List String)) := do
  let members ← (← options.get? "paths").members?
  return members.filterMap fun
    | (pattern, .array targets) => some (pattern, targets.map Json.display)
    | _ => none

/-- The settings of a file on top of those of the file it extends. -/
def override (path : Path) (inherited : Option Config) (options : Json) : Config :=
  let ownBase := (options.get? "baseUrl").bind Json.string?
  let baseUrl := match ownBase with
    | some base => some (path.parent.append base).normalized
    | none => inherited.bind (·.baseUrl)
  match patterns? options with
  | some paths => { path, baseUrl, paths, pathsBase := some path.parent }
  | none =>
    { path, baseUrl, paths := (inherited.map (·.paths)).getD []
      pathsBase := inherited.bind (·.pathsBase) }

/-- The settings inside a file. -/
def optionsOf (data : Json) : Except Failure Json :=
  match data.get? "compilerOptions" with
  | none => .ok (.object [])
  | some j =>
    if j.isEmpty then .ok (.object [])
    else match j with
      | .object members => .ok (.object members)
      | _ => .error .malformedSetting

/-- Reads a configuration file that must hold an object. -/
def readObject (t : FileTree) (path : Path) : Except Failure Json :=
  match t.readOr path with
  | .error fault => .error (.unreadable fault)
  | .ok text =>
    match Json.readFirst? text with
    | none => .error .malformedJson
    | some (.object members) => .ok (.object members)
    | some _ => .error (.notAnObject (.otherValue path.text))

/-- Loads a file and what it extends, the files passed on the way being given. -/
def loadFrom (t : FileTree) : Nat → List Path → Path → Except Failure Config
  | 0, _, path => .ok { path }
  | fuel + 1, passed, path => do
    let data ← readObject t path
    let inherited ← match ← extended? path data with
      | none => pure none
      | some p =>
        if t.isFile p && !passed.contains p then some <$> loadFrom t fuel (path :: passed) p
        else pure none
    return override path inherited (← optionsOf data)

/-- Loads a configuration file. A chain passes each file at most twice. -/
def load (t : FileTree) (path : Path) : Except Failure Config :=
  loadFrom t (t.files.length + 2) [] (FileTree.resolve path)

/-- The configuration of the project a file belongs to. One that cannot be read is ignored. -/
def forFile (t : FileTree) (path : Path) : Except Failure (Option Config) :=
  match find? t path with
  | none => .ok none
  | some p =>
    match load t p with
    | .ok c => .ok (some c)
    | .error .malformedSetting => .error .malformedSetting
    | .error _ => .ok none

end Config

end StableProps
