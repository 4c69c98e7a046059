import StableProps.File.Tree
import StableProps.Syntax.Language

/-!
# Failures

Everything that can keep an operation from an answer, by cause. `Failure.message?` words those
that are told to a user; the others are only told apart.
-/

namespace StableProps

/-- What is wrong with a path that should lead to a file. -/
inductive ReadFault where
  | missing
  | folder
  | throughFile
  deriving DecidableEq, Repr

namespace FileTree

/-- The text of a file, or why there is none. -/
def readOr (t : FileTree) (p : Path) : Except ReadFault String :=
  match t.find? p with
  | some (.file _ text) => .ok text
  | some (.folder _) => .error .folder
  | none =>
    if (resolve p).parent.upward.any fun q => (t.files.lookup q).isSome then .error .throughFile
    else .error .missing

end FileTree

/-- Why a path does not lead to what it is given for. -/
inductive ObjectFault where
  /-- The configuration at the path holds something else than an object. -/
  | otherValue (path : String)
  /-- The path has no name that an extension could be added to. -/
  | nameless (path : String)
  deriving DecidableEq, Repr

/-- The words for a fault. -/
def ObjectFault.message : ObjectFault → String
  | .otherValue path => s!"{path} does not contain a JSON object"
  | .nameless path => s!"PosixPath('{path}') has an empty name"

/-- Why an operation has no answer. -/
inductive Failure where
  /-- A language has no grammar here. -/
  | unsupportedLanguage (name : String)
  /-- No language goes with an extension. -/
  | unsupportedExtension (extension : String)
  /-- A source that was asked for by its path does not exist. -/
  | missingSource (path : String)
  /-- A file cannot be read. -/
  | unreadable (fault : ReadFault)
  /-- A language has no markup to search. -/
  | noMarkup (language : Language)
  /-- Options do not have the required form. -/
  | invalidOptions
  /-- The file with the options does not exist. -/
  | missingOptions (path : String)
  /-- The file with the options that the environment names does not exist. -/
  | missingNamedOptions (path : String)
  /-- Two edits touch the same bytes. -/
  | overlap (start stop previousStart previousStop : Nat)
  /-- A configuration file does not hold an object, or a file or module is looked for by a path
  without a name. -/
  | notAnObject (fault : ObjectFault)
  /-- A text is no JSON. -/
  | malformedJson
  /-- A setting that should hold others holds something else. -/
  | malformedSetting
  /-- There is no such finding or suggestion. -/
  | noSuchSuggestion
  deriving DecidableEq, Repr

namespace Failure

/-- A path has no name. The root, which is meant by one or two slashes, is the only one from it. -/
def nameless (p : Path) : Failure := .notAnObject (.nameless p.text)

/-- The environment variable that can name the file with the options. -/
def optionsVariable : String := "LITERAL_LIFT_CONFIG"

/-- A list of names in quotes. -/
def listed (names : List String) : String :=
  "[" ++ String.intercalate ", " (names.map fun n => "'" ++ n ++ "'") ++ "]"

/-- A half-open range. -/
def range (start stop : Nat) : String := s!"[{start}, {stop})"

/-- The words for a failure. -/
def message? : Failure → Option String
  | .unsupportedLanguage name =>
    some s!"Unsupported language '{name}'. Supported: {listed (Language.all.map Language.name)}"
  | .unsupportedExtension extension => some s!"Unsupported file extension: {extension}"
  | .missingSource path => some s!"File not found: {path}"
  | .unreadable _ => none
  | .noMarkup _ => none
  | .invalidOptions => none
  | .missingOptions path => some s!"Config file not found: {path}"
  | .missingNamedOptions path => some s!"{optionsVariable} points to a missing file: {path}"
  | .overlap a b c d => some s!"edit {range a b} overlaps {range c d}"
  | .notAnObject fault => some fault.message
  | .malformedJson => none
  | .malformedSetting => none
  | .noSuchSuggestion => none

end Failure

end StableProps
