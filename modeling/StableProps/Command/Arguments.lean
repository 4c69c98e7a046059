import StableProps.File.Path

/-!
# Arguments of the command line

A command line names a command, with switches in front of it and behind it. A switch is long, with
two dashes, or a single character; several characters can share a dash. A switch that takes a
value takes the rest of its word, after an equals sign if it is long, or else the next word. Two
dashes alone end the switches. Of a switch that is given twice the last value counts.
-/

namespace StableProps

/-- How findings are printed. -/
inductive Format where
  | text
  | json
  deriving DecidableEq, Repr

/-- The format of a name. -/
def Format.ofName? (name : String) : Option Format :=
  if name = "text" then some .text else if name = "json" then some .json else none

/-- What a command line asks for. -/
inductive Request where
  /-- Report the findings of sources. -/
  | check (paths : List Path) (options : Option String) (format : Format)
  /-- Fix sources, or only show what would be changed. -/
  | fix (paths : List Path) (options : Option String) (showOnly : Bool)
  /-- Tell how to use the program. -/
  | help
  deriving DecidableEq, Repr

/-- What can be set on a command line. -/
inductive Switch where
  | verbose
  | help
  | config
  | format
  | diff
  deriving DecidableEq, Repr

namespace Switch

/-- The long form. -/
def long : Switch → String
  | .verbose => "--verbose"
  | .help => "--help"
  | .config => "--config"
  | .format => "--format"
  | .diff => "--diff"

/-- The character of the short form. -/
def short? : Switch → Option Char
  | .verbose => some 'v'
  | .help => some 'h'
  | .config => some 'c'
  | .format => some 'f'
  | .diff => none

/-- Whether a value follows. -/
def takesValue : Switch → Bool
  | .config => true
  | .format => true
  | _ => false

end Switch

/-- Switches with their values, and all other words. -/
structure Arguments where
  settings : List (Switch × String) := []
  words : List String := []
  deriving DecidableEq, Repr

namespace Arguments

/-- The arguments with switches in front. -/
def addSettings (settings : List (Switch × String)) (a : Arguments) : Arguments :=
  { a with settings := settings ++ a.settings }

/-- The arguments with a word in front. -/
def addWord (word : String) (a : Arguments) : Arguments := { a with words := word :: a.words }

/-- Whether a switch is set. -/
def isSet (a : Arguments) (s : Switch) : Bool := a.settings.any (·.1 == s)

/-- The last value of a switch. -/
def value? (a : Arguments) (s : Switch) : Option String := a.settings.reverse.lookup s

/-- The switches of one word, the last of which may want the next word as its value. -/
structure SwitchWord where
  settings : List (Switch × String) := []
  pending : Option Switch := none

/-- Reads the short switches that share a dash. -/
def readShort (known : List Switch) : List Char → Option SwitchWord
  | [] => some {}
  | c :: rest => do
    let s ← known.find? (·.short? == some c)
    if s.takesValue then
      if rest.isEmpty then some { pending := s }
      else some { settings := [(s, String.ofList rest)] }
    else
      let more ← readShort known rest
      some { more with settings := (s, "") :: more.settings }

/-- The parts of a word around its first equals sign. -/
def splitAtEquals (word : List Char) : List Char × Option (List Char) :=
  (word.takeWhile (· != '='),
    match word.dropWhile (· != '=') with
    | [] => none
    | _ :: value => some value)

/-- Reads a word that starts with a dash. -/
def readSwitches (known : List Switch) (word : String) : Option SwitchWord :=
  let (name, value) := splitAtEquals word.toList
  match known.find? (·.long.toList == name), value with
  | some s, some value =>
    if s.takesValue then some { settings := [(s, String.ofList value)] } else none
  | some s, none =>
    if s.takesValue then some { pending := s } else some { settings := [(s, "")] }
  | none, _ =>
    if ['-', '-'].isPrefixOf word.toList then none else readShort known (word.toList.drop 1)

/-- Whether a word is no plain one: a dash alone is. -/
def isSwitchWord (word : String) : Bool := word.startsWith "-" && word != "-"

/-- Reads arguments with the switches that are known. Unless switches may be mixed with words, the
first word ends them. -/
def read (known : List Switch) (mixed : Bool) : List String → Option Arguments
  | [] => some {}
  | word :: rest =>
    if word = "--" then some { words := rest }
    else if isSwitchWord word then
      match readSwitches known word, rest with
      | none, _ => none
      | some ⟨settings, none⟩, rest => (read known mixed rest).map (addSettings settings)
      | some ⟨_, some _⟩, [] => none
      | some ⟨settings, some s⟩, value :: rest =>
        (read known mixed rest).map (addSettings (settings ++ [(s, value)]))
    else if mixed then (read known mixed rest).map (addWord word)
    else some { words := word :: rest }

end Arguments

namespace Request

/-- The request of a command with its words, which must name at least one path. -/
def ofWords (a : Arguments) (make : List Path → Option String → Option Request) :
    Option Request :=
  if a.isSet .help then some .help
  else if a.words.isEmpty then none
  else make (a.words.map Path.ofText) (a.value? .config)

/-- The request to report findings. -/
def ofCheck (words : List String) : Option Request := do
  let a ← Arguments.read [.config, .format, .help] true words
  ofWords a fun paths options => do
    let format ← match a.value? .format with
      | some name => Format.ofName? name
      | none => some .text
    return .check paths options format

/-- The request to fix sources. -/
def ofFix (words : List String) : Option Request := do
  let a ← Arguments.read [.config, .diff, .help] true words
  ofWords a fun paths options => return .fix paths options (a.isSet .diff)

/-- The request of a command line. -/
def ofArguments? (words : List String) : Option Request := do
  let a ← Arguments.read [.verbose, .help] false words
  if a.isSet .help then some .help
  else match a.words with
    | "check" :: rest => ofCheck rest
    | "fix" :: rest => ofFix rest
    | _ => none

end Request

end StableProps
