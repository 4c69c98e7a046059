import StableProps.Failure
import StableProps.Syntax.Parse
import StableProps.Syntax.Focus
import StableProps.Text.Bytes

/-!
# Sources

A source is a text with its path, its language and its syntax tree. The language is the one asked
for, or follows from the extension of the path.
-/

namespace StableProps

namespace Language

/-- The language that is asked for by a name. -/
def ofRequest (name : String) : Except Failure Language :=
  match ofName? (Text.lowerAll (Text.trim name)) with
  | some l => .ok l
  | none => .error (.unsupportedLanguage name)

/-- The language of a file. -/
def ofPath (p : Path) : Except Failure Language :=
  match ofExtension? p.lowerSuffix with
  | some l => .ok l
  | none => .error (.unsupportedExtension p.lowerSuffix)

end Language

/-- Whether a file is written in a known language. -/
def Path.isSource (p : Path) : Bool := (Language.ofExtension? p.lowerSuffix).isSome

/-- The path of a text without a file. -/
def Language.snippetPath (l : Language) : Path :=
  FileTree.workingFolder.append ("__snippet__" ++ l.defaultExtension)

/-- A text with its syntax tree. -/
structure Source where
  path : Path
  language : Language
  text : String
  root : Node
  /-- The tree has the shape that a parser gives it. -/
  wellFormed : root.WellFormed
  /-- The tree ends where the text does. -/
  stop_root : root.stop = text.utf8ByteSize

namespace Source

/-- The bytes of the text. -/
def bytes (s : Source) : Bytes := Bytes.ofText s.text

/-- The whole tree in its place. -/
def focus (s : Source) : Focus := s.root.focus

/-- Reads a text in a language. -/
def parsed (path : Path) (language : Language) (text : String) : Source :=
  { path, language, text, root := parse language text
    wellFormed := wellFormed_parse language text
    stop_root := stop_parse language text }

/-- A text at a path, in the language asked for or in that of the path. -/
def ofText (text : String) (path : Path) (language : Option String) : Except Failure Source := do
  let l ← match language.filter (· != "") with
    | some name => Language.ofRequest name
    | none => Language.ofPath path
  return parsed path l text

/-- A text that may have a path. -/
def ofCode (text : String) (path language : Option String) : Except Failure Source := do
  let p ← match path with
    | some p => pure (FileTree.resolve (Path.ofText p))
    | none =>
      let name := (language.filter (· != "")).getD "tsx"
      pure (← Language.ofRequest name).snippetPath
  ofText text p language

/-- The source a path leads to. -/
def ofFile (t : FileTree) (path : Path) (language : Option String) : Except Failure Source :=
  match t.readOr path with
  | .ok text => ofText text (FileTree.resolve path) language
  | .error .missing => .error (.missingSource path.text)
  | .error fault => .error (.unreadable fault)

end Source

end StableProps
