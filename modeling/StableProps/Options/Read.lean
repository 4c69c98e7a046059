import StableProps.Failure
import StableProps.Json.Read
import StableProps.Options.Basic

/-!
# Reading options

Options are a JSON object. Every option may be left out, is spelled in one of two ways, and takes
what can be read as its type without loss. Options come from a file that is asked for, else from
one that the environment names, else from the one in the working directory if there is one.
-/

namespace StableProps.Options

/-- The two spellings of each option. -/
def spellings : List (String × String) :=
  [("checkFunction", "check_function"), ("checkArray", "check_array"),
   ("checkReturnValueOfCalling", "check_return_value_of_calling"),
   ("checkNewExpression", "check_new_expression"), ("checkRegExp", "check_reg_exp"),
   ("typeDefinitions", "type_definitions"),
   ("shortComponentNameThreshold", "short_component_name_threshold"),
   ("ignoredComponents", "ignored_components"), ("declarationsPosition", "declarations_position")]

/-- Texts that stand for a truth value. -/
def truthWords : List (String × Bool) :=
  [("0", false), ("1", true), ("t", true), ("f", false), ("true", true), ("false", false),
   ("y", true), ("n", false), ("yes", true), ("no", false), ("on", true), ("off", false)]

/-- A truth value by a number. -/
def truthOfNumber? (n : Int) : Option Bool :=
  if n = 0 then some false else if n = 1 then some true else none

/-- A truth value. -/
def readBool? : Json → Option Bool
  | .bool b => some b
  | .integer n => truthOfNumber? n
  | .real d => d.whole?.bind truthOfNumber?
  | .string s => truthWords.lookup (Text.lowerAll s)
  | _ => none

/-- A run of digits, in which single underscores may stand between digits. -/
def digitGroups? (cs : List Char) : Option Nat :=
  let groups := Text.pieces '_' cs
  if groups.all fun g => !g.isEmpty && g.all Char.isDigit then
    some (Json.digitsValue (cs.filter Char.isDigit))
  else none

/-- A whole number by its text, which may have a fraction of zeros. -/
def wholeOfText? (s : String) : Option Int :=
  let cs := (Text.trim s).toList
  let (negative, cs) := match cs with
    | '-' :: rest => (true, rest)
    | '+' :: rest => (false, rest)
    | rest => (false, rest)
  let whole := cs.takeWhile (· != '.')
  let fraction := cs.drop whole.length
  if fraction.drop 1 |>.all (· == '0') then
    if fraction.length = 1 then none
    else (digitGroups? whole).map fun (n : Nat) => if negative then -(n : Int) else n
  else none

/-- A whole number. -/
def readWhole? : Json → Option Int
  | .bool b => some (if b then 1 else 0)
  | .integer n => some n
  | .real d => d.whole?
  | .string s => wholeOfText? s
  | _ => none

/-- A number that is not negative. -/
def readNat? (j : Json) : Option Nat :=
  match readWhole? j with
  | some (.ofNat n) => some n
  | _ => none

/-- An entry of the list of ignored components. -/
def readEntry? : Json → Option IgnoreEntry
  | .string s => some (.exact s)
  | .object members => do
    let text ← (← members.lookup "pattern").string?
    let flags ← match members.lookup "flags" with
      | none => some ""
      | some j => j.string?
    return .pattern text flags
  | _ => none

/-- The list of ignored components. -/
def readEntries? : Json → Option (List IgnoreEntry)
  | .array items => items.mapM readEntry?
  | _ => none

/-- A position for new constants. -/
def readPosition? : Json → Option Position
  | .string s => if s = "start" then some .start else if s = "end" then some .end else none
  | _ => none

/-- Sets one option, given by its first spelling. -/
def assign (o : Options) (key : String) (value : Json) : Option Options :=
  match key with
  | "checkFunction" => do return { o with checkFunction := ← readBool? value }
  | "checkArray" => do return { o with checkArray := ← readBool? value }
  | "checkReturnValueOfCalling" => do return { o with checkCall := ← readBool? value }
  | "checkNewExpression" => do return { o with checkNew := ← readBool? value }
  | "checkRegExp" => do return { o with checkRegExp := ← readBool? value }
  | "typeDefinitions" => do return { o with typeDefinitions := ← readBool? value }
  | "shortComponentNameThreshold" => do return { o with shortNameThreshold := ← readNat? value }
  | "ignoredComponents" => do return { o with ignored := ← readEntries? value }
  | "declarationsPosition" => do return { o with position := ← readPosition? value }
  | _ => none

/-- The first spelling of an option. -/
def canonicalKey? (key : String) : Option String :=
  (spellings.find? fun s => s.1 = key || s.2 = key).map (·.1)

/-- Whether an option is given by both of its spellings. -/
def hasBothSpellings (members : List (String × Json)) : Bool :=
  spellings.any fun s => (members.lookup s.1).isSome && (members.lookup s.2).isSome

/-- Options by the members of an object. -/
def ofMembers? (members : List (String × Json)) : Option Options :=
  if hasBothSpellings members then none
  else members.foldlM (fun o (key, value) => do o.assign (← canonicalKey? key) value) {}

/-- Options by their text. -/
def ofText (text : String) : Except Failure Options :=
  match (Json.read? .strict text).bind fun j => j.members?.bind ofMembers? with
  | some o => .ok o
  | none => .error .invalidOptions

/-- The file with the options of a working directory. -/
def defaultFile : String := ".literal-lift.json"

/-- Options of a file that must exist. -/
def ofFile (t : FileTree) (path : String) (missing : String → Failure) : Except Failure Options :=
  let p := Path.ofText path
  match t.read? p with
  | some text => ofText text
  | none => .error (missing p.text)

/-- Options by a path that was asked for, by the environment, or by the working directory. -/
def load (t : FileTree) (path environment : Option String) : Except Failure Options :=
  match path, environment.filter (· != "") with
  | some path, _ => ofFile t path .missingOptions
  | none, some path => ofFile t path .missingNamedOptions
  | none, none =>
    match t.read? (Path.ofText defaultFile) with
    | some text => ofText text
    | none => .ok {}

end StableProps.Options
