import StableProps.Json.Value

/-!
# Writing JSON

A value is written over several lines, each level two spaces further in. Only printable characters
below 127 are written as they are; a character beyond the first plane takes two escapes.
-/

namespace StableProps.Json

/-- Four hexadecimal digits. -/
def hexQuad (n : Nat) : List Char :=
  let digits := Nat.toDigits 16 n
  List.replicate (4 - digits.length) '0' ++ digits

/-- An escape by a number below 65536. -/
def numberEscape (n : Nat) : List Char := '\\' :: 'u' :: hexQuad n

/-- A character inside a JSON string. -/
def writtenChar (c : Char) : List Char :=
  let n := c.toNat
  if c == '"' || c == '\\' then ['\\', c]
  else if c == '\n' then ['\\', 'n']
  else if c == '\r' then ['\\', 'r']
  else if c == '\t' then ['\\', 't']
  else if n == 8 then ['\\', 'b']
  else if n == 12 then ['\\', 'f']
  else if 32 ≤ n && n < 127 then [c]
  else if n < 65536 then numberEscape n
  else
    numberEscape (0xd800 + (n - 65536) / 1024) ++ numberEscape (0xdc00 + (n - 65536) % 1024)

/-- A JSON string. -/
def writtenString (s : String) : String :=
  String.ofList ('"' :: s.toList.flatMap writtenChar ++ ['"'])

/-- The start of a line some levels in. -/
def newLine (level : Nat) : String := "\n" ++ String.ofList (List.replicate (2 * level) ' ')

/-- Items between two brackets, one on a line. -/
def bracketed (level : Nat) (opening closing : String) (items : List String) : String :=
  if items.isEmpty then opening ++ closing
  else opening ++ newLine (level + 1) ++ String.intercalate ("," ++ newLine (level + 1)) items ++
    newLine level ++ closing

mutual

/-- A value some levels in. -/
def writtenAt (level : Nat) : Json → String
  | .null => "null"
  | .bool true => "true"
  | .bool false => "false"
  | .integer n => toString n
  | .real d => d.text
  | .nonFinite name => name
  | .string s => writtenString s
  | .array items => bracketed level "[" "]" (writtenItems (level + 1) items)
  | .object members => bracketed level "\x7b" "\x7d" (writtenMembers (level + 1) members)

/-- The items of an array. -/
def writtenItems (level : Nat) : List Json → List String
  | [] => []
  | j :: js => writtenAt level j :: writtenItems level js

/-- The members of an object. -/
def writtenMembers (level : Nat) : List (String × Json) → List String
  | [] => []
  | (key, j) :: ms =>
    (writtenString key ++ ": " ++ writtenAt level j) :: writtenMembers level ms

end

/-- The text of a JSON document. -/
def written (j : Json) : String := writtenAt 0 j

end StableProps.Json
