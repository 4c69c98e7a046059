import StableProps.Json.Decimal

/-!
# JSON values

Numbers are whole or have a fraction or exponent; the two are told apart. Objects keep their keys
in order, and a key occurs once. `Json.display` writes a value for a reader: a string stands for
itself, but is quoted inside of lists and objects.
-/

namespace StableProps

/-- A JSON value. -/
inductive Json where
  | null
  | bool (b : Bool)
  | integer (n : Int)
  | real (d : Decimal)
  /-- A number that is no decimal, by its name. -/
  | nonFinite (name : String)
  | string (s : String)
  | array (items : List Json)
  | object (members : List (String × Json))
  deriving Inhabited

namespace Json

/-- Enters a member; a key that is there already keeps its place and takes the new value. -/
def put (members : List (String × Json)) (key : String) (value : Json) : List (String × Json) :=
  if members.any (·.1 == key) then members.map fun m => if m.1 == key then (key, value) else m
  else members ++ [(key, value)]

/-- The value of a member. -/
def get? (j : Json) (key : String) : Option Json :=
  match j with
  | .object members => members.lookup key
  | _ => none

/-- The text of a string. -/
def string? : Json → Option String
  | .string s => some s
  | _ => none

/-- The members of an object. -/
def members? : Json → Option (List (String × Json))
  | .object members => some members
  | _ => none

/-- Values that count as nothing: null, false, zero and all that is empty. -/
def isEmpty : Json → Bool
  | .null => true
  | .bool b => !b
  | .integer n => n == 0
  | .real d => d.digits == 0
  | .nonFinite _ => false
  | .string s => s.isEmpty
  | .array items => items.isEmpty
  | .object members => members.isEmpty

/-- Two hexadecimal digits. -/
def hexPair (n : Nat) : List Char :=
  let digits := Nat.toDigits 16 n
  if digits.length < 2 then '0' :: digits else digits

/-- A character inside quotes. -/
def quotedChar (quote c : Char) : List Char :=
  if c == quote || c == '\\' then ['\\', c]
  else if c == '\n' then ['\\', 'n']
  else if c == '\r' then ['\\', 'r']
  else if c == '\t' then ['\\', 't']
  else if c.toNat < 32 || (127 ≤ c.toNat && c.toNat ≤ 160) || c.toNat == 173 then
    '\\' :: 'x' :: hexPair c.toNat
  else [c]

/-- A quoted text, in single quotes unless only those occur in it. -/
def quoted (s : String) : String :=
  let cs := s.toList
  let quote := if cs.contains '\'' && !cs.contains '"' then '"' else '\''
  String.ofList (quote :: cs.flatMap (quotedChar quote) ++ [quote])

mutual

/-- A value as part of a list or object. -/
def displayInner : Json → String
  | .null => "None"
  | .bool true => "True"
  | .bool false => "False"
  | .integer n => toString n
  | .real d => d.text
  | .nonFinite name => name
  | .string s => quoted s
  | .array items => "[" ++ String.intercalate ", " (displayItems items) ++ "]"
  | .object members => "\x7b" ++ String.intercalate ", " (displayMembers members) ++ "\x7d"

/-- The items of a list. -/
def displayItems : List Json → List String
  | [] => []
  | j :: js => displayInner j :: displayItems js

/-- The members of an object. -/
def displayMembers : List (String × Json) → List String
  | [] => []
  | (key, j) :: ms => (quoted key ++ ": " ++ displayInner j) :: displayMembers ms

end

/-- The text of a value. -/
def display : Json → String
  | .string s => s
  | j => displayInner j

end Json

end StableProps
