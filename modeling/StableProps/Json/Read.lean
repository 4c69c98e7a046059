import StableProps.Json.Value

/-!
# Reading JSON

A dialect says what a text may hold besides the values themselves. The strict dialect is plain
JSON, which also knows the names of the three numbers that are no decimals. The relaxed dialect is
for configuration files: comments and a last comma are skipped, keys may be numbers, and only the
first value of a text counts.
-/

namespace StableProps.Json

/-- What a text may hold besides plain values. -/
structure Dialect where
  /-- White space between values. -/
  space : Char → Bool
  /-- Comments are skipped, a comma may follow the last entry, and keys may be numbers. -/
  lenient : Bool
  /-- Names for numbers that are no decimals. -/
  nonFinite : List String
  /-- Half of a pair of escapes stands for the replacement character. -/
  halfPairs : Bool

namespace Dialect

/-- Plain JSON. -/
def strict : Dialect :=
  { space := (" \t\n\r".toList.contains ·), lenient := false
    nonFinite := ["NaN", "Infinity", "-Infinity"], halfPairs := false }

/-- Plain JSON with any escapes in strings. -/
def manifest : Dialect := { strict with halfPairs := true }

/-- JSON with comments. -/
def relaxed : Dialect :=
  { space := (" \t\n\r\x0b\x0c".toList.contains ·), lenient := true, nonFinite := []
    halfPairs := true }

end Dialect

/-- The rest of a text behind a block comment that was opened. -/
def afterBlockComment : List Char → List Char
  | [] => []
  | '*' :: '/' :: rest => rest
  | _ :: rest => afterBlockComment rest

/-- The rest of a text behind white space and comments. -/
def skipBlanks (d : Dialect) : Nat → List Char → List Char
  | 0, cs => cs
  | fuel + 1, cs =>
    match cs.dropWhile d.space with
    | '/' :: '/' :: rest =>
      if d.lenient then skipBlanks d fuel (rest.dropWhile (· != '\n')) else '/' :: '/' :: rest
    | '/' :: '*' :: rest =>
      if d.lenient then skipBlanks d fuel (afterBlockComment rest) else '/' :: '*' :: rest
    | rest => rest

/-- The rest of a text behind all that may stand between values. -/
def skip (d : Dialect) (cs : List Char) : List Char := skipBlanks d cs.length cs

/-- The value of a hexadecimal digit. -/
def hexDigit? (c : Char) : Option Nat :=
  if '0' ≤ c && c ≤ '9' then some (c.toNat - '0'.toNat)
  else if 'a' ≤ c && c ≤ 'f' then some (c.toNat - 'a'.toNat + 10)
  else if 'A' ≤ c && c ≤ 'F' then some (c.toNat - 'A'.toNat + 10)
  else none

/-- The number written by four hexadecimal digits at the front. -/
def fourHex? : List Char → Option (Nat × List Char)
  | a :: b :: c :: d :: rest => do
    let digits ← [a, b, c, d].mapM hexDigit?
    return (digits.foldl (fun n d => 16 * n + d) 0, rest)
  | _ => none

/-- Whether a number is the first half of a pair that stands for one character. -/
def isHighHalf (n : Nat) : Bool := 0xd800 ≤ n && n < 0xdc00

/-- Whether a number is the second half of such a pair. -/
def isLowHalf (n : Nat) : Bool := 0xdc00 ≤ n && n < 0xe000

/-- The character of a numeric escape, whose mark was read. -/
def numericEscape? (d : Dialect) (cs : List Char) : Option (Char × List Char) := do
  let (n, rest) ← fourHex? cs
  let alone : Option (Char × List Char) :=
    if d.halfPairs then some (Char.ofNat 0xfffd, rest) else none
  if isHighHalf n then
    match rest with
    | '\\' :: 'u' :: more =>
      match fourHex? more with
      | some (m, rest) =>
        if isLowHalf m then
          some (Char.ofNat (0x10000 + (n - 0xd800) * 0x400 + (m - 0xdc00)), rest)
        else alone
      | none => none
    | _ => alone
  else if isLowHalf n then alone
  else some (Char.ofNat n, rest)

/-- The character of an escape, whose backslash was read. -/
def escape? (d : Dialect) : List Char → Option (Char × List Char)
  | '"' :: rest => some ('"', rest)
  | '\\' :: rest => some ('\\', rest)
  | '/' :: rest => some ('/', rest)
  | 'b' :: rest => some ('\x08', rest)
  | 'f' :: rest => some ('\x0c', rest)
  | 'n' :: rest => some ('\n', rest)
  | 'r' :: rest => some ('\r', rest)
  | 't' :: rest => some ('\t', rest)
  | 'u' :: rest => numericEscape? d rest
  | _ => none

/-- The characters up to the closing quote. Control characters must be escaped. -/
def stringRest (d : Dialect) : Nat → List Char → Option (List Char × List Char)
  | 0, _ => none
  | _ + 1, [] => none
  | _ + 1, '"' :: rest => some ([], rest)
  | fuel + 1, '\\' :: rest => do
    let (c, rest) ← escape? d rest
    let (cs, rest) ← stringRest d fuel rest
    return (c :: cs, rest)
  | fuel + 1, c :: rest =>
    if c.toNat < 32 then none
    else do
      let (cs, rest) ← stringRest d fuel rest
      return (c :: cs, rest)

/-- The value of a run of decimal digits. -/
def digitsValue (digits : List Char) : Nat :=
  digits.foldl (fun n c => 10 * n + (c.toNat - '0'.toNat)) 0

/-- The digits of the whole part of a number, which starts with a zero only if it is zero. -/
def wholePart? : List Char → Option (List Char × List Char)
  | '0' :: rest => some (['0'], rest)
  | cs =>
    match cs.takeWhile Char.isDigit with
    | [] => none
    | digits => some (digits, cs.dropWhile Char.isDigit)

/-- The digits behind the point, if there is one. -/
def fraction? : List Char → Option (List Char × List Char)
  | '.' :: cs =>
    match cs.takeWhile Char.isDigit with
    | [] => none
    | digits => some (digits, cs.dropWhile Char.isDigit)
  | cs => some ([], cs)

/-- The exponent with its sign, if there is one. -/
def exponent : List Char → Option Int × List Char
  | [] => (none, [])
  | e :: cs =>
    if e == 'e' || e == 'E' then
      let (negative, digits) := match cs with
        | '-' :: rest => (true, rest)
        | '+' :: rest => (false, rest)
        | rest => (false, rest)
      match digits.takeWhile Char.isDigit with
      | [] => (none, e :: cs)
      | ds =>
        let n : Int := digitsValue ds
        (some (if negative then -n else n), digits.dropWhile Char.isDigit)
    else (none, e :: cs)

/-- A number at the front. -/
def number? (cs : List Char) : Option (Json × List Char) := do
  let (negative, cs) := match cs with
    | '-' :: rest => (true, rest)
    | rest => (false, rest)
  let (whole, cs) ← wholePart? cs
  let (fraction, cs) ← fraction? cs
  let (power, cs) := exponent cs
  if fraction.isEmpty && power.isNone then
    let n : Int := digitsValue whole
    return (.integer (if negative then -n else n), cs)
  else
    return (.real ⟨negative, digitsValue (whole ++ fraction), power.getD 0 - fraction.length⟩, cs)

/-- The rest of a text behind a word. -/
def afterWord? (word : String) (cs : List Char) : Option (List Char) :=
  if word.toList.isPrefixOf cs then some (cs.drop word.length) else none

/-- A value that is written by a word. -/
def word? (d : Dialect) (cs : List Char) : Option (Json × List Char) :=
  let words := [("null", Json.null), ("true", .bool true), ("false", .bool false)] ++
    d.nonFinite.map fun name => (name, .nonFinite name)
  words.findSome? fun (word, value) => (afterWord? word cs).map (value, ·)

/-- The key of a member. -/
def key? (d : Dialect) (cs : List Char) : Option (String × List Char) :=
  match cs with
  | '"' :: rest => (stringRest d rest.length rest).map fun (key, rest) => (String.ofList key, rest)
  | _ => if d.lenient then (number? cs).map fun (n, rest) => (n.display, rest) else none

mutual

/-- A value at the front. -/
def value? (d : Dialect) : Nat → List Char → Option (Json × List Char)
  | 0, _ => none
  | fuel + 1, cs =>
    match cs with
    | '"' :: rest =>
      (stringRest d rest.length rest).map fun (s, rest) => (.string (String.ofList s), rest)
    | '[' :: rest =>
      match skip d rest with
      | ']' :: rest => some (.array [], rest)
      | rest => (itemsRest? d fuel rest).map fun (items, rest) => (.array items, rest)
    | '\x7b' :: rest =>
      match skip d rest with
      | '\x7d' :: rest => some (.object [], rest)
      | rest => (membersRest? d fuel rest []).map fun (members, rest) => (.object members, rest)
    | _ => word? d cs <|> number? cs

/-- The items of a list up to its bracket. -/
def itemsRest? (d : Dialect) : Nat → List Char → Option (List Json × List Char)
  | 0, _ => none
  | fuel + 1, cs => do
    let (item, rest) ← value? d fuel cs
    match skip d rest with
    | ']' :: rest => return ([item], rest)
    | ',' :: rest =>
      match d.lenient, skip d rest with
      | true, ']' :: rest => return ([item], rest)
      | _, rest =>
        let (items, rest) ← itemsRest? d fuel rest
        return (item :: items, rest)
    | _ => none

/-- The members of an object up to its brace, entered one after the other. -/
def membersRest? (d : Dialect) : Nat → List Char → List (String × Json) →
    Option (List (String × Json) × List Char)
  | 0, _, _ => none
  | fuel + 1, cs, before => do
    let (key, rest) ← key? d cs
    match skip d rest with
    | ':' :: rest =>
      let (value, rest) ← value? d fuel (skip d rest)
      let members := put before key value
      match skip d rest with
      | '\x7d' :: rest => return (members, rest)
      | ',' :: rest =>
        match d.lenient, skip d rest with
        | true, '\x7d' :: rest => return (members, rest)
        | _, rest => membersRest? d fuel rest members
      | _ => none
    | _ => none

end

/-- The value of a text that holds nothing else. -/
def read? (d : Dialect) (text : String) : Option Json :=
  let cs := text.toList
  match value? d (cs.length + 1) (skip d cs) with
  | some (value, rest) => if (skip d rest).isEmpty then some value else none
  | none => none

/-- The first value of a text with comments; nothing is null. -/
def readFirst? (text : String) : Option Json :=
  let cs := text.toList
  match skip .relaxed cs with
  | [] => some .null
  | rest => (value? .relaxed (cs.length + 1) rest).map (·.1)

end StableProps.Json
