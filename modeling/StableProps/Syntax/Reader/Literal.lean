import StableProps.Syntax.Reader.Input

/-!
# Literals

Strings, numbers and regular expressions. Their inside is read character by character, so no
blank or comment is skipped before the closing mark.
-/

namespace StableProps.Reader

/-- Reads the longest run of characters that satisfy the test as a leaf, staying right behind it.
An empty run is refused. -/
def runLeaf (label : Label) (test : Char → Bool) : Reader Node := fun i =>
  match i.rest.takeWhile test with
  | [] => none
  | run =>
    let bytes := byteCount run
    some (leaf label i.offset (i.offset + bytes), i.after (i.rest.drop run.length) bytes)

/-- Number of characters of the escape sequence behind a backslash. -/
def escapeLength : List Char → Nat
  | 'x' :: _ => 3
  | 'u' :: '\x7b' :: cs => (cs.takeWhile (· != '\x7d')).length + 3
  | 'u' :: _ => 5
  | '\r' :: '\n' :: _ => 2
  | _ => 1

/-- Reads a backslash with what it escapes. -/
def escapeSequence : Reader Node := fun i =>
  match i.rest with
  | '\\' :: cs =>
    let taken := i.rest.take (escapeLength cs + 1)
    let bytes := byteCount taken
    some (leaf (.rule .escapeSequence) i.offset (i.offset + bytes),
      i.after (i.rest.drop taken.length) bytes)
  | _ => none

/-- Reads pieces of text until none of the readers goes on. -/
def pieces (r : Reader Node) : Reader (List Node) := many ((fun n => [n]) <$> r)

/-- Reads a string in the given quotes, staying right behind it. -/
def quotedBy (quote : String) (inside : Reader Node) : Reader Node := do
  let opening ← rawToken quote
  let content ← pieces inside
  let closing ← rawToken quote
  return branch .stringLiteral (opening :: content ++ [closing])

/-- A character that a string in the given quotes holds as it is. -/
def isPlain (quote : Char) (c : Char) : Bool := c != quote && c != '\\' && c != '\n'

/-- The double quotation mark. -/
def doubleQuote : Char := Char.ofNat 34

/-- The single quotation mark. -/
def singleQuote : Char := Char.ofNat 39

/-- The mark around templates. -/
def backquote : Char := Char.ofNat 96

/-- Reads a string literal. -/
def stringLiteral : Reader Node := do
  let inside (q : Char) : Reader Node :=
    runLeaf (.rule .stringFragment) (isPlain q) <|> escapeSequence
  let s ← quotedBy "\"" (inside doubleQuote) <|> quotedBy "'" (inside singleQuote)
  settle
  return s

/-- Reads the characters of a number: digits, letters, separators, one dot, and a sign directly
behind a decimal exponent. -/
def numberLength (radix : Bool) (seenDot : Bool) : List Char → Nat
  | 'e' :: '+' :: cs => if radix then 1 else numberLength radix true cs + 2
  | 'e' :: '-' :: cs => if radix then 1 else numberLength radix true cs + 2
  | 'E' :: '+' :: cs => if radix then 1 else numberLength radix true cs + 2
  | 'E' :: '-' :: cs => if radix then 1 else numberLength radix true cs + 2
  | c :: cs =>
    if c == '.' then if seenDot || radix then 0 else numberLength radix true cs + 1
    else if c.isAlphanum || c == '_' then numberLength radix seenDot cs + 1
    else 0
  | [] => 0

/-- Whether the number is written in another base than ten. -/
def hasRadix : List Char → Bool
  | '0' :: c :: _ => "xXoObB".toList.contains c
  | _ => false

/-- Reads a number literal. -/
def numberLiteral : Reader Node := do
  let i ← get
  let startsNumber := match i.rest with
    | '.' :: c :: _ => c.isDigit
    | c :: _ => c.isDigit
    | [] => false
  if !startsNumber then failure
  let taken := i.rest.take (numberLength (hasRadix i.rest) false i.rest)
  let bytes := byteCount taken
  set (i.after (i.rest.drop taken.length) bytes).settled
  return leaf (.rule .numberLiteral) i.offset (i.offset + bytes)

/-- Number of characters of a regular expression's pattern; a slash inside brackets or behind a
backslash does not end it. -/
def patternLength (inClass : Bool) : List Char → Nat
  | '\\' :: _ :: cs => patternLength inClass cs + 2
  | '\n' :: _ => 0
  | c :: cs =>
    if c == '[' then patternLength true cs + 1
    else if c == ']' then patternLength false cs + 1
    else if c == '/' && !inClass then 0
    else patternLength inClass cs + 1
  | [] => 0

/-- Reads a regular expression literal. -/
def regexLiteral : Reader Node := do
  let opening ← rawToken "/"
  let i ← get
  let taken := i.rest.take (patternLength false i.rest)
  let bytes := byteCount taken
  set (i.after (i.rest.drop taken.length) bytes)
  let pattern := leaf (.rule .regexPattern) i.offset (i.offset + bytes)
  let closing ← rawToken "/"
  let flags ← atMostOne (inField .flags <$> runLeaf (.rule .regexFlags) Char.isLower)
  settle
  return branch .regexLiteral ([opening, inField .pattern pattern, closing] ++ flags)

/-- Reads a template in backquotes; `substitution` reads what stands in `$` and braces. -/
def templateOf (kind : Kind) (substitution : Reader Node) : Reader Node := do
  let mark := String.singleton backquote
  let opening ← rawToken mark
  let dollar : Reader Node := fun i =>
    match i.rest with
    | '$' :: '\x7b' :: _ => none
    | '$' :: rest => some (leaf (.rule .stringFragment) i.offset (i.offset + 1), i.after rest 1)
    | _ => none
  let plain := runLeaf (.rule .stringFragment) fun c => c != backquote && c != '\\' && c != '$'
  let content ← pieces (plain <|> escapeSequence <|> dollar <|> substitution)
  let closing ← rawToken mark
  settle
  return branch kind (opening :: content ++ [closing])

end StableProps.Reader
