import StableProps.Syntax.Node
import StableProps.Syntax.Language

/-!
# Reading positions

A reader walks over the characters of a source and counts their bytes. Blanks and comments behind
a token are skipped with it, so a position always stands at the next token; comments are kept
aside and put into the tree later. A position also remembers how the last token ended its line,
which is what decides whether a statement may end without a semicolon.
-/

namespace StableProps.Reader

/-- A comment that was skipped, by its byte range. -/
structure Comment where
  start : Nat
  stop : Nat
  deriving DecidableEq, Repr

/-- A position in a source. -/
structure Input where
  /-- The language being read. -/
  language : Language
  /-- Unread characters. -/
  rest : List Char
  /-- Byte offset of `rest`. -/
  offset : Nat
  /-- Number of bytes of the whole source. -/
  size : Nat
  /-- Byte offset behind the last comment on the line of the last token, or behind that token. -/
  tail : Nat
  /-- Whether a line break outside comments lies behind the last token. -/
  newline : Bool
  /-- All comments skipped so far, the latest first. -/
  comments : List Comment

end StableProps.Reader

namespace StableProps

/-- Readers consume input or fail; a failed reader leaves the position as it was. -/
abbrev Reader := StateT Reader.Input Option

end StableProps

namespace StableProps.Reader

/-- Characters that separate tokens without being part of one. -/
def isBlank (c : Char) : Bool :=
  let n := c.toNat
  (9 ≤ n && n ≤ 13) || n == 32 || n == 0xa0 || n == 0x1680 || (0x2000 ≤ n && n ≤ 0x200b) ||
    n == 0x2028 || n == 0x2029 || n == 0x202f || n == 0x205f || n == 0x2060 || n == 0x3000 ||
    n == 0xfeff

/-- Characters that end a line. -/
def isLineBreak (c : Char) : Bool := c == '\n' || c.toNat == 0x2028 || c.toNat == 0x2029

/-- Characters that cannot stand in a name. -/
def isPunctuation (c : Char) : Bool :=
  c.toNat ≤ 32 || c.toNat == 96 || ":;\"'@#.,|^&<=>+-*/\\%?!~()[]\x7b\x7d".toList.contains c ||
    isBlank c

/-- Characters a name can go on with. -/
def isNamePart (c : Char) : Bool := !isPunctuation c

/-- Characters a name can start with. -/
def isNameStart (c : Char) : Bool := !isPunctuation c && !c.isDigit

/-- What the skipping of blanks is inside of. -/
inductive Gap where
  | blank
  | line (start : Nat)
  | block (start : Nat)

/-- Skips blanks and comments. A line comment ends before its line break, a block comment behind
the first `*/`; only line breaks outside of comments count for `newline`. -/
def skipGap : Gap → List Char → Input → Input
  | .blank, [], i => { i with rest := [] }
  | .blank, '/' :: '/' :: cs, i => skipGap (.line i.offset) cs { i with offset := i.offset + 2 }
  | .blank, '/' :: '*' :: cs, i => skipGap (.block i.offset) cs { i with offset := i.offset + 2 }
  | .blank, c :: cs, i =>
    if isBlank c then
      skipGap .blank cs
        { i with offset := i.offset + c.utf8Size, newline := i.newline || isLineBreak c }
    else { i with rest := c :: cs }
  | .line start, [], i => closeComment start { i with rest := [] }
  | .line start, c :: cs, i =>
    if isLineBreak c then
      let i := closeComment start i
      skipGap .blank cs { i with offset := i.offset + c.utf8Size, newline := true }
    else skipGap (.line start) cs { i with offset := i.offset + c.utf8Size }
  | .block start, [], i => closeComment start { i with rest := [] }
  | .block start, '*' :: '/' :: cs, i =>
    skipGap .blank cs (closeComment start { i with offset := i.offset + 2 })
  | .block start, c :: cs, i => skipGap (.block start) cs { i with offset := i.offset + c.utf8Size }
where
  /-- Records the comment that ends here. -/
  closeComment (start : Nat) (i : Input) : Input :=
    { i with
      comments := ⟨start, i.offset⟩ :: i.comments
      tail := if i.newline then i.tail else i.offset }

/-- The position behind `cs`, the rest being `rest`, with nothing skipped yet. -/
def Input.after (i : Input) (rest : List Char) (bytes : Nat) : Input :=
  { i with rest := rest, offset := i.offset + bytes, tail := i.offset + bytes, newline := false }

/-- The position at the next token. -/
def Input.settled (i : Input) : Input := skipGap .blank i.rest i

/-- Moves to the next token. -/
def settle : Reader Unit := modify Input.settled

/-- The number of bytes of a text. -/
def byteCount (cs : List Char) : Nat := cs.foldl (fun n c => n + c.utf8Size) 0

/-- The rest of `cs` behind `pre`, if `cs` starts with it. -/
def dropLead? : List Char → List Char → Option (List Char)
  | [], cs => some cs
  | p :: ps, c :: cs => if p == c then dropLead? ps cs else none
  | _ :: _, [] => none

/-- Whether the input goes on with a text. -/
def Input.startsWith (i : Input) (s : String) : Bool := (dropLead? s.toList i.rest).isSome

/-- The next character. -/
def Input.peek? (i : Input) : Option Char := i.rest.head?

/-- The name at the position, empty if there is none. -/
def Input.wordChars (i : Input) : List Char :=
  match i.rest with
  | [] => []
  | c :: _ => if isNameStart c then i.rest.takeWhile isNamePart else []

/-- The name at the position as text. -/
def Input.word (i : Input) : String := String.ofList i.wordChars

/-- The position behind the name at this position. -/
def Input.afterWord (i : Input) : Input :=
  let w := i.wordChars
  (i.after (i.rest.drop w.length) (byteCount w)).settled

/-- An upper bound for the number of steps a reader can take from here. -/
def Input.fuel (i : Input) : Nat := i.size - i.offset + 1

/-- A node without children. -/
def leaf (label : Label) (start stop : Nat) : Node := ⟨0, label, none, start, stop, "", []⟩

/-- A node over its children, from the first to the last of them. -/
def branch (kind : Kind) (children : List Node) : Node :=
  ⟨0, .rule kind, none, (children.head?.map Node.start).getD 0,
    (children.getLast?.map Node.stop).getD 0, "", children⟩

/-- A node that reaches beyond its last child. -/
def branchTo (kind : Kind) (children : List Node) (stop : Nat) : Node :=
  { branch kind children with stop := stop }

/-- Gives a node its part in the parent. -/
def inField (field : Field) (n : Node) : Node := { n with field := some field }

/-- Reads a text as a token and stays right behind it. -/
def rawToken (s : String) : Reader Node := fun i =>
  match dropLead? s.toList i.rest with
  | none => none
  | some rest =>
    let bytes := s.utf8ByteSize
    some (leaf (.token s) i.offset (i.offset + bytes), i.after rest bytes)

/-- Reads a text as a token. -/
def token (s : String) : Reader Node := do
  let t ← rawToken s
  settle
  return t

/-- Reads a text as a token unless one of the characters follows it directly. -/
def tokenUnless (s : String) (followers : List Char) : Reader Node := do
  let t ← rawToken s
  let i ← get
  if (i.peek?.map followers.contains).getD false then failure
  settle
  return t

/-- Reads a whole name as a token. -/
def keyword (s : String) : Reader Node := fun i =>
  if i.word == s then token s i else none

/-- Reads the name at the position as a leaf of a kind. -/
def nameLeaf (kind : Kind) : Reader Node := fun i =>
  match i.wordChars with
  | [] => none
  | w => some (leaf (.rule kind) i.offset (i.offset + byteCount w), i.afterWord)

/-- Words that never stand for a variable. -/
def reservedWords : List String :=
  ["break", "case", "catch", "class", "const", "continue", "debugger", "default", "delete", "do",
   "else", "enum", "export", "extends", "finally", "for", "function", "if", "import", "in",
   "instanceof", "new", "null", "return", "super", "switch", "this", "throw", "true", "false",
   "try", "typeof", "var", "void", "while", "with"]

/-- Reads a variable name. -/
def identifier : Reader Node := fun i =>
  if reservedWords.contains i.word then none else nameLeaf .identifier i

/-- Reads a node only if the test holds of the position. -/
def whenInput (test : Input → Bool) (r : Reader α) : Reader α := fun i =>
  if test i then r i else none

/-- Tests the position without moving. -/
def testInput (test : Input → Bool) : Reader Bool := do
  let i ← get
  return test i

/-- Reads something or nothing. -/
def optional? (r : Reader α) : Reader (Option α) := fun i =>
  match r i with
  | some (a, j) => some (some a, j)
  | none => some (none, i)

/-- Reads a list of nodes or none. -/
def orNone (r : Reader (List Node)) : Reader (List Node) := fun i =>
  match r i with
  | some (a, j) => some (a, j)
  | none => some ([], i)

/-- Reads one node or none. -/
def atMostOne (r : Reader Node) : Reader (List Node) := orNone ((fun n => [n]) <$> r)

/-- Runs a reader as often as it succeeds, at most `n` times. -/
def repeatUpTo (r : Reader (List Node)) : Nat → Reader (List Node)
  | 0 => pure []
  | n + 1 => fun i =>
    match r i with
    | none => some ([], i)
    | some (a, j) =>
      if j.offset ≤ i.offset then some (a, j)
      else ((fun more => a ++ more) <$> repeatUpTo r n) j

/-- Runs a reader as often as it succeeds. -/
def many (r : Reader (List Node)) : Reader (List Node) := do
  repeatUpTo r (← get).fuel

/-- Whether the word cannot end the statement before it: a relation goes on. -/
def isRelationWord (w : String) : Bool := w == "in" || w == "instanceof"

/-- Whether a statement may end here although no semicolon stands here. It may at the end of the
source, before a closing brace, and at a line break unless the next line goes on with what looks
like an operator. A parenthesis or bracket goes on with an expression but not with a type. -/
def Input.endsStatement (i : Input) (inExpression : Bool) : Bool :=
  match i.rest with
  | [] => true
  | c :: cs =>
    if c == '\x7d' then true
    else if !i.newline then false
    else if c.toNat == 96 || ",.;*%><=?^|&/:".toList.contains c then false
    else if c == '(' || c == '[' then !inExpression
    else if c == '+' || c == '-' then cs.head? == some c
    else if c == '!' then cs.head? != some '='
    else !isRelationWord i.word

/-- The end of a statement: its semicolon, if written, and the offset where the statement ends.
Without a semicolon the comments on the same line still belong to the statement. -/
def statementEnd (inExpression : Bool) : Reader (List Node × Nat) := fun i =>
  match token ";" i with
  | some (t, j) => some (([t], t.stop), j)
  | none => if i.endsStatement inExpression then some (([], i.tail), i) else none

end StableProps.Reader
