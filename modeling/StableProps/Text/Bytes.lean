import StableProps.Text.Blank

/-!
# Texts as bytes

Offsets count UTF-8 bytes, so positions and edits are about byte strings. Reading bytes back as
text never fails: a sequence that is cut short or malformed becomes one replacement character.
-/

namespace StableProps

/-- A byte string. -/
abbrev Bytes := List UInt8

namespace Bytes

/-- The UTF-8 form of a text. -/
def ofText (s : String) : Bytes := s.toUTF8.data.toList

/-- A line break. -/
def newline : UInt8 := 10

/-- Space and tab. -/
def isIndent (b : UInt8) : Bool := b == 32 || b == 9

/-- White space among the ASCII characters. -/
def isBlank (b : UInt8) : Bool := b == 32 || (9 ≤ b && b ≤ 13)

/-- Whether a byte continues a character. -/
def isContinuation (b : UInt8) : Bool := 0x80 ≤ b && b ≤ 0xbf

/-- Whether an offset is one at which characters meet. -/
def isBoundary (bs : Bytes) (offset : Nat) : Bool :=
  offset == 0 || bs[offset]?.all (!isContinuation ·)

/-- For a first byte, the range its second byte must lie in and how many bytes follow in all. -/
def sequenceShape (b : UInt8) : Option (UInt8 × UInt8 × Nat) :=
  if 0xc2 ≤ b && b ≤ 0xdf then some (0x80, 0xbf, 1)
  else if b == 0xe0 then some (0xa0, 0xbf, 2)
  else if b == 0xed then some (0x80, 0x9f, 2)
  else if 0xe1 ≤ b && b ≤ 0xef then some (0x80, 0xbf, 2)
  else if b == 0xf0 then some (0x90, 0xbf, 3)
  else if 0xf1 ≤ b && b ≤ 0xf3 then some (0x80, 0xbf, 3)
  else if b == 0xf4 then some (0x80, 0x8f, 3)
  else none

/-- The bits a first byte contributes when `n` bytes follow it. -/
def leadBits (b : UInt8) (n : Nat) : Nat :=
  if n = 1 then b.toNat % 32 else if n = 2 then b.toNat % 16 else b.toNat % 8

/-- Stands for what is no character. -/
def replacement : Char := Char.ofNat 0xfffd

/-- The character that starts with a byte, and how many of the bytes behind it belong to it. -/
def readChar (b : UInt8) (rest : Bytes) : Char × Nat :=
  if b < 0x80 then (Char.ofNat b.toNat, 0)
  else match sequenceShape b with
    | none => (replacement, 0)
    | some (low, high, n) =>
      let second := rest.take 1 |>.filter fun c => low ≤ c && c ≤ high
      if second.isEmpty then (replacement, 0)
      else
        let more := ((rest.drop 1).take (n - 1)).takeWhile isContinuation
        let taken := second ++ more
        if taken.length = n then
          (Char.ofNat (taken.foldl (fun v c => v * 64 + c.toNat % 64) (leadBits b n)), n)
        else (replacement, taken.length)

/-- The characters of a byte string. -/
def chars : Bytes → List Char
  | [] => []
  | b :: rest =>
    let (c, n) := readChar b rest
    c :: chars (rest.drop n)
termination_by bs => bs.length
decreasing_by rw [List.length_drop, List.length_cons]; omega

/-- The text of a byte string. -/
def text (bs : Bytes) : String := String.ofList bs.chars

/-- The bytes between two offsets. -/
def slice (bs : Bytes) (start stop : Nat) : Bytes := (bs.take stop).drop start

/-- The bytes of the line an offset lies in that stand before the offset. -/
def lineBefore (bs : Bytes) (offset : Nat) : Bytes :=
  ((bs.take offset).reverse.takeWhile (· != newline)).reverse

/-- The offset where the line of an offset starts. -/
def lineStart (bs : Bytes) (offset : Nat) : Nat :=
  (bs.take offset).length - (bs.lineBefore offset).length

/-- The white space at the start of the line that holds an offset. -/
def lineIndent (bs : Bytes) (offset : Nat) : String :=
  text ((bs.drop (bs.lineStart offset)).takeWhile isIndent)

/-- The line and column of an offset, both counted from one; columns count characters. -/
def position (bs : Bytes) (offset : Nat) : Nat × Nat :=
  ((bs.take offset).count newline + 1, (bs.lineBefore offset).chars.length + 1)

/-- Lines without their ends; a line ends at a line feed, a carriage return, or both. -/
def lines : Bytes → List Bytes
  | [] => []
  | 13 :: 10 :: rest => [] :: lines rest
  | b :: rest =>
    if b == 10 || b == 13 then [] :: lines rest
    else match lines rest with
      | [] => [[b]]
      | l :: ls => (b :: l) :: ls

/-- The unit of indentation of a source: a tab or up to four spaces, by the first indented line. -/
def indentUnit (bs : Bytes) : String :=
  let indented := bs.lines.find? fun l =>
    let rest := l.dropWhile isIndent
    !rest.isEmpty && rest.length != l.length
  match indented with
  | none => "    "
  | some l =>
    if l.head? == some 9 then "\t"
    else String.ofList (List.replicate (min (l.takeWhile isIndent).length 4) ' ')

end Bytes

end StableProps
