/-!
# Lines of a text

A text is cut behind each line end. Reading a text from a file can turn all line ends into line
feeds.
-/

namespace StableProps.Text

/-- Characters that end a line. -/
def endsLine (c : Char) : Bool :=
  let n := c.toNat
  (10 ≤ n && n ≤ 13) || (28 ≤ n && n ≤ 30) || n == 0x85 || n == 0x2028 || n == 0x2029

/-- Lines with their ends; a carriage return and a line feed are one end. -/
def lineChars : List Char → List (List Char)
  | [] => []
  | '\r' :: '\n' :: rest => ['\r', '\n'] :: lineChars rest
  | c :: rest =>
    if endsLine c then [c] :: lineChars rest
    else match lineChars rest with
      | [] => [[c]]
      | l :: ls => (c :: l) :: ls

/-- The lines of a text with their ends. -/
def lines (s : String) : List String := (lineChars s.toList).map String.ofList

/-- Characters with all carriage returns turned into line feeds. -/
def plainEnds : List Char → List Char
  | [] => []
  | '\r' :: '\n' :: rest => '\n' :: plainEnds rest
  | '\r' :: rest => '\n' :: plainEnds rest
  | c :: rest => c :: plainEnds rest

/-- A text with line feeds as its line ends. -/
def withLineFeeds (s : String) : String := String.ofList (plainEnds s.toList)

end StableProps.Text
