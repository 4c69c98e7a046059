/-!
# Cutting texts

A text is cut at each occurrence of a character. The pieces are as many as the cuts and one more,
so the empty text has one piece.
-/

namespace StableProps.Text

/-- The pieces of a list between the places where a character stands. -/
def pieces (separator : Char) : List Char → List (List Char)
  | [] => [[]]
  | c :: cs =>
    if c = separator then [] :: pieces separator cs
    else match pieces separator cs with
      | [] => [[c]]
      | p :: ps => (c :: p) :: ps

/-- The pieces of a text between the places where a character stands. -/
def split (separator : Char) (s : String) : List String :=
  (pieces separator s.toList).map String.ofList

/-- Whether a text starts with another one. -/
def startsWith (s start : String) : Bool := start.toList.isPrefixOf s.toList

end StableProps.Text
