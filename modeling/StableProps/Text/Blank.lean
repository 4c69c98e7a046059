/-!
# White space

The characters that separate words in any script, and splitting and trimming by them.
-/

namespace StableProps.Text

/-- White space of any script. -/
def isBlank (c : Char) : Bool :=
  let n := c.toNat
  (9 ≤ n && n ≤ 13) || (28 ≤ n && n ≤ 32) || n == 0x85 || n == 0xa0 || n == 0x1680 ||
    (0x2000 ≤ n && n ≤ 0x200a) || n == 0x2028 || n == 0x2029 || n == 0x202f || n == 0x205f ||
    n == 0x3000

/-- A list without the characters at its front that satisfy the test, and without those at its
end. -/
def trimBy (test : α → Bool) (cs : List α) : List α :=
  ((cs.dropWhile test).reverse.dropWhile test).reverse

/-- A text without white space around it. -/
def trim (s : String) : String := String.ofList (trimBy isBlank s.toList)

/-- The first run of characters between white space. -/
def firstWord? (s : String) : Option String :=
  match (s.toList.dropWhile isBlank).takeWhile (!isBlank ·) with
  | [] => none
  | w => some (String.ofList w)

end StableProps.Text
