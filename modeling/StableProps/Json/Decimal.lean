/-!
# Decimal numbers as floating-point values

A number with a fraction or an exponent is kept by its digits. It stands for the nearest binary
number with 53 significant bits, and is written with the fewest digits that lead back to that
binary number.
-/

namespace StableProps

/-- The number `digits * 10 ^ exponent`, or its negative. -/
structure Decimal where
  negative : Bool
  digits : Nat
  exponent : Int
  deriving DecidableEq, Repr

/-- A fraction of natural numbers. -/
structure Ratio where
  num : Nat
  den : Nat
  deriving DecidableEq, Repr

namespace Ratio

/-- The fraction `n * base ^ exponent`. -/
def scaled (n base : Nat) (exponent : Int) : Ratio :=
  match exponent with
  | .ofNat e => ⟨n * Nat.pow base e, 1⟩
  | .negSucc e => ⟨n, Nat.pow base (e + 1)⟩

/-- The nearest whole number to a fraction; a half goes to the even neighbour. -/
def round (r : Ratio) : Nat :=
  let low := r.num / r.den
  let twice := 2 * (r.num % r.den)
  if twice < r.den then low
  else if r.den < twice then low + 1
  else if low % 2 = 0 then low else low + 1

/-- The fraction divided by a power. -/
def dividedBy (r : Ratio) (base : Nat) (exponent : Int) : Ratio :=
  match exponent with
  | .ofNat e => ⟨r.num, r.den * Nat.pow base e⟩
  | .negSucc e => ⟨r.num * Nat.pow base (e + 1), r.den⟩

end Ratio

/-- The number `significand * 2 ^ exponent`. -/
structure Binary where
  significand : Nat
  exponent : Int
  deriving DecidableEq, Repr

namespace Binary

/-- The smallest exponent a floating-point value can have. -/
def minExponent : Int := -1074

/-- The nearest floating-point value to a fraction, its significand as long as can be. -/
def ofRatio (r : Ratio) : Binary :=
  if r.num = 0 then ⟨0, minExponent⟩
  else
    let estimate : Int := (Nat.log2 r.num : Int) - (Nat.log2 r.den : Int) - 53
    let wide := r.dividedBy 2 estimate
    let exponent := if Nat.pow 2 53 * wide.den ≤ wide.num then estimate + 1 else estimate
    let exponent := if exponent < minExponent then minExponent else exponent
    let significand := (r.dividedBy 2 exponent).round
    if significand = Nat.pow 2 53 then ⟨Nat.pow 2 52, exponent + 1⟩ else ⟨significand, exponent⟩

/-- The exact value. -/
def ratio (b : Binary) : Ratio := Ratio.scaled b.significand 2 b.exponent

/-- Whether the value is beyond the largest floating-point value. -/
def isInfinite (b : Binary) : Bool := b.exponent > 971

/-- How many digits stand before the point, or minus the zeros right behind it. -/
def magnitude (r : Ratio) : Int :=
  if r.den ≤ r.num then ((Nat.toDigits 10 (r.num / r.den)).length : Int)
  else leadingZeros 400 r 0
where
  /-- Counts zeros behind the point. -/
  leadingZeros : Nat → Ratio → Int → Int
    | 0, _, n => n
    | fuel + 1, r, n =>
      let next : Ratio := ⟨r.num * 10, r.den⟩
      if next.den ≤ next.num then n else leadingZeros fuel next (n - 1)

/-- The nearest of the two decimals with `n` digits around a value that lead back to it. -/
def withDigits? (b : Binary) (n : Nat) : Option (Nat × Int) :=
  let r := b.ratio
  let exponent := magnitude r - n
  let grid := r.dividedBy 10 exponent
  let low := grid.num / grid.den
  let hits := [low, low + 1].filter fun d => ofRatio (Ratio.scaled d 10 exponent) = b
  match hits with
  | [d, e] =>
    if 2 * (grid.num % grid.den) ≤ grid.den then some (d, exponent) else some (e, exponent)
  | [d] => some (d, exponent)
  | _ => none

/-- The fewest digits that lead back to a value, with their exponent. -/
def shortest (b : Binary) : Nat × Int :=
  ((List.range 17).findSome? fun n => b.withDigits? (n + 1)).getD (b.significand, b.exponent)

end Binary

namespace Decimal

/-- The floating-point value of the size of a decimal. -/
def binary (d : Decimal) : Binary := Binary.ofRatio (Ratio.scaled d.digits 10 d.exponent)

/-- The whole number a floating-point value equals, if it equals one. -/
def whole? (d : Decimal) : Option Int :=
  let b := d.binary
  let r := b.ratio
  if b.isInfinite || r.num % r.den ≠ 0 then none
  else some (if d.negative then -(r.num / r.den : Nat) else (r.num / r.den : Nat))

/-- Digits without zeros at their end, and how many there were. -/
def stripZeros (digits : List Char) : List Char × Nat :=
  let zeros := digits.reverse.takeWhile (· == '0')
  (digits.take (digits.length - zeros.length), zeros.length)

/-- The text of a floating-point value: positional from a ten-thousandth up to sixteen digits, with
an exponent of at least two digits beyond. -/
def text (d : Decimal) : String :=
  let sign := if d.negative then "-" else ""
  let b := d.binary
  if b.isInfinite then sign ++ "inf"
  else if b.significand = 0 then sign ++ "0.0"
  else
    let (n, exponent) := b.shortest
    let (digits, zeros) := stripZeros (Nat.toDigits 10 n)
    let exponent := exponent + zeros
    let point : Int := digits.length + exponent
    if -4 < point ∧ point ≤ 16 then
      if point ≤ 0 then
        sign ++ "0." ++ String.ofList (List.replicate (-point).toNat '0' ++ digits)
      else if exponent ≥ 0 then
        sign ++ String.ofList (digits ++ List.replicate exponent.toNat '0') ++ ".0"
      else
        sign ++ String.ofList (digits.take point.toNat) ++ "." ++
          String.ofList (digits.drop point.toNat)
    else
      let size := (point - 1).natAbs
      let mark := if point - 1 < 0 then "e-" else "e+"
      let size := (if size < 10 then "0" else "") ++ toString size
      let lead := String.ofList (digits.take 1)
      let rest := if digits.length = 1 then "" else "." ++ String.ofList (digits.drop 1)
      sign ++ lead ++ rest ++ mark ++ size

end Decimal

end StableProps
