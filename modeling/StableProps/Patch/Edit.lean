import StableProps.Text.Bytes

/-!
# Edits

An edit replaces a range of bytes by a text. Edits in ascending order are applied from the last to
the first, so that the offsets of those still to come stay right.
-/

namespace StableProps

/-- The replacement of a half-open range of bytes. -/
structure Edit where
  start : Nat
  stop : Nat
  text : String
  deriving DecidableEq, Repr

namespace Edit

/-- Whether nothing is replaced. -/
def isInsertion (e : Edit) : Bool := e.start == e.stop

/-- Applies one edit. -/
def apply (e : Edit) (bs : Bytes) : Bytes :=
  bs.take e.start ++ Bytes.ofText e.text ++ bs.drop e.stop

/-- Applies edits that are given in ascending order. -/
def applyAll (edits : List Edit) (bs : Bytes) : Bytes := edits.foldr apply bs

end Edit

end StableProps
