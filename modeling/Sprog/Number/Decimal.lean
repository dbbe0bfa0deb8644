import Sprog.Number.Nearest

/-!
# Decimal numbers in positional notation

A `Decimal` is a natural number with a point somewhere in its digits. `Decimal.text` writes it
with at least one digit before the point, and with no point when nothing stands behind it.
`Decimal.ofDigits` reads the digits on both sides of a point, and `Decimal.nearest` is the double
that a decimal number stands for.
-/
namespace Sprog.Number

/-- The number `coefficient / 10 ^ scale`. -/
structure Decimal where
  coefficient : Nat
  scale : Nat
  deriving DecidableEq, Repr

namespace Decimal

/-- The number with the digits `whole` before the point and `fraction` behind it. -/
def ofDigits (whole fraction : List Char) : Decimal :=
  ⟨Nat.ofDigitChars 10 (whole ++ fraction) 0, fraction.length⟩

/-- How many units of the last digit make one. -/
def unit (d : Decimal) : Nat := Nat.pow 10 d.scale

/-- The bits of the nearest double. -/
def nearest (d : Decimal) : Nat :=
  nearestBits d.coefficient d.unit

/-- The same number without zeros at the end of its fraction. -/
def trim (coefficient : Nat) : Nat → Decimal
  | 0 => ⟨coefficient, 0⟩
  | scale + 1 =>
    if coefficient % 10 = 0 then trim (coefficient / 10) scale else ⟨coefficient, scale + 1⟩

/-- The digits of `n`, with zeros in front up to the given width. -/
def padded (width n : Nat) : List Char :=
  let digits := Nat.toDigits 10 n
  List.replicate (width - digits.length) '0' ++ digits

/-- The characters of the number in positional notation. -/
def chars (d : Decimal) : List Char :=
  let whole := Nat.toDigits 10 (d.coefficient / d.unit)
  if d.scale = 0 then whole
  else whole ++ '.' :: padded d.scale (d.coefficient % d.unit)

end Decimal

example : (Decimal.mk 1500 3).chars = "1.500".toList ∧
    (Decimal.trim 1500 3).chars = "1.5".toList := by decide

example : (Decimal.mk 7 3).chars = "0.007".toList := by decide

end Sprog.Number
