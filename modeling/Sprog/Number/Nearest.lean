/-!
# The double nearest to a ratio

A finite double without its sign is a number of steps: `m · 2 ^ e` units of `2 ^ -1074`, the
smallest positive double. Its bits are `e · 2 ^ 52 + m`, where `m` has 53 binary digits unless
`e = 0`; in the bits the leading digit of `m` adds one to the exponent. So rounding a ratio means
choosing `e` so that 53 digits remain, rounding once, and adding: a carry out of `m` lands in the
exponent by itself.

* `nearestBits`: the bits of the double nearest to `n / d`.
* `Binary.ofBits`: the `m` and `e` of a bit pattern.
-/
namespace Sprog.Number

/-- The bits of infinity; every smaller pattern is a finite number. -/
def infinityBits : Nat := 0x7ff0000000000000

/-- The bit of the sign, `2 ^ 63`. -/
def signBit : Nat := 0x8000000000000000

/-- The first of the 53 digits of a mantissa, `2 ^ 52`. -/
def leadingDigit : Nat := 0x10000000000000

/-- `n / d` rounded to the nearest natural number; a half goes to the even neighbour. -/
def roundDiv (n d : Nat) : Nat :=
  let q := n / d
  let r := n % d
  if 2 * r < d then q
  else if d < 2 * r then q + 1
  else q + q % 2

/-- The bits of the double nearest to `n / d`. Of two equally near ones it is the even one, and
beyond the largest finite double it is infinity. -/
def nearestBits (n d : Nat) : Nat :=
  let units := n <<< 1074
  let e := (units / d).log2 - 52
  min infinityBits (e * leadingDigit + roundDiv units (d <<< e))

/-- A finite double without its sign: `mantissa · 2 ^ exponent` units of `2 ^ -1074`. -/
structure Binary where
  mantissa : Nat
  exponent : Nat
  deriving DecidableEq, Repr

/-- What the bits of a finite double without its sign stand for. -/
def Binary.ofBits (bits : Nat) : Binary :=
  if bits < leadingDigit then ⟨bits, 0⟩
  else ⟨leadingDigit + bits % leadingDigit, bits / leadingDigit - 1⟩

example : nearestBits 1 10 = 0x3fb999999999999a := by decide +kernel

example : nearestBits 1 1 = 0x3ff0000000000000 ∧ nearestBits (Nat.pow 10 309) 1 = infinityBits := by
  decide +kernel

end Sprog.Number
