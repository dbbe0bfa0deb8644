import Sprog.Number.Decimal

/-!
# The text of a number

A number is written with the fewest leading digits that still read back as the same double. The
search goes through the exact decimal expansion of the double: it keeps one leading digit, then
two, and so on, and tries the neighbour below and the one above. The last round keeps all digits,
so some round succeeds. There is never an exponent: digits that are not kept become zeros.

* `shortest`: the decimal number to write for the bits of a finite double.
* `text`: the text of any number, with sign, infinities and not-a-number.
* `ofText?`: the number that a text in positional notation stands for.
-/
namespace Sprog.Number

/-- The exact value of the finite double with the given bits. -/
def exact (bits : Nat) : Decimal :=
  let b := Binary.ofBits bits
  if 1074 ≤ b.exponent then ⟨b.mantissa <<< (b.exponent - 1074), 0⟩
  else ⟨b.mantissa * Nat.pow 5 (1074 - b.exponent), 1074 - b.exponent⟩

/-- `n` with as many digits at its end replaced by zeros as `reads` allows, rounded down or up;
`k` bounds how many. Where both neighbours are allowed the nearer one is taken, and in the middle
the one above. -/
def coarsest (reads : Nat → Bool) (n : Nat) : Nat → Nat
  | 0 => n
  | k + 1 =>
    let unit := Nat.pow 10 (k + 1)
    let below := n / unit * unit
    let above := below + unit
    match reads below, reads above with
    | true, true => if 2 * (n - below) < unit then below else above
    | true, false => below
    | false, true => above
    | false, false => coarsest reads n k

/-- The decimal number with the fewest digits among those whose nearest double has these bits. -/
def shortest (bits : Nat) : Decimal :=
  let d := exact bits
  let reads := fun n => (Decimal.mk n d.scale).nearest == bits
  Decimal.trim (coarsest reads d.coefficient ((Nat.toDigits 10 d.coefficient).length - 1)) d.scale

/-- The text of a number. -/
def text (x : Float) : String :=
  let bits := x.toBits.toNat
  let magnitude := bits % signBit
  let sign := if bits < signBit then "" else "-"
  if infinityBits < magnitude then "NaN"
  else if magnitude = infinityBits then sign ++ "inf"
  else sign ++ String.ofList (shortest magnitude).chars

/-- The number with the digits `whole` before the point and `fraction` behind it. -/
def ofDigits (whole fraction : List Char) : Float :=
  Float.ofBits (Decimal.ofDigits whole fraction).nearest.toUInt64

/-- The number that a text stands for: digits with at most one point, which may also be the first
or the last character. There is nothing to read in a text without a digit. -/
def ofText? (text : List Char) : Option Float :=
  let whole := text.takeWhile Char.isDigit
  match text.dropWhile Char.isDigit with
  | [] => if whole.isEmpty then none else some (ofDigits whole [])
  | '.' :: fraction =>
    if fraction.all Char.isDigit && !(whole ++ fraction).isEmpty then
      some (ofDigits whole fraction)
    else none
  | _ => none

example : text 0.1 = "0.1" ∧ text (-0.0) = "-0" ∧ text 1e21 = "1000000000000000000000" := by
  decide +kernel

example : text (0.1 + 0.2) = "0.30000000000000004" ∧ text (1 / 0) = "inf" := by decide +kernel

end Sprog.Number
