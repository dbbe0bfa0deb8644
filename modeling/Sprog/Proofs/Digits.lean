import Sprog.Proofs.Munch
import Sprog.Proofs.ReadsBack

/-!
# The digits of a number

The characters of a decimal number are digits, with at most one point between them. So they are one
token, and the digits on both sides of the point, read again, are the number that was written: the
zeros put in front of a fraction keep every digit in its place.

* `Decimal.ofDigitChars_padded`, `Decimal.length_padded`: the digits of a fraction.
* `Decimal.ofDigits_whole_fraction`: the number that the digits stand for.
* `regular_chars`: the token.
-/
namespace Sprog.Number.Decimal

open Segment (IsDigits)

theorem isDigits_toDigits (n : Nat) : IsDigits (Nat.toDigits 10 n) :=
  ⟨Nat.toDigits_ne_nil, fun _ hc => Nat.isDigit_of_mem_toDigits (by decide) (by decide) hc⟩

/-! ## Digits with zeros in front of them -/

theorem length_padded {width n : Nat} (hwidth : 0 < width) (hn : n < 10 ^ width) :
    (padded width n).length = width := by
  have hlength := (Nat.length_toDigits_le_iff (by decide) hwidth).2 hn
  rw [padded, List.length_append, List.length_replicate]
  omega

theorem isDigits_padded (width n : Nat) : IsDigits (padded width n) := by
  obtain ⟨hne, hdigits⟩ := isDigits_toDigits n
  refine ⟨List.append_ne_nil_of_right_ne_nil _ hne, fun c hc => ?_⟩
  rcases List.mem_append.1 hc with hzero | hdigit
  · rw [List.eq_of_mem_replicate hzero]
    rfl
  · exact hdigits c hdigit

/-- Zeros in front of digits do not count. -/
theorem ofDigitChars_padded (width n : Nat) : Nat.ofDigitChars 10 (padded width n) 0 = n := by
  rw [padded, Nat.ofDigitChars_append, Nat.ofDigitChars_replicate_zero, Nat.mul_zero,
    Nat.ofDigitChars_toDigits (by decide) (by decide)]

/-! ## The characters of a number -/

/-- The digits before the point. -/
def whole (d : Decimal) : List Char := Nat.toDigits 10 (d.coefficient / d.unit)

/-- The digits behind the point, if there is one. -/
def fraction (d : Decimal) : List Char :=
  if d.scale = 0 then [] else padded d.scale (d.coefficient % d.unit)

theorem chars_eq (d : Decimal) :
    d.chars = if d.scale = 0 then d.whole else d.whole ++ '.' :: d.fraction := by
  unfold chars fraction whole
  dsimp only
  split <;> rfl

theorem length_fraction (d : Decimal) : d.fraction.length = d.scale := by
  unfold fraction
  split
  · rename_i hscale
    exact hscale.symm
  · rename_i hscale
    exact length_padded (Nat.pos_of_ne_zero hscale) (Nat.mod_lt _ (unit_pos d))

theorem ofDigitChars_fraction (d : Decimal) :
    Nat.ofDigitChars 10 d.fraction 0 = d.coefficient % d.unit := by
  unfold fraction
  split
  · rename_i hscale
    have hunit : d.unit = 1 := by rw [unit, hscale]
    rw [hunit, Nat.mod_one]
    rfl
  · exact ofDigitChars_padded ..

/-- The digits of a number, read again, are that number. -/
theorem ofDigits_whole_fraction (d : Decimal) : ofDigits d.whole d.fraction = d := by
  have hwhole : Nat.ofDigitChars 10 d.whole 0 = d.coefficient / d.unit :=
    Nat.ofDigitChars_toDigits (by decide) (by decide)
  have hcoefficient : Nat.ofDigitChars 10 (d.whole ++ d.fraction) 0 = d.coefficient :=
    calc Nat.ofDigitChars 10 (d.whole ++ d.fraction) 0
        = d.coefficient / d.unit * d.unit + d.coefficient % d.unit := by
          rw [ofDigitChars_append, hwhole, ofDigitChars_fraction, length_fraction]
          rfl
      _ = d.coefficient := Nat.div_add_mod' ..
  rw [ofDigits, hcoefficient, length_fraction]

theorem mem_chars {d : Decimal} {c : Char} (h : c ∈ d.chars) : c.isDigit = true ∨ c = '.' := by
  have hwhole : ∀ c ∈ d.whole, c.isDigit = true := (isDigits_toDigits _).2
  have hfraction : ∀ c ∈ d.fraction, c.isDigit = true := by
    unfold fraction
    split
    · simp
    · exact (isDigits_padded ..).2
  rw [chars_eq] at h
  split at h
  · exact .inl (hwhole c h)
  · rcases List.mem_append.1 h with h | h
    · exact .inl (hwhole c h)
    · rcases List.mem_cons.1 h with rfl | h
      · exact .inr rfl
      · exact .inl (hfraction c h)

/-- A number stands on one line. -/
theorem newline_not_mem_chars (d : Decimal) : '\n' ∉ d.chars := by
  intro h
  rcases mem_chars h with h | h <;> exact absurd h (by decide)

/-- The characters of a number are one token, and its value is the double nearest to the number. -/
theorem regular_chars (d : Decimal) : Segment.Regular
    ⟨d.chars, .token .number (some (.number (Float.ofBits d.nearest.toUInt64)))⟩ := by
  have hvalue : Number.ofDigits d.whole d.fraction = Float.ofBits d.nearest.toUInt64 := by
    rw [Number.ofDigits, ofDigits_whole_fraction]
  rw [chars_eq, ← hvalue]
  split
  · rename_i hscale
    have hnone : d.fraction = [] := if_pos hscale
    rw [hnone]
    exact .integer (isDigits_toDigits _) (denotes_iff.2 rfl)
  · rename_i hscale
    have hfraction : d.fraction = padded d.scale (d.coefficient % d.unit) := if_neg hscale
    exact .decimal (isDigits_toDigits _) (hfraction ▸ isDigits_padded ..) (denotes_iff.2 rfl)

end Sprog.Number.Decimal
