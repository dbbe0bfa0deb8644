import Mathlib.Tactic.Positivity
import Mathlib.Tactic.Ring
import Sprog.Number.Shortest

/-!
# The shortest decimal number reads back

The nearest double to the exact value of a double is that double: nothing has to be rounded, and the
exponent that leaves 53 binary digits is the one it has. Each round of the search for the shortest
decimal number keeps the digits only if they read back, and the last one keeps all of them. Zeros at
the end of a fraction have no part in what is read.

* `nearestBits_mul_right`: a ratio, whatever its terms.
* `nearest_exact`: the exact value of a double.
* `reads_coarsest`, `nearest_trim`: the two steps of the search.
* `nearest_shortest`: the decimal number that is written.
-/
namespace Sprog.Number

/-! ## Ratios -/

theorem roundDiv_mul_right {k : Nat} (hk : 0 < k) (n d : Nat) :
    roundDiv (n * k) (d * k) = roundDiv n d := by
  have hbelow : 2 * (n % d * k) < d * k ↔ 2 * (n % d) < d := by
    rw [← Nat.mul_assoc, Nat.mul_lt_mul_right hk]
  have habove : d * k < 2 * (n % d * k) ↔ d < 2 * (n % d) := by
    rw [← Nat.mul_assoc, Nat.mul_lt_mul_right hk]
  simp only [roundDiv, Nat.mul_div_mul_right _ _ hk, Nat.mul_mod_mul_right, hbelow, habove]

/-- Nothing is rounded where nothing is left over. -/
theorem roundDiv_mul_left {d : Nat} (hd : 0 < d) (q : Nat) : roundDiv (q * d) d = q := by
  simp [roundDiv, Nat.mul_div_cancel q hd, hd]

/-- The nearest double depends on the ratio only. -/
theorem nearestBits_mul_right {k : Nat} (hk : 0 < k) (n d : Nat) :
    nearestBits (n * k) (d * k) = nearestBits n d := by
  have hshift (a s : Nat) : (a * k) <<< s = a <<< s * k := by
    rw [Nat.shiftLeft_eq, Nat.shiftLeft_eq, Nat.mul_right_comm]
  simp only [nearestBits, hshift, Nat.mul_div_mul_right _ _ hk, roundDiv_mul_right hk]

/-! ## Doubles -/

namespace Binary

/-- A double whose exponent is the least one, or whose mantissa has its leading digit. -/
def IsNormalized (b : Binary) : Prop :=
  b.mantissa < 2 * leadingDigit ∧ (b.exponent = 0 ∨ leadingDigit ≤ b.mantissa)

/-- The bits of a double. -/
def bits (b : Binary) : Nat := b.exponent * leadingDigit + b.mantissa

theorem isNormalized_ofBits (bits : Nat) : (ofBits bits).IsNormalized := by
  have hrest : bits % leadingDigit < leadingDigit := Nat.mod_lt _ (by decide)
  unfold ofBits IsNormalized
  split
  · exact ⟨by dsimp only; omega, .inl rfl⟩
  · exact ⟨by dsimp only; omega, .inr (by dsimp only; omega)⟩

theorem bits_ofBits (bits : Nat) : (ofBits bits).bits = bits := by
  unfold ofBits Binary.bits
  split
  · simp
  · rename_i hlarge
    have hpos : 1 ≤ bits / leadingDigit :=
      (Nat.le_div_iff_mul_le (by decide)).2 (by omega)
    have hsplit := Nat.div_add_mod bits leadingDigit
    obtain ⟨e, he⟩ := Nat.exists_eq_add_of_le' hpos
    rw [he, Nat.mul_add, Nat.mul_one, Nat.mul_comm] at hsplit
    simp only [he, Nat.add_sub_cancel]
    omega

/-- The exponent that leaves 53 binary digits is the one that a double has. -/
theorem log2_steps {b : Binary} (h : b.IsNormalized) :
    (b.mantissa * 2 ^ b.exponent).log2 - 52 = b.exponent := by
  obtain ⟨hlt, hexponent⟩ := h
  have hleading : leadingDigit = 2 ^ 52 := rfl
  rw [hleading] at hlt hexponent
  rcases Nat.eq_zero_or_pos b.mantissa with hzero | hpos
  · have : b.exponent = 0 := hexponent.resolve_right (by rw [hzero]; decide)
    simp [hzero, this]
  · have hne : b.mantissa * 2 ^ b.exponent ≠ 0 := by positivity
    have hupper : (b.mantissa * 2 ^ b.exponent).log2 < 53 + b.exponent := by
      rw [Nat.log2_lt hne, Nat.pow_add]
      exact Nat.mul_lt_mul_of_pos_right hlt (Nat.two_pow_pos _)
    rcases hexponent with hexponent | hleads
    · omega
    · have hlower : 52 + b.exponent ≤ (b.mantissa * 2 ^ b.exponent).log2 := by
        rw [Nat.le_log2 hne, Nat.pow_add]
        exact Nat.mul_le_mul_right _ hleads
      omega

/-- The nearest double to a number that is a double. -/
theorem nearestBits_eq {b : Binary} (h : b.IsNormalized) (hfinite : b.bits < infinityBits)
    {n d : Nat} (hd : 0 < d) (hvalue : n <<< 1074 = b.mantissa * 2 ^ b.exponent * d) :
    nearestBits n d = b.bits := by
  have hsteps : n <<< 1074 / d = b.mantissa * 2 ^ b.exponent := by
    rw [hvalue, Nat.mul_div_cancel _ hd]
  have hround : roundDiv (n <<< 1074) (d <<< b.exponent) = b.mantissa := by
    rw [hvalue, Nat.mul_assoc, Nat.mul_comm _ d, Nat.shiftLeft_eq]
    exact roundDiv_mul_left (by positivity) _
  unfold nearestBits
  dsimp only
  rw [hsteps, log2_steps h, hround]
  exact Nat.min_eq_right (Nat.le_of_lt hfinite)

end Binary

theorem unit_pos (d : Decimal) : 0 < d.unit := Nat.pow_pos (by decide)

/-- The exact value of a double, in steps of the smallest one. -/
theorem shiftLeft_exact (bits : Nat) :
    (exact bits).coefficient <<< 1074 =
      (Binary.ofBits bits).mantissa * 2 ^ (Binary.ofBits bits).exponent * (exact bits).unit := by
  generalize hb : Binary.ofBits bits = b
  unfold exact
  rw [hb]
  -- the number of binary places is of no importance, and its powers are not to be computed
  generalize 1074 = places
  dsimp only
  split
  · rename_i hle
    obtain ⟨k, hk⟩ := Nat.exists_eq_add_of_le hle
    simp only [Decimal.unit, hk, Nat.add_sub_cancel_left, Nat.shiftLeft_eq, Nat.pow_eq,
      Nat.pow_zero, Nat.mul_one, Nat.mul_assoc, ← Nat.pow_add, Nat.add_comm]
  · rename_i hlt
    obtain ⟨k, hk⟩ := Nat.exists_eq_add_of_le (Nat.le_of_not_le hlt)
    simp only [Decimal.unit, hk, Nat.add_sub_cancel_left, Nat.shiftLeft_eq, Nat.pow_eq]
    rw [show (10 : Nat) = 5 * 2 from rfl, Nat.mul_pow, Nat.pow_add]
    ring

/-- The nearest double to the exact value of a double is that double. -/
theorem nearest_exact {bits : Nat} (h : bits < infinityBits) : (exact bits).nearest = bits := by
  have hbits := Binary.bits_ofBits bits
  calc (exact bits).nearest
      = (Binary.ofBits bits).bits :=
        Binary.nearestBits_eq (Binary.isNormalized_ofBits bits) (hbits.symm ▸ h) (unit_pos _)
          (shiftLeft_exact bits)
    _ = bits := hbits

/-! ## The search -/

/-- Some round of the search succeeds, if the last one does. -/
theorem reads_coarsest {reads : Nat → Bool} {n : Nat} (h : reads n = true) (k : Nat) :
    reads (coarsest reads n k) = true := by
  induction k with
  | zero => exact h
  | succ k ih =>
    unfold coarsest
    dsimp only
    split
    · split <;> assumption
    · assumption
    · assumption
    · exact ih

/-- Zeros at the end of a fraction have no part in what is read. -/
theorem nearest_trim (coefficient scale : Nat) :
    (Decimal.trim coefficient scale).nearest = (Decimal.mk coefficient scale).nearest := by
  induction scale generalizing coefficient with
  | zero => rfl
  | succ scale ih =>
    unfold Decimal.trim
    split
    · rename_i hzero
      rw [ih]
      have htenth : coefficient = coefficient / 10 * 10 :=
        (Nat.div_mul_cancel (Nat.dvd_of_mod_eq_zero hzero)).symm
      calc nearestBits (coefficient / 10) (Nat.pow 10 scale)
          = nearestBits (coefficient / 10 * 10) (Nat.pow 10 scale * 10) :=
            (nearestBits_mul_right (by decide) _ _).symm
        _ = nearestBits coefficient (Nat.pow 10 (scale + 1)) := by rw [← htenth]; rfl
    · rfl

/-- The decimal number that is written for a finite double reads back as that double. -/
theorem nearest_shortest {bits : Nat} (h : bits < infinityBits) :
    (shortest bits).nearest = bits := by
  let reads (n : Nat) : Bool := (Decimal.mk n (exact bits).scale).nearest == bits
  have hall : reads (exact bits).coefficient = true := beq_iff_eq.2 (nearest_exact h)
  unfold shortest
  dsimp only
  rw [nearest_trim]
  exact beq_iff_eq.1 (reads_coarsest hall _)

end Sprog.Number
