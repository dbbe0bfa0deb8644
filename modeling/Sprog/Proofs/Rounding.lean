import Sprog.Proofs.Bits
import Sprog.Proofs.ReadsBack

/-!
# The double nearest to a number

What a number in the source stands for is said here without any way to compute it. The digits stand
for a rational number, and so does every double (`bitsValue`). The double that is meant lies as near
to the number as any other; of two that lie equally near it is the one with an even mantissa
(`IsNearest`). Infinity takes part as if it stood behind the largest finite double, which is how a
number that is too large gets there.

The doubles are in the order of their bits, so only the two neighbours of a number have to be
compared, and these differ in the last digit of the mantissa.

* `Binary.strictMono_steps`: the order of the doubles.
* `isNearest_nearestBits`: the bits that rounding gives are nearest.
* `IsNearest.unique`: no others are.
* `denotes_iff`: the number that digits stand for.
-/
namespace Sprog.Number

open Float.Model (Format)
open Float.Model.UnpackedFloat (pack_unpack unpack isNaNBits
  packComponents_unpackSign_unpackExponent_unpackMantissa)

/-! ## What digits and bits stand for -/

/-- The number that a digit stands for. -/
def digit (c : Char) : ℕ := c.toNat - '0'.toNat

/-- The number that digits in front of a point stand for. -/
def wholeValue (digits : List Char) : ℚ :=
  digits.foldl (fun v c => 10 * v + digit c) 0

/-- The number that digits behind a point stand for. -/
def fractionValue : List Char → ℚ
  | [] => 0
  | c :: cs => (digit c + fractionValue cs) / 10

/-- The smallest positive double. -/
def leastDouble : ℚ := 1 / 2 ^ 1074

/-- How many times the smallest positive double a double is. -/
def Binary.steps (b : Binary) : ℕ := b.mantissa * 2 ^ b.exponent

/-- The number that the bits of a double without its sign stand for. -/
def bitsValue (bits : ℕ) : ℚ := (Binary.ofBits bits).steps * leastDouble

/-- No double is nearer to the number than the one with these bits, and if another one is equally
near then this one is even. -/
structure IsNearest (v : ℚ) (bits : ℕ) : Prop where
  le : bits ≤ infinityBits
  nearest : ∀ other ≤ infinityBits, |v - bitsValue bits| ≤ |v - bitsValue other|
  even : ∀ other ≤ infinityBits, other ≠ bits → |v - bitsValue other| = |v - bitsValue bits| →
    Even bits

/-- The double is what the digits on both sides of a point stand for. -/
def Denotes (whole fraction : List Char) (x : Float) : Prop :=
  IsNearest (wholeValue whole + fractionValue fraction) x.toBits.toNat

/-! ## The order of the doubles -/

namespace Binary

theorem ofBits_bits {b : Binary} (h : b.IsNormalized) : ofBits b.bits = b := by
  obtain ⟨m, e⟩ := b
  obtain ⟨hlt, hexponent⟩ := h
  show ofBits (e * leadingDigit + m) = ⟨m, e⟩
  unfold ofBits
  by_cases hsmall : e * leadingDigit + m < leadingDigit
  · rw [if_pos hsmall, mk.injEq]
    simp only [leadingDigit] at hsmall hlt hexponent ⊢
    omega
  · rw [if_neg hsmall, mk.injEq]
    simp only [leadingDigit] at hsmall hlt hexponent ⊢
    omega

/-- The mantissa may reach its limit: the carry lands in the exponent. -/
theorem steps_ofBits {m e : ℕ} (hm : m ≤ 2 * leadingDigit) (he : e = 0 ∨ leadingDigit ≤ m) :
    (ofBits (e * leadingDigit + m)).steps = m * 2 ^ e := by
  rcases Nat.lt_or_eq_of_le hm with hlt | rfl
  · rw [show e * leadingDigit + m = bits ⟨m, e⟩ from rfl, ofBits_bits ⟨hlt, he⟩]
    rfl
  · have hnormal : IsNormalized ⟨leadingDigit, e + 1⟩ :=
      ⟨by simp [leadingDigit], .inr (Nat.le_refl _)⟩
    have hcarry : e * leadingDigit + 2 * leadingDigit = bits ⟨leadingDigit, e + 1⟩ := by
      show _ = (e + 1) * leadingDigit + leadingDigit
      ring
    rw [hcarry, ofBits_bits hnormal]
    show leadingDigit * 2 ^ (e + 1) = 2 * leadingDigit * 2 ^ e
    ring

theorem strictMono_steps : StrictMono fun bits => (ofBits bits).steps := by
  refine strictMono_nat_of_lt_succ fun bits => ?_
  obtain ⟨hlt, hexponent⟩ := isNormalized_ofBits bits
  have hbits := bits_ofBits bits
  generalize ofBits bits = b at *
  subst hbits
  have hnext := steps_ofBits (m := b.mantissa + 1) (e := b.exponent) hlt
    (hexponent.imp_right Nat.le_succ_of_le)
  rw [← Nat.add_assoc] at hnext
  show b.steps < (ofBits (b.exponent * leadingDigit + b.mantissa + 1)).steps
  rw [hnext]
  exact Nat.mul_lt_mul_of_pos_right (Nat.lt_succ_self _) (Nat.two_pow_pos _)

end Binary

/-! ## Rounding -/

/-- What leaves less than `2 ^ 53` steps of a double, and not less than half of that if the steps
could be smaller. -/
theorem div_bounds {units d e : ℕ} (he : e = (units / d).log2 - 52) :
    units / (d * 2 ^ e) < 2 * leadingDigit ∧ (e = 0 ∨ leadingDigit ≤ units / (d * 2 ^ e)) := by
  rw [← Nat.div_div_eq_div_mul]
  generalize units / d = w at *
  have hleading : leadingDigit = 2 ^ 52 := rfl
  rcases Nat.eq_zero_or_pos w with rfl | hpos
  · simp [he, leadingDigit]
  have hle := Nat.log2_self_le hpos.ne'
  have hlt : w < 2 ^ (w.log2 + 1) := Nat.lt_log2_self
  rw [hleading]
  rcases Nat.lt_or_ge w.log2 53 with hsmall | hlarge
  · have hzero : e = 0 := by omega
    have hpow : 2 ^ (w.log2 + 1) ≤ 2 ^ 53 := Nat.pow_le_pow_right (by decide) hsmall
    rw [hzero, pow_zero, Nat.div_one]
    exact ⟨hlt.trans_le hpow, .inl rfl⟩
  · obtain ⟨hlower, hupper⟩ : w.log2 = 52 + e ∧ w.log2 + 1 = 53 + e := by omega
    rw [hlower, pow_add] at hle
    rw [hupper, pow_add] at hlt
    exact ⟨(Nat.div_lt_iff_lt_mul (Nat.two_pow_pos e)).2 hlt,
      .inr ((Nat.le_div_iff_mul_le (Nat.two_pow_pos e)).2 hle)⟩

/-- How a quotient is rounded: to the neighbour that is nearer, or to the even one. -/
theorem roundDiv_cases (n d : ℕ) :
    (roundDiv n d = n / d ∧ (2 * (n % d) < d ∨ 2 * (n % d) = d ∧ Even (n / d))) ∨
      (roundDiv n d = n / d + 1 ∧ (d < 2 * (n % d) ∨ 2 * (n % d) = d ∧ Even (n / d + 1))) := by
  unfold roundDiv
  dsimp only
  split
  · exact .inl ⟨rfl, .inl ‹_›⟩
  split
  · exact .inr ⟨rfl, .inl ‹_›⟩
  have hhalf : 2 * (n % d) = d := by omega
  rcases Nat.mod_two_eq_zero_or_one (n / d) with heven | hodd
  · exact .inl ⟨by omega, .inr ⟨hhalf, Nat.even_iff.2 heven⟩⟩
  · exact .inr ⟨by omega, .inr ⟨hhalf, Nat.even_iff.2 (by omega)⟩⟩

theorem strictMono_bitsValue : StrictMono bitsValue := by
  intro a b hab
  have hleast : 0 < leastDouble := by unfold leastDouble; positivity
  have hsteps : (Binary.ofBits a).steps < (Binary.ofBits b).steps := Binary.strictMono_steps hab
  exact mul_lt_mul_of_pos_right (by exact_mod_cast hsteps) hleast

section
variable {v : ℚ} {low : ℕ}

/-- What lies below the lower neighbour of a number is farther from it. -/
theorem abs_sub_lt_of_lt (hlow : bitsValue low ≤ v) {other : ℕ} (h : other < low) :
    |v - bitsValue low| < |v - bitsValue other| := by
  have hlt := strictMono_bitsValue h
  rw [abs_of_nonneg (by linarith), abs_of_nonneg (by linarith)]
  linarith

/-- What lies above the upper neighbour of a number is farther from it. -/
theorem abs_sub_lt_of_gt {high : ℕ} (hhigh : v ≤ bitsValue high) {other : ℕ} (h : high < other) :
    |v - bitsValue high| < |v - bitsValue other| := by
  have hlt := strictMono_bitsValue h
  rw [abs_of_nonpos (by linarith), abs_of_nonpos (by linarith)]
  linarith

/-- The lower neighbour is nearest if the upper one is not nearer. -/
theorem isNearest_low (hlow : bitsValue low ≤ v) (hhigh : v ≤ bitsValue (low + 1))
    (hle : low ≤ infinityBits)
    (h : |v - bitsValue low| < |v - bitsValue (low + 1)| ∨
      |v - bitsValue low| = |v - bitsValue (low + 1)| ∧ Even low) : IsNearest v low := by
  have hbelow : ∀ other < low, |v - bitsValue low| < |v - bitsValue other| :=
    fun _ hlt => abs_sub_lt_of_lt hlow hlt
  have habove : ∀ other > low + 1, |v - bitsValue (low + 1)| < |v - bitsValue other| :=
    fun _ hlt => abs_sub_lt_of_gt hhigh hlt
  have hnext : |v - bitsValue low| ≤ |v - bitsValue (low + 1)| := h.elim le_of_lt fun h => h.1.le
  refine ⟨hle, fun other _ => ?_, fun other _ hne heq => ?_⟩
  · rcases Nat.lt_trichotomy other low with hlt | rfl | hgt
    · exact (hbelow other hlt).le
    · exact le_refl _
    · rcases Nat.eq_or_lt_of_le hgt with rfl | hgt
      · exact hnext
      · exact hnext.trans (habove other hgt).le
  · rcases Nat.lt_or_gt_of_ne hne with hlt | hgt
    · exact absurd heq (hbelow other hlt).ne'
    · rcases Nat.eq_or_lt_of_le hgt with rfl | hgt
      · exact (h.resolve_left heq.symm.not_lt).2
      · exact absurd heq (hnext.trans_lt (habove other hgt)).ne'

/-- The upper neighbour is nearest if the lower one is not nearer. -/
theorem isNearest_high (hlow : bitsValue low ≤ v) (hhigh : v ≤ bitsValue (low + 1))
    (hle : low + 1 ≤ infinityBits)
    (h : |v - bitsValue (low + 1)| < |v - bitsValue low| ∨
      |v - bitsValue (low + 1)| = |v - bitsValue low| ∧ Even (low + 1)) :
    IsNearest v (low + 1) := by
  have hbelow : ∀ other < low, |v - bitsValue low| < |v - bitsValue other| :=
    fun _ hlt => abs_sub_lt_of_lt hlow hlt
  have habove : ∀ other > low + 1, |v - bitsValue (low + 1)| < |v - bitsValue other| :=
    fun _ hlt => abs_sub_lt_of_gt hhigh hlt
  have hnext : |v - bitsValue (low + 1)| ≤ |v - bitsValue low| := h.elim le_of_lt fun h => h.1.le
  refine ⟨hle, fun other _ => ?_, fun other _ hne heq => ?_⟩
  · rcases Nat.lt_trichotomy other low with hlt | rfl | hgt
    · exact hnext.trans (hbelow other hlt).le
    · exact hnext
    · rcases Nat.eq_or_lt_of_le hgt with rfl | hgt
      · exact le_refl _
      · exact (habove other hgt).le
  · rcases Nat.lt_trichotomy other low with hlt | rfl | hgt
    · exact absurd heq (hnext.trans_lt (hbelow other hlt)).ne'
    · exact (h.resolve_left heq.symm.not_lt).2
    · exact absurd heq (habove other (Nat.lt_of_le_of_ne hgt hne.symm)).ne'

/-- Infinity is nearest to what lies behind it. -/
theorem isNearest_infinity (h : bitsValue infinityBits ≤ v) : IsNearest v infinityBits := by
  refine ⟨Nat.le_refl _, fun other hle => ?_, fun _ _ _ _ => by decide⟩
  rcases Nat.eq_or_lt_of_le hle with rfl | hlt
  · exact le_refl _
  · exact (abs_sub_lt_of_lt h hlt).le

/-- A number lies between two neighbours, and the distances from them are `rest` and
`whole - rest`. The nearer one is nearest of all, and the even one if there is no nearer one; but
nothing lies behind infinity. -/
theorem isNearest_of_neighbours {rest whole bits : ℕ} {c : ℚ} (hc : 0 < c) (hrest : rest < whole)
    (hlow : v - bitsValue low = rest * c) (hhigh : bitsValue (low + 1) - v = (whole - rest) * c)
    (h : (bits = low ∧ (2 * rest < whole ∨ 2 * rest = whole ∧ Even low)) ∨
      (bits = low + 1 ∧ (whole < 2 * rest ∨ 2 * rest = whole ∧ Even (low + 1)))) :
    IsNearest v (min infinityBits bits) := by
  have hrest' : (rest : ℚ) < whole := by exact_mod_cast hrest
  have hbelow : 0 ≤ v - bitsValue low := hlow ▸ mul_nonneg (Nat.cast_nonneg rest) hc.le
  have habove : 0 ≤ bitsValue (low + 1) - v := hhigh ▸ mul_nonneg (sub_pos.2 hrest').le hc.le
  have hlowabs : |v - bitsValue low| = rest * c := by rw [abs_of_nonneg hbelow, hlow]
  have hhighabs : |v - bitsValue (low + 1)| = (whole - rest) * c := by
    rw [abs_sub_comm, abs_of_nonneg habove, hhigh]
  have hlt : 2 * rest < whole → (rest : ℚ) * c < (whole - rest) * c := fun hlt => by
    have : (2 : ℚ) * rest < whole := by exact_mod_cast hlt
    exact mul_lt_mul_of_pos_right (by linarith) hc
  have hgt : whole < 2 * rest → ((whole : ℚ) - rest) * c < rest * c := fun hgt => by
    have : (whole : ℚ) < 2 * rest := by exact_mod_cast hgt
    exact mul_lt_mul_of_pos_right (by linarith) hc
  have heq : 2 * rest = whole → (rest : ℚ) * c = (whole - rest) * c := fun heq => by
    have : (2 : ℚ) * rest = whole := by exact_mod_cast heq
    rw [← this]
    ring
  rcases Nat.lt_or_ge infinityBits bits with hbehind | hfinite
  · rw [Nat.min_eq_left hbehind.le]
    have hle : infinityBits ≤ low := by omega
    exact isNearest_infinity ((strictMono_bitsValue.monotone hle).trans (sub_nonneg.1 hbelow))
  · rw [Nat.min_eq_right hfinite]
    obtain ⟨rfl, h⟩ | ⟨rfl, h⟩ := h
    · refine isNearest_low (sub_nonneg.1 hbelow) (sub_nonneg.1 habove) hfinite ?_
      rw [hlowabs, hhighabs]
      exact h.imp hlt (And.imp_left heq)
    · refine isNearest_high (sub_nonneg.1 hbelow) (sub_nonneg.1 habove) hfinite ?_
      rw [hlowabs, hhighabs]
      exact h.imp hgt (And.imp_left fun h => (heq h).symm)

end

/-- How far a number lies above a double, counted in steps. -/
theorem sub_bitsValue (n : ℕ) {d : ℕ} (hd : 0 < d) (bits : ℕ) :
    (n : ℚ) / d - bitsValue bits =
      ((n <<< 1074 : ℕ) - ((Binary.ofBits bits).steps * d : ℕ)) * (leastDouble / d) := by
  rw [bitsValue, leastDouble, Nat.shiftLeft_eq]
  -- the number of binary places is of no importance, and its powers are not to be computed
  generalize 1074 = places
  have hd' : (0 : ℚ) < d := by exact_mod_cast hd
  have hpos : (0 : ℚ) < 2 ^ places := by positivity
  push_cast
  generalize (2 : ℚ) ^ places = scale at hpos
  field_simp

/-- The bits that rounding gives are those of the nearest double. -/
theorem isNearest_nearestBits (n : ℕ) {d : ℕ} (hd : 0 < d) :
    IsNearest (n / d) (nearestBits n d) := by
  have hsub := sub_bitsValue n hd
  have hd' : (0 : ℚ) < d := by exact_mod_cast hd
  have hfactor : 0 < leastDouble / d := div_pos (by unfold leastDouble; positivity) hd'
  unfold nearestBits
  dsimp only
  generalize n <<< 1074 = units at *
  generalize he : (units / d).log2 - 52 = e
  obtain ⟨hlt, hexponent⟩ := div_bounds he.symm
  rw [Nat.shiftLeft_eq]
  have hsplit := Nat.div_add_mod units (d * 2 ^ e)
  have hrest := Nat.mod_lt units (Nat.mul_pos hd (Nat.two_pow_pos e))
  have hcases := roundDiv_cases units (d * 2 ^ e)
  generalize units / (d * 2 ^ e) = q at *
  generalize units % (d * 2 ^ e) = r at *
  generalize leastDouble / (d : ℚ) = c at *
  have hlow : (n : ℚ) / d - bitsValue (e * leadingDigit + q) = r * c := by
    rw [hsub, Binary.steps_ofBits hlt.le hexponent, ← hsplit]
    push_cast
    ring
  have hhigh : bitsValue (e * leadingDigit + q + 1) - (n : ℚ) / d =
      ((d * 2 ^ e : ℕ) - r) * c := by
    rw [← neg_sub, Nat.add_assoc, hsub,
      Binary.steps_ofBits hlt (hexponent.imp_right Nat.le_succ_of_le), ← hsplit]
    push_cast
    ring
  have hleading : Even leadingDigit := Nat.even_iff.2 rfl
  have heven {k : ℕ} (hk : Even k) : Even (e * leadingDigit + k) := (hleading.mul_left e).add hk
  refine isNearest_of_neighbours hfactor hrest hlow hhigh ?_
  rcases hcases with ⟨hround, h⟩ | ⟨hround, h⟩
  · rw [hround]
    exact .inl ⟨rfl, h.imp_right (And.imp_right heven)⟩
  · rw [hround]
    have hnext : Even (q + 1) → Even (e * leadingDigit + q + 1) := fun hq => by
      rw [Nat.add_assoc]
      exact heven hq
    exact .inr ⟨(Nat.add_assoc _ _ _).symm, h.imp_right (And.imp_right hnext)⟩

/-! ## The only one -/

/-- A number as far from two doubles is nearer to what lies between these. -/
theorem abs_sub_lt_of_between {v a b c : ℚ} (h : |v - a| = |v - b|) (hac : a < c) (hcb : c < b) :
    |v - c| < |v - a| := by
  rcases abs_eq_abs.1 h with heq | heq
  · linarith
  · rw [abs_of_nonneg (by linarith : 0 ≤ v - a), abs_lt]
    constructor <;> linarith

theorem IsNearest.not_lt {v : ℚ} {bits other : ℕ} (h : IsNearest v bits) (h' : IsNearest v other) :
    ¬ bits < other := by
  intro hlt
  have heq : |v - bitsValue bits| = |v - bitsValue other| :=
    (h.nearest other h'.le).antisymm (h'.nearest bits h.le)
  -- both are even, so there is an odd one between them, which is nearer
  have heven := Nat.even_iff.1 (h.even other h'.le hlt.ne' heq.symm)
  have heven' := Nat.even_iff.1 (h'.even bits h.le hlt.ne heq)
  have hbetween : bits + 1 < other := by omega
  have hle := h'.le
  have hnearer := abs_sub_lt_of_between heq (strictMono_bitsValue (Nat.lt_succ_self bits))
    (strictMono_bitsValue hbetween)
  exact absurd (h.nearest (bits + 1) (by omega)) hnearer.not_ge

/-- There is no second double that is nearest. -/
theorem IsNearest.unique {v : ℚ} {bits other : ℕ} (h : IsNearest v bits)
    (h' : IsNearest v other) : bits = other :=
  Nat.le_antisymm (Nat.le_of_not_lt (h'.not_lt h)) (Nat.le_of_not_lt (h.not_lt h'))

/-! ## Digits -/

theorem foldl_digits (digits : List Char) (n : ℕ) :
    digits.foldl (fun (v : ℚ) c => 10 * v + digit c) n = Nat.ofDigitChars 10 digits n := by
  induction digits generalizing n with
  | nil => rfl
  | cons c cs ih =>
    rw [List.foldl_cons, Nat.ofDigitChars_cons, ← ih]
    push_cast
    rfl

theorem wholeValue_eq (digits : List Char) :
    wholeValue digits = Nat.ofDigitChars 10 digits 0 := by
  rw [← foldl_digits, Nat.cast_zero]
  rfl

theorem fractionValue_eq (digits : List Char) :
    fractionValue digits = Nat.ofDigitChars 10 digits 0 / 10 ^ digits.length := by
  induction digits with
  | nil => simp [fractionValue]
  | cons c cs ih =>
    have hcons : Nat.ofDigitChars 10 (c :: cs) 0 =
        10 ^ cs.length * digit c + Nat.ofDigitChars 10 cs 0 := by
      rw [Nat.ofDigitChars_cons, Nat.ofDigitChars_eq_ofDigitChars_zero, Nat.mul_zero, Nat.zero_add]
      rfl
    rw [fractionValue, ih, hcons, List.length_cons, pow_succ]
    push_cast
    field_simp

/-- Digits behind other digits put those as many places further up. -/
theorem Decimal.ofDigitChars_append (whole fraction : List Char) :
    Nat.ofDigitChars 10 (whole ++ fraction) 0 =
      Nat.ofDigitChars 10 whole 0 * 10 ^ fraction.length + Nat.ofDigitChars 10 fraction 0 := by
  rw [Nat.ofDigitChars_append, Nat.ofDigitChars_eq_ofDigitChars_zero, Nat.mul_comm]

/-- The digits on both sides of a point are those of one natural number. -/
theorem wholeValue_add_fractionValue (whole fraction : List Char) :
    wholeValue whole + fractionValue fraction =
      (Decimal.ofDigits whole fraction).coefficient / (Decimal.ofDigits whole fraction).unit := by
  rw [wholeValue_eq, fractionValue_eq, Decimal.ofDigits, Decimal.unit,
    Decimal.ofDigitChars_append, Nat.pow_eq]
  push_cast
  field_simp

/-! ## What digits denote -/

/-- Infinity and the finite numbers have the bits that they are made of. -/
theorem toBits_ofBits {bits : ℕ} (h : bits ≤ infinityBits) :
    (Float.ofBits bits.toUInt64).toBits.toNat = bits := by
  have hnat : bits.toUInt64.toNat = bits := UInt64.toNat_ofNat_of_lt' (h.trans_lt (by decide))
  let b : BitVec Format.binary64.numBits := bits.toUInt64.toBitVec
  have hfields := packComponents_unpackSign_unpackExponent_unpackMantissa b
  have hvalue := (congrArg BitVec.toNat hfields.symm).trans (toNat_packComponents _ _ _)
  have hbits : b.toNat = bits := hnat
  have hnumber : isNaNBits b = false := by
    refine decide_eq_false fun ⟨hexponent, hmantissa⟩ => hmantissa (BitVec.eq_of_toNat_eq ?_)
    rw [hbits, hexponent] at hvalue
    have hall : (-1#11).toNat * leadingDigit = infinityBits := rfl
    rw [hall] at hvalue
    show _ = 0
    omega
  have hpack : (Float.ofBits bits.toUInt64).toBits.toBitVec = b := by
    show (unpack .binary64 b).pack .binary64 = b
    rw [pack_unpack, hnumber]
    rfl
  exact (congrArg BitVec.toNat hpack).trans hbits

/-- Digits denote the double that they are read as, and no other. -/
theorem denotes_iff {whole fraction : List Char} {x : Float} :
    Denotes whole fraction x ↔ x = ofDigits whole fraction := by
  have hread := isNearest_nearestBits (Decimal.ofDigits whole fraction).coefficient
    (unit_pos (Decimal.ofDigits whole fraction))
  rw [← wholeValue_add_fractionValue] at hread
  unfold Denotes ofDigits
  constructor
  · intro h
    have hbits : x.toBits.toNat = (Decimal.ofDigits whole fraction).nearest := h.unique hread
    rw [← hbits, ofBits_toNat_toBits]
  · rintro rfl
    have hbits := toBits_ofBits hread.le
    show IsNearest _ (Float.ofBits (Decimal.ofDigits whole fraction).nearest.toUInt64).toBits.toNat
    rw [Decimal.nearest, hbits]
    exact hread

end Sprog.Number
