import Mathlib
import Sprog.Number.Nearest

/-!
# The bits of a finite number

The bits of a number are its sign, its exponent and its mantissa in this order. The opposite of a
finite number differs from it in the sign alone. So a finite number is the one with the bits below
its sign, or the opposite of that one.

* `unpack_packComponents_neg`, `toBits_neg`: the opposite number by its fields.
* `toNat_packComponents`: the fields as one natural number.
* `eq_ofBits_of_isFinite`: a finite number by its sign and the bits below it.
-/
namespace Sprog.Number

open Float.Model (Format)
open Float.Model.UnpackedFloat (Sign packComponents unpack unpackExponent unpackMantissa unpackSign
  pack_unpack isNaNBits packComponents_unpackSign_unpackExponent_unpackMantissa
  unpackExponent_packComponents unpackMantissa_packComponents unpackSign_packComponents)

variable {s : Sign} {e : BitVec 11} {m : BitVec 52}

/-! ## The sign -/

/-- What has the other sign is the opposite. -/
theorem unpack_packComponents_neg (s : Sign) (e : BitVec 11) (m : BitVec 52) :
    unpack .binary64 (packComponents .binary64 (-s) e m) =
      (unpack .binary64 (packComponents .binary64 s e m)).neg := by
  unfold unpack
  simp only [unpackExponent_packComponents, unpackMantissa_packComponents,
    unpackSign_packComponents, Sign.ofBitVec_toBitVec]
  split
  · split <;> rfl
  · split
    · split <;> rfl
    · rfl

/-- The opposite number has the same exponent and the same mantissa. -/
theorem toBits_neg {x : Float} (he : e ≠ -1#11)
    (h : x.toBits.toBitVec = packComponents .binary64 s e m) :
    (-x).toBits.toBitVec = packComponents .binary64 (-s) e m := by
  have hnumber : isNaNBits (packComponents .binary64 (-s) e m) = false := by
    simp only [isNaNBits, unpackExponent_packComponents]
    exact decide_eq_false fun h => he h.1
  calc (-x).toBits.toBitVec
      = (unpack .binary64 x.toBits.toBitVec).neg.pack .binary64 := rfl
    _ = (unpack .binary64 (packComponents .binary64 (-s) e m)).pack .binary64 := by
        rw [h, unpack_packComponents_neg]
    _ = packComponents .binary64 (-s) e m := by
        rw [pack_unpack, hnumber]
        rfl

theorem neg_neg_of_toBits {x : Float} (he : e ≠ -1#11)
    (h : x.toBits.toBitVec = packComponents .binary64 s e m) : - -x = x := by
  have hsign : - -s = s := by cases s <;> rfl
  have htwice := toBits_neg he (toBits_neg he h)
  rw [hsign, ← h] at htwice
  exact Float.toBits_inj.1 (UInt64.toBitVec_inj.1 htwice)

/-- The exponent with all its bits set is that of infinity and of what is no number. -/
theorem unpackExponent_of_isFinite {b : BitVec Format.binary64.numBits}
    (h : (unpack .binary64 b).isFinite = true) : unpackExponent b ≠ -1#11 := by
  intro he
  unfold unpack at h
  dsimp only at h
  rw [if_pos he] at h
  split at h <;> cases h

/-- Every finite number has finite fields. -/
theorem exists_fields {x : Float} (h : x.isFinite = true) : ∃ s e m, e ≠ -1#11 ∧
    x.toBits.toBitVec = packComponents .binary64 s e m := by
  let b : BitVec Format.binary64.numBits := x.toBits.toBitVec
  have hfields := packComponents_unpackSign_unpackExponent_unpackMantissa b
  exact ⟨_, _, _, unpackExponent_of_isFinite h, hfields.symm⟩

/-! ## The bits below the sign -/

/-- What the sign adds to the bits. -/
def signPart : Sign → Nat
  | .positive => 0
  | .negative => signBit

/-- The fields as one natural number. -/
theorem toNat_packComponents (s : Sign) (e : BitVec 11) (m : BitVec 52) :
    (packComponents .binary64 s e m).toNat =
      signPart s + (e.toNat * leadingDigit + m.toNat) := by
  have hsplit : (packComponents .binary64 s e m).toNat =
      (s.toBitVec.toNat <<< 11 + e.toNat) <<< 52 + m.toNat := by
    unfold packComponents
    rw [BitVec.toNat_append, ← Nat.shiftLeft_add_eq_or_of_lt m.isLt, BitVec.toNat_append,
      ← Nat.shiftLeft_add_eq_or_of_lt e.isLt]
  have hsign : signPart s = s.toBitVec.toNat * 2 ^ 63 := by cases s <;> rfl
  have hleading : leadingDigit = 2 ^ 52 := rfl
  rw [hsplit, hsign, hleading, Nat.shiftLeft_eq, Nat.shiftLeft_eq]
  ring

theorem toNat_toBits {x : Float} (h : x.toBits.toBitVec = packComponents .binary64 s e m) :
    x.toBits.toNat = signPart s + (e.toNat * leadingDigit + m.toNat) :=
  (congrArg BitVec.toNat h).trans (toNat_packComponents s e m)

theorem fields_lt (he : e ≠ -1#11) (m : BitVec 52) :
    e.toNat * leadingDigit + m.toNat < infinityBits := by
  have hm := m.isLt
  have hlt := e.isLt
  have hlast : e.toNat ≠ 2047 := fun h => he (BitVec.eq_of_toNat_eq h)
  simp only [leadingDigit, infinityBits]
  omega

theorem ofBits_toNat_toBits (x : Float) : Float.ofBits x.toBits.toNat.toUInt64 = x := by
  show Float.ofBits (.ofNat x.toBits.toNat) = x
  rw [UInt64.ofNat_toNat, Float.ofBits_toBits]

/-- A finite number is the one with the bits below its sign, or the opposite of that one. -/
theorem eq_ofBits_of_isFinite {x : Float} (h : x.isFinite = true) :
    x.toBits.toNat % signBit < infinityBits ∧
      x = if x.toBits.toNat < signBit then .ofBits (x.toBits.toNat % signBit).toUInt64
        else -.ofBits (x.toBits.toNat % signBit).toUInt64 := by
  obtain ⟨s, e, m, he, hx⟩ := exists_fields h
  have hlt := fields_lt he m
  have hsmall : e.toNat * leadingDigit + m.toNat < signBit := hlt.trans (by decide)
  have hbits := toNat_toBits hx
  cases s with
  | positive =>
    rw [signPart, Nat.zero_add] at hbits
    rw [hbits, Nat.mod_eq_of_lt hsmall, if_pos hsmall, ← hbits, ofBits_toNat_toBits]
    exact ⟨hbits ▸ hlt, rfl⟩
  | negative =>
    have hopposite : (-x).toBits.toNat = e.toNat * leadingDigit + m.toNat :=
      (toNat_toBits (toBits_neg he hx)).trans (Nat.zero_add _)
    rw [signPart] at hbits
    rw [hbits, Nat.add_mod_left, Nat.mod_eq_of_lt hsmall, if_neg (by omega), ← hopposite,
      ofBits_toNat_toBits, neg_neg_of_toBits he hx]
    exact ⟨hopposite ▸ hlt, rfl⟩

end Sprog.Number
