import Sweep.Number.Decimal
import Sweep.Proofs.Rounding

/-!
This module contains the numbers that decimals denote.
-/

open Float.Model (UnpackedFloat Format)
open Float.Model.UnpackedFloat

namespace Sweep

namespace Rounding

open Packing

theorem signed_roundWithAccuracy (s : Sign) (m : Nat) (e : Int) (a : Accuracy) :
    Signed s (roundWithAccuracy Format.binary64 s m e a) := by
  unfold roundWithAccuracy
  dsimp only
  split
  . apply Signed.zero
  . apply Signed.finite

inductive Magnitude : UnpackedFloat → Prop
  | zero : Magnitude (.zero .positive)
  | finite (m : Nat) (e : Int) (h : 0 < m) : Magnitude (.finite .positive m e h)

theorem magnitude_toFloat (n : UInt64) : Magnitude n.toFloat.toModel.unpack := by
  by_cases h : 0 < n.toNat
  . obtain ⟨m, e, hm, hunpack⟩ := unpack_toFloat h
    rw [hunpack]
    apply Magnitude.finite
  . have hzero : n = 0 := by
      apply UInt64.toNat_inj.mp
      simpa using h
    rw [hzero]
    apply Magnitude.zero

theorem signed_mul {u : UnpackedFloat} (hu : Magnitude u) {m : Nat} {e : Int} (h : 0 < m) :
    Signed .positive (UnpackedFloat.mul Format.binary64 u (.finite .positive m e h)) := by
  cases hu with
  | zero => apply Signed.zero
  | finite n f hn => apply signed_roundWithAccuracy

theorem signed_div {u : UnpackedFloat} (hu : Magnitude u) {m : Nat} {e : Int} (h : 0 < m) :
    Signed .positive (UnpackedFloat.div Format.binary64 u (.finite .positive m e h)) := by
  cases hu with
  | zero => apply Signed.zero
  | finite n f hn => apply signed_roundWithAccuracy

theorem signed_ofScientific (n : Nat) (e : Int) :
    Signed .positive (UnpackedFloat.ofScientific Format.binary64 n e) := by
  unfold UnpackedFloat.ofScientific
  split
  . apply Signed.zero
  . split
    . apply Signed.infinity
    . split
      . apply Signed.zero
      . split
        . apply signed_mul
          apply Magnitude.finite
        . apply signed_div
          apply Magnitude.finite

end Rounding

open Packing Rounding

namespace Decimal

def power (i : Fin 23) : Float :=
  Float.exactlyRepresentablePowersOfTen[i]

def isWhole (n : Nat) : UnpackedFloat → Bool
  | .finite .positive m e _ =>
    0x10000000000000 ≤ m && -52 ≤ e && m * 2 ^ (e + 52).toNat == n * 2 ^ 52
  | _ => false

theorem represents_of_isWhole {n : Nat} {u : UnpackedFloat} (h : isWhole n u = true) :
    Represents n u := by
  unfold isWhole at h
  split at h
  . next m e hm =>
    simp only [Bool.and_eq_true, decide_eq_true_eq, beq_iff_eq] at h
    obtain ⟨⟨hlow, he⟩, hmantissa⟩ := h
    refine ⟨m, e, hm, rfl, hlow, ?_⟩
    have hexponent : e - ((e + 52).toNat : Int) = 0 - (52 : Nat) := by omega
    rw [← value_mul_two_pow m e (e + 52).toNat, hmantissa, hexponent, value_mul_two_pow]
    simp [value]
  . contradiction

theorem represents_power (i : Fin 23) :
    Represents (10 ^ i.val : Nat) (power i).toModel.unpack := by
  have hwhole : ∀ i : Fin 23, isWhole (10 ^ i.val) (power i).toModel.unpack = true := by
    decide +kernel
  exact represents_of_isWhole (hwhole i)

theorem toFloat_small {d : Decimal} (hdigits : d.digits < 2 ^ 53)
    (hexponent : d.exponent.natAbs < 23) :
    d.toFloat =
      if d.exponent < 0 then
        d.digits.toUInt64.toFloat / power ⟨_, hexponent⟩
      else
        d.digits.toUInt64.toFloat * power ⟨_, hexponent⟩ := by
  unfold toFloat Float.ofScientific
  rw [dif_pos ⟨hdigits, by omega⟩]
  simp only [decide_eq_true_eq]
  rfl

theorem toFloat_large {d : Decimal} (h : ¬(d.digits < 2 ^ 53 ∧ d.exponent.natAbs ≤ 22)) :
    d.toFloat = .ofModel (.ofScientific d.digits d.exponent) := by
  have hexponent : (if decide (d.exponent < 0) then Int.negOfNat d.exponent.natAbs
      else Int.ofNat d.exponent.natAbs) = d.exponent := by
    split
    . next hneg =>
      have := of_decide_eq_true hneg
      rw [Int.negOfNat_eq, Int.ofNat_eq_natCast]
      omega
    . next hneg =>
      have := of_decide_eq_false (Bool.eq_false_iff.mpr hneg)
      rw [Int.ofNat_eq_natCast]
      omega
  unfold toFloat Float.ofScientific
  rw [dif_neg h]
  dsimp only
  rw [hexponent]

theorem signed_toFloat (d : Decimal) : Signed .positive d.toFloat.toModel.unpack := by
  -- small digits and a small power of ten are converted apart and then put together
  by_cases hsmall : d.digits < 2 ^ 53 ∧ d.exponent.natAbs ≤ 22
  . obtain ⟨m, e, hm, hpower, -⟩ := represents_power ⟨d.exponent.natAbs, by omega⟩
    have hdigits := magnitude_toFloat d.digits.toUInt64
    rw [toFloat_small hsmall.1 (by omega)]
    split
    . show Signed .positive (Float.Model.pack (UnpackedFloat.div Format.binary64 _ _)).unpack
      rw [hpower]
      exact (signed_div hdigits hm).unpack_pack
    . show Signed .positive (Float.Model.pack (UnpackedFloat.mul Format.binary64 _ _)).unpack
      rw [hpower]
      exact (signed_mul hdigits hm).unpack_pack
  . rw [toFloat_large hsmall]
    exact (signed_ofScientific d.digits d.exponent).unpack_pack

/-! Decimals that are whole. -/

theorem toFloat_zero (k : Nat) : (Decimal.mk 0 k).toFloat.toModel.unpack = .zero .positive := by
  by_cases hsmall : k ≤ 22
  . obtain ⟨m, e, hm, hpower, -⟩ := represents_power ⟨k, by omega⟩
    have hdigits : (Nat.toUInt64 0).toFloat.toModel.unpack = .zero .positive := by rfl
    rw [toFloat_small (by simp) (by simp; omega), if_neg (by simp)]
    show (Float.Model.pack (UnpackedFloat.mul Format.binary64 _ _)).unpack = _
    have hmul : UnpackedFloat.mul Format.binary64 (.zero .positive) (.finite .positive m e hm)
        = .zero .positive := by
      rfl
    simp only [Int.natAbs_natCast]
    rw [hdigits, hpower, hmul]
    rfl
  . rw [toFloat_large (by simp; omega)]
    show (Float.Model.pack (UnpackedFloat.ofScientific Format.binary64 0 k)).unpack = _
    unfold UnpackedFloat.ofScientific
    rw [dif_pos rfl]
    rfl

theorem ofScientific_of_le {n : Nat} {e : Int} (hn : 0 < n) (hlow : -2048 ≤ e) (hhigh : e ≤ 2048) :
    Float.ofModel (.ofScientific n e) =
      if 0 ≤ e then
        .ofModel (.pack (roundWithAccuracy Format.binary64 .positive
          (n * 2 ^ 53 * 10 ^ e.toNat) (-53) .exact))
      else
        .ofModel (.pack (UnpackedFloat.div Format.binary64 (.finite .positive n 0 hn)
          (.finite .positive (10 ^ (-e).toNat) 0 (Nat.pow_pos (by decide))))) := by
  have hbits : Format.binary64.exponentBits = 11 := by rfl
  have hmantissa : Format.binary64.mantissaBits = 53 := by rfl
  unfold Float.Model.ofScientific UnpackedFloat.ofScientific
  rw [dif_neg (by omega), if_neg (by rw [hbits]; omega), if_neg (by rw [hbits]; omega)]
  split
  . simp only [UnpackedFloat.mul, hmantissa, Nat.shiftLeft_eq]
    rfl
  . rfl

theorem toFloat_whole {n k : Nat} (hn : 0 < n) (hk : k ≤ 2048) :
    (Decimal.mk n k).toFloat
      =
    .ofModel (.pack (roundWithAccuracy Format.binary64 .positive (n * 10 ^ k * 2 ^ 53) (-53)
      .exact)) := by
  have hlog := log2_mul_two_pow (m := n * 10 ^ k) (by positivity) 53
  by_cases hsmall : n < 2 ^ 53 ∧ k ≤ 22
  . obtain ⟨m₁, e₁, h₁, hdigits, hlow₁, hvalue₁⟩ := represents_toFloat hn hsmall.1
    obtain ⟨m₂, e₂, h₂, hpower, hlow₂, hvalue₂⟩ := represents_power ⟨k, by omega⟩
    rw [toFloat_small hsmall.1 (by simp; omega), if_neg (by simp)]
    show Float.ofModel (Float.Model.pack (UnpackedFloat.mul Format.binary64 _ _)) = _
    simp only [Int.natAbs_natCast]
    rw [hdigits, hpower]
    -- neither factor was rounded, so the product rounds what is to be rounded
    have hround : roundWithAccuracy Format.binary64 .positive (m₁ * m₂) (e₁ + e₂) .exact
        = roundWithAccuracy Format.binary64 .positive (n * 10 ^ k * 2 ^ 53) (-53) .exact := by
      apply roundWithAccuracy_congr (by positivity) (by positivity)
      . have hback : value (n * 10 ^ k * 2 ^ 53) (-53) = value (n * 10 ^ k) 0 :=
          value_mul_two_pow _ 0 53
        rw [value_mul, hvalue₁, hvalue₂, hback]
        simp [value]
      . apply fits_of_log2
        have hmul : 2 ^ 52 ≤ m₁ * m₂ := by nlinarith
        exact (Nat.le_log2 (by positivity)).mpr hmul
      . apply fits_of_log2
        omega
    exact congrArg (fun u => Float.ofModel (.pack u)) hround
  . rw [toFloat_large (by simpa using hsmall)]
    show Float.ofModel (.ofScientific n k) = _
    rw [ofScientific_of_le hn (by omega) (by omega), if_pos (by omega), Int.toNat_natCast,
      Nat.mul_right_comm]

variable {m : Nat} {e : Int} {h : 0 < m}

theorem toFloat_shift (n : Nat) {k : Nat} (hk : k ≤ 2048) :
    (Decimal.mk (n * 10 ^ k) 0).toFloat = (Decimal.mk n k).toFloat := by
  by_cases hn : n = 0
  . rw [hn, Nat.zero_mul, Number.eq_iff_unpack_eq, toFloat_zero]
    exact toFloat_zero 0
  . have hzero : (Decimal.mk (n * 10 ^ k) 0).toFloat
        = (Decimal.mk (n * 10 ^ k) (0 : Nat)).toFloat := by
      rfl
    rw [hzero, toFloat_whole (by positivity) (by omega), toFloat_whole (by omega) hk, Nat.pow_zero,
      Nat.mul_one]

theorem toFloat_quotient {n k : Nat} (hn : 0 < n) (hk : 0 < k) (hrange : k ≤ 2048)
    (hc : Canonical m e) (hvalue : (n : ℚ) = value m e * 10 ^ k) :
    (Decimal.mk n (-k)).toFloat = .ofModel (.pack (.finite .positive m e h)) := by
  by_cases hsmall : n < 2 ^ 53 ∧ k ≤ 22
  . obtain ⟨m₁, e₁, h₁, hdigits, -, hvalue₁⟩ := represents_toFloat hn hsmall.1
    obtain ⟨m₂, e₂, h₂, hpower, -, hvalue₂⟩ := represents_power ⟨k, by omega⟩
    have hquotient : value m₁ e₁ = value m e * value m₂ e₂ := by
      rw [hvalue₁, hvalue₂, hvalue]
      push_cast
      rfl
    rw [toFloat_small hsmall.1 (by simp; omega), if_pos (by simp; omega)]
    show Float.ofModel (.pack (UnpackedFloat.div Format.binary64 _ _)) = _
    simp only [Int.natAbs_neg, Int.natAbs_natCast]
    rw [hdigits, hpower, div_exact h hc h₁ h₂ hquotient]
    rfl
  . have hquotient : value n 0 = value m e * value (10 ^ k) 0 := by
      simp only [value, zpow_zero, mul_one, hvalue]
      push_cast
      rfl
    rw [toFloat_large (by simpa using hsmall)]
    show Float.ofModel (.ofScientific n (-k)) = _
    rw [ofScientific_of_le hn (by omega) (by omega), if_neg (by omega)]
    simp only [Int.neg_neg, Int.toNat_natCast]
    rw [div_exact h hc hn (by positivity) hquotient]
    rfl

theorem toFloat_of_value {n : Nat} (hn : 0 < n) (hc : Canonical m e)
    (hvalue : (n : ℚ) = value m e) :
    (Decimal.mk n (0 : Nat)).toFloat = .ofModel (.pack (.finite .positive m e h)) := by
  have hexact := roundWithAccuracy_exact (s := .positive) h hc 0
  rw [Nat.pow_zero, Nat.mul_one, Nat.cast_zero, Int.sub_zero] at hexact
  have hround : roundWithAccuracy Format.binary64 .positive (n * 10 ^ 0 * 2 ^ 53) (-53) .exact
      = roundWithAccuracy Format.binary64 .positive m e .exact := by
    apply roundWithAccuracy_congr (by positivity) h
    . have hback : value (n * 10 ^ 0 * 2 ^ 53) (-53) = value (n * 10 ^ 0) 0 :=
        value_mul_two_pow _ 0 53
      rw [hback, ← hvalue]
      simp [value]
    . apply fits_of_log2
      rw [log2_mul_two_pow (by positivity)]
      omega
    . exact fits_of_canonical h hc
  rw [toFloat_whole hn (by omega), hround, hexact]

end Decimal

end Sweep
