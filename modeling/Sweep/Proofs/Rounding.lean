import Mathlib
import Sweep.Proofs.Packing

/-!
This module contains the rounding of a mantissa and an exponent to the numbers of 64 bits: a number
of 64 bits is rounded to itself, and any other one to a number of about the same size.
-/

open Float.Model (UnpackedFloat Format totalExponent)
open Float.Model.UnpackedFloat

namespace Sweep

structure Canonical (m : Nat) (e : Int) : Prop where
  lt : m < 0x20000000000000
  le : -1074 ≤ e
  normal : e = -1074 ∨ 0x10000000000000 ≤ m

theorem canonical_of_unpack {x : Float.Model} {s : Sign} {m : Nat} {e : Int} {h : 0 < m}
    (hx : x.unpack = .finite s m e h) : Canonical m e := by
  unfold Float.Model.unpack at hx
  rw [← Packing.packComponents_unpack x.toBits.toBitVec, Packing.unpack_packComponents] at hx
  have hfraction : (@unpackMantissa Format.binary64 x.toBits.toBitVec).toNat < 0x10000000000000 :=
    BitVec.isLt _
  split at hx
  . split at hx <;> contradiction
  . next hfull =>
    split at hx
    . split at hx
      . contradiction
      . cases hx
        exact { lt := by omega, le := by omega, normal := .inl rfl }
    . next hempty =>
      have hexponent : (@unpackExponent Format.binary64 x.toBits.toBitVec).toNat ≠ 0 := by
        intro h0
        exact hempty (BitVec.eq_of_toNat_eq h0)
      cases hx
      exact { lt := by omega, le := by omega, normal := .inr (by omega) }

namespace Rounding

theorem targetExponent_eq (m : Nat) (e : Int) :
    Format.targetExponent Format.binary64 (totalExponent m e) = max (m.log2 + e - 52) (-1074) := by
  have hmin : Format.minExponent Format.binary64 = -1074 := by rfl
  have hbits : (Format.mantissaBits Format.binary64 : Int) = 53 := by rfl
  unfold Format.targetExponent totalExponent
  rw [hmin, hbits]
  omega

theorem targetExponent_canonical {m : Nat} {e : Int} (h : 0 < m) (hc : Canonical m e) :
    Format.targetExponent Format.binary64 (totalExponent m e) = e := by
  have hlow := hc.le
  have hhigh := (Nat.log2_lt (k := 53) (by omega)).mpr hc.lt
  rw [targetExponent_eq]
  cases hc.normal with
  | inl hmin => omega
  | inr hnormal =>
    have := Packing.log2_eq hnormal hc.lt
    omega

theorem log2_mul_two_pow {m : Nat} (h : 0 < m) (j : Nat) : (m * 2 ^ j).log2 = m.log2 + j := by
  have hlow := Nat.log2_self_le (Nat.ne_of_gt h)
  have hhigh : m < 2 ^ (m.log2 + 1) := Nat.lt_log2_self
  rw [Nat.log2_eq_iff (by positivity)]
  constructor
  . rw [Nat.pow_add]
    exact Nat.mul_le_mul_right _ hlow
  . have hsplit : 2 ^ (m.log2 + j + 1) = 2 ^ (m.log2 + 1) * 2 ^ j := by ring
    rw [hsplit]
    exact Nat.mul_lt_mul_of_pos_right hhigh (by positivity)

theorem totalExponent_mul_two_pow {m : Nat} (h : 0 < m) (e : Int) (j : Nat) :
    totalExponent (m * 2 ^ j) (e - j) = totalExponent m e := by
  unfold totalExponent
  rw [log2_mul_two_pow h]
  omega

theorem shiftRight_succ (em : ExtendedMantissa) (k : Nat) :
    em >>> (k + 1) = (em >>> k).shiftRightOne := by
  rfl

theorem shiftRight_mul_two_pow (m j : Nat) :
    (ExtendedMantissa.mk (m * 2 ^ j) false false) >>> j = ⟨m, false, false⟩ := by
  induction j generalizing m with
  | zero =>
    rw [Nat.pow_zero, Nat.mul_one]
    rfl
  | succ j ih =>
    have hsplit : m * 2 ^ (j + 1) = (m * 2) * 2 ^ j := by ring
    rw [shiftRight_succ, hsplit, ih]
    simp [ExtendedMantissa.shiftRightOne]

theorem shiftRight_mantissa (em : ExtendedMantissa) (k : Nat) :
    (em >>> k).mantissa = em.mantissa / 2 ^ k := by
  induction k with
  | zero =>
    rw [Nat.pow_zero, Nat.div_one]
    rfl
  | succ k ih =>
    show (em >>> k).mantissa / 2 = _
    rw [ih, Nat.div_div_eq_div_mul, Nat.pow_succ]

theorem shiftToTargetExponent_exact {m : Nat} {e : Int} (h : 0 < m) (hc : Canonical m e) (j : Nat) :
    shiftToTargetExponent Format.binary64 (m * 2 ^ j) (e - j) .exact = (⟨m, false, false⟩, e) := by
  unfold shiftToTargetExponent shiftToExponent
  dsimp only
  rw [totalExponent_mul_two_pow h, targetExponent_canonical h hc]
  have hshift : (e - (e - j)).toNat = j := by omega
  rw [hshift]
  have hback : e - (j : Int) + j = e := by omega
  rw [hback]
  exact congrArg (·, e) (shiftRight_mul_two_pow m j)

variable {s : Sign} {m : Nat} {e e' : Int}

theorem roundWithAccuracy_exact (h : 0 < m) (hc : Canonical m e) (j : Nat) :
    roundWithAccuracy Format.binary64 s (m * 2 ^ j) (e - j) .exact = .finite s m e h := by
  have hagain := shiftToTargetExponent_exact h hc 0
  simp only [Nat.pow_zero, Nat.mul_one, Nat.cast_zero, sub_zero] at hagain
  have hrounded : (ExtendedMantissa.mk m false false).roundedMantissa = m := by rfl
  unfold roundWithAccuracy
  rw [shiftToTargetExponent_exact h hc]
  dsimp only
  rw [hrounded, hagain]
  dsimp only
  rw [dif_neg (by omega)]

theorem roundedMantissa_bounds (em : ExtendedMantissa) :
    em.mantissa ≤ em.roundedMantissa ∧ em.roundedMantissa ≤ em.mantissa + 1 := by
  unfold ExtendedMantissa.roundedMantissa
  generalize em.accuracy = accuracy
  unfold Accuracy.roundToNearestEven
  split <;> omega

theorem roundWithAccuracy_of_shift {a : Accuracy} {em : ExtendedMantissa}
    (hshift : shiftToTargetExponent Format.binary64 m e a = (em, e')) (he : -1074 ≤ e')
    (hlow : 0x10000000000000 ≤ em.mantissa) (hhigh : em.mantissa < 0x20000000000000) :
    ∃ m' e'' h, roundWithAccuracy Format.binary64 s m e a = .finite s m' e'' h ∧
      0x10000000000000 ≤ m' ∧ m' < 0x20000000000000 ∧ e' ≤ e'' ∧ e'' ≤ e' + 1 := by
  obtain ⟨hle, hge⟩ := roundedMantissa_bounds em
  unfold roundWithAccuracy
  rw [hshift]
  dsimp only
  generalize em.roundedMantissa = rounded at *
  by_cases hcarry : rounded < 0x20000000000000
  . have hc : Canonical rounded e' := { lt := hcarry, le := he, normal := .inr (by omega) }
    have hagain := shiftToTargetExponent_exact (by omega) hc 0
    simp only [Nat.pow_zero, Nat.mul_one, Nat.cast_zero, sub_zero] at hagain
    rw [hagain]
    dsimp only
    refine ⟨rounded, e', by omega, ?_, by omega, by omega, by omega, by omega⟩
    rw [dif_neg (by omega)]
  . -- the mantissa has been rounded up to one more binary digit
    have hrounded : rounded = 0x20000000000000 := by omega
    have hc : Canonical 0x10000000000000 (e' + 1) :=
      { lt := by omega, le := by omega, normal := .inr (by omega) }
    have hagain := shiftToTargetExponent_exact (by omega) hc 1
    have hback : e' + 1 - ((1 : Nat) : Int) = e' := by omega
    rw [hback] at hagain
    rw [hrounded]
    simp only [Nat.reducePow, Nat.reduceMul] at hagain
    rw [hagain]
    refine ⟨0x10000000000000, e' + 1, by omega, ?_, by omega, by omega, by omega, by omega⟩
    rfl

theorem roundWithAccuracy_normal (hlog : 52 ≤ m.log2) (he : -1074 ≤ m.log2 + e - 52) :
    ∃ m' e' h, roundWithAccuracy Format.binary64 s m e .exact = .finite s m' e' h ∧
      0x10000000000000 ≤ m' ∧ m' < 0x20000000000000 ∧
      m.log2 + e - 52 ≤ e' ∧ e' ≤ m.log2 + e - 51 := by
  have hpos : m ≠ 0 := by
    rintro rfl
    simp at hlog
  obtain ⟨places, hplaces⟩ := Nat.le.dest hlog
  have hself := Nat.log2_self_le hpos
  have hlt : m < 2 ^ (m.log2 + 1) := Nat.lt_log2_self
  rw [← hplaces] at hself hlt
  have hshift : shiftToTargetExponent Format.binary64 m e .exact
      = ((ExtendedMantissa.mk m false false) >>> places, e + places) := by
    unfold shiftToTargetExponent shiftToExponent
    rw [targetExponent_eq]
    have htoNat : (max (m.log2 + e - 52) (-1074) - e).toNat = places := by omega
    dsimp only
    rw [htoNat]
    rfl
  have hlow : 0x10000000000000 ≤ ((ExtendedMantissa.mk m false false) >>> places).mantissa := by
    rw [shiftRight_mantissa, Nat.le_div_iff_mul_le (by positivity)]
    rw [Nat.pow_add] at hself
    exact hself
  have hhigh : ((ExtendedMantissa.mk m false false) >>> places).mantissa < 0x20000000000000 := by
    have hsplit : 2 ^ (52 + places + 1) = 0x20000000000000 * 2 ^ places := by ring
    rw [shiftRight_mantissa, Nat.div_lt_iff_lt_mul (by positivity), ← hsplit]
    exact hlt
  obtain ⟨m', e', h, hround, hlow', hhigh', hle, hge⟩ :=
    roundWithAccuracy_of_shift (s := s) hshift (by omega) hlow hhigh
  exact ⟨m', e', h, hround, hlow', hhigh', by omega, by omega⟩

/-! Whole numbers. -/

theorem unpack_toFloat_eq {n : UInt64} (h : 0 < n.toNat) :
    n.toFloat.toModel.unpack
      =
    (Float.Model.pack (roundWithAccuracy Format.binary64 .positive
      (n.toNat * 2 ^ (52 - n.toNat.log2)) (0 - (52 - n.toNat.log2 : Nat)) .exact)).unpack := by
  have hlog := (Nat.log2_lt (k := 64) (by omega)).mpr n.toNat_lt
  have hcompare : compare (n.toNat : Int) 0 = .gt := by
    rw [Int.compare_eq_gt]
    omega
  have hplaces : (0 - max (n.toNat.log2 + (0 : Int) - 52) (-1074)).toNat = 52 - n.toNat.log2 := by
    omega
  show (Float.Model.pack (UnpackedFloat.normalize Format.binary64 n.toNat 0 .positive)).unpack = _
  unfold UnpackedFloat.normalize UnpackedFloat.round decreaseExponent
  rw [hcompare]
  dsimp only
  rw [Int.toNat_natCast, targetExponent_eq, hplaces, Nat.shiftLeft_eq]

theorem unpack_toFloat {n : UInt64} (h : 0 < n.toNat) :
    ∃ m e h, n.toFloat.toModel.unpack = .finite .positive m e h := by
  have hlog := (Nat.log2_lt (k := 64) (by omega)).mpr n.toNat_lt
  have hlog' := log2_mul_two_pow h (52 - n.toNat.log2)
  obtain ⟨m, e, hm, hnormal, hlow, hhigh, hle, hge⟩ :=
    roundWithAccuracy_normal (s := .positive) (m := n.toNat * 2 ^ (52 - n.toNat.log2))
      (e := 0 - (52 - n.toNat.log2 : Nat)) (by omega) (by omega)
  refine ⟨m, e, hm, ?_⟩
  rw [unpack_toFloat_eq h, hnormal]
  exact Packing.unpack_pack_normal hm hlow hhigh (by omega) (by omega)

/-! Mantissas and exponents that give the same number. -/

def value (m : Nat) (e : Int) : ℚ :=
  m * 2 ^ e

variable {m' m₁ m₂ : Nat} {e₁ e₂ : Int}

theorem value_mul (m₁ m₂ : Nat) (e₁ e₂ : Int) :
    value (m₁ * m₂) (e₁ + e₂) = value m₁ e₁ * value m₂ e₂ := by
  unfold value
  rw [zpow_add₀ (by norm_num)]
  push_cast
  ring

theorem value_mul_two_pow (m : Nat) (e : Int) (j : Nat) :
    value (m * 2 ^ j) (e - j) = value m e := by
  unfold value
  rw [zpow_sub₀ (by norm_num), zpow_natCast]
  push_cast
  field_simp

theorem eq_mul_two_pow_of_value_eq (h : value m e = value m' e') (hle : e' ≤ e) :
    ∃ j : Nat, m' = m * 2 ^ j ∧ e' = e - j := by
  obtain ⟨j, rfl⟩ := Int.le.dest hle
  refine ⟨j, ?_, by omega⟩
  unfold value at h
  rw [zpow_add₀ (by norm_num), zpow_natCast] at h
  have hpos : (2 : ℚ) ^ e' ≠ 0 := zpow_ne_zero _ (by norm_num)
  have hcancel : (m' : ℚ) = m * 2 ^ j := by
    apply mul_right_cancel₀ hpos
    rw [← h]
    ring
  exact_mod_cast hcancel

theorem eq_of_value_eq (h : value m e = value m' e) : m = m' := by
  obtain ⟨j, rfl, hj⟩ := eq_mul_two_pow_of_value_eq h (Int.le_refl e)
  have hzero : j = 0 := by omega
  rw [hzero, Nat.pow_zero, Nat.mul_one]

theorem totalExponent_eq_of_value_eq (hm : 0 < m) (hm' : 0 < m') (h : value m e = value m' e') :
    totalExponent m e = totalExponent m' e' := by
  rcases Int.le_total e' e with hle | hle
  . obtain ⟨j, rfl, rfl⟩ := eq_mul_two_pow_of_value_eq h hle
    rw [totalExponent_mul_two_pow hm]
  . obtain ⟨j, rfl, rfl⟩ := eq_mul_two_pow_of_value_eq h.symm hle
    rw [totalExponent_mul_two_pow hm']

theorem shiftRight_add (em : ExtendedMantissa) (j k : Nat) : em >>> (j + k) = (em >>> j) >>> k := by
  induction k with
  | zero => rfl
  | succ k ih => rw [← Nat.add_assoc, shiftRight_succ, shiftRight_succ, ih]

def Fits (m : Nat) (e : Int) : Prop :=
  e ≤ Format.targetExponent Format.binary64 (totalExponent m e)

theorem roundWithAccuracy_mul_two_pow (hm : 0 < m) (h : Fits m e) (j : Nat) :
    roundWithAccuracy Format.binary64 s (m * 2 ^ j) (e - j) .exact
      =
    roundWithAccuracy Format.binary64 s m e .exact := by
  have hshift : shiftToTargetExponent Format.binary64 (m * 2 ^ j) (e - j) .exact
      = shiftToTargetExponent Format.binary64 m e .exact := by
    unfold shiftToTargetExponent shiftToExponent
    rw [totalExponent_mul_two_pow hm]
    unfold Fits at h
    generalize Format.targetExponent Format.binary64 (totalExponent m e) = target at h
    obtain ⟨k, rfl⟩ := Int.le.dest h
    have hj : (e + k - (e - j)).toNat = j + k := by omega
    have hk : (e + k - e).toNat = k := by omega
    dsimp only
    rw [hj, hk, shiftRight_add, Prod.mk.injEq]
    constructor
    . exact congrArg (fun em : ExtendedMantissa => em >>> k) (shiftRight_mul_two_pow m j)
    . push_cast
      ring
  unfold roundWithAccuracy
  rw [hshift]

theorem roundWithAccuracy_congr (hm : 0 < m) (hm' : 0 < m') (h : value m e = value m' e')
    (hfits : Fits m e) (hfits' : Fits m' e') :
    roundWithAccuracy Format.binary64 s m e .exact
      =
    roundWithAccuracy Format.binary64 s m' e' .exact := by
  rcases Int.le_total e' e with hle | hle
  . obtain ⟨j, rfl, rfl⟩ := eq_mul_two_pow_of_value_eq h hle
    rw [roundWithAccuracy_mul_two_pow hm hfits]
  . obtain ⟨j, rfl, rfl⟩ := eq_mul_two_pow_of_value_eq h.symm hle
    rw [roundWithAccuracy_mul_two_pow hm' hfits']

theorem fits_of_canonical (hm : 0 < m) (hc : Canonical m e) : Fits m e := by
  unfold Fits
  rw [targetExponent_canonical hm hc]

theorem fits_of_log2 (h : 52 ≤ m.log2) : Fits m e := by
  unfold Fits
  rw [targetExponent_eq]
  omega

theorem log2_mul_le (hm : 0 < m) (hm' : 0 < m') : (m * m').log2 ≤ m.log2 + m'.log2 + 1 := by
  have hlt : m < 2 ^ (m.log2 + 1) := Nat.lt_log2_self
  have hlt' : m' < 2 ^ (m'.log2 + 1) := Nat.lt_log2_self
  have hmul : m * m' < 2 ^ (m.log2 + m'.log2 + 1 + 1) := by
    calc
      m * m' < 2 ^ (m.log2 + 1) * 2 ^ (m'.log2 + 1) := Nat.mul_lt_mul'' hlt hlt'
      _ = 2 ^ (m.log2 + m'.log2 + 1 + 1) := by ring
  have := (Nat.log2_lt (by positivity)).mpr hmul
  omega

theorem div_exact (hm : 0 < m) (hc : Canonical m e) (h₁ : 0 < m₁) (h₂ : 0 < m₂)
    (h : value m₁ e₁ = value m e * value m₂ e₂) (s₁ s₂ : Sign) :
    UnpackedFloat.div Format.binary64 (.finite s₁ m₁ e₁ h₁) (.finite s₂ m₂ e₂ h₂)
      =
    .finite (s₁ / s₂) m e hm := by
  rw [← value_mul] at h
  have htotal := totalExponent_eq_of_value_eq h₁ (by positivity) h
  have hlog := log2_mul_le hm h₂
  have hcanonical := targetExponent_canonical hm hc
  rw [targetExponent_eq] at hcanonical
  have htarget : Format.targetExponent Format.binary64 (totalExponent m₁ e₁ - totalExponent m₂ e₂)
      ≤ e := by
    rw [htotal]
    have hmin : Format.minExponent Format.binary64 = -1074 := by rfl
    have hbits : (Format.mantissaBits Format.binary64 : Int) = 53 := by rfl
    unfold Format.targetExponent totalExponent
    rw [hmin, hbits]
    omega
  unfold UnpackedFloat.div divCore
  dsimp only
  generalize hlow : min (e₁ - e₂) (Format.targetExponent Format.binary64
    (totalExponent m₁ e₁ - totalExponent m₂ e₂)) = low
  have hlow₁ : low ≤ e₁ - e₂ := by omega
  have hlow₂ : low ≤ e := by omega
  -- the dividend is shifted far enough to be a multiple of the divisor
  obtain ⟨i, hi⟩ := Int.le.dest hlow₁
  obtain ⟨j, rfl⟩ := Int.le.dest hlow₂
  have hshift : m₁ * 2 ^ i = m * 2 ^ j * m₂ := by
    apply eq_of_value_eq (e := e₁ - i)
    have hexponent : e₁ - i = low + j + e₂ - j := by omega
    rw [value_mul_two_pow, h, Nat.mul_right_comm, hexponent, value_mul_two_pow]
  have hplaces : (e₁ - e₂ - low).toNat = i := by omega
  rw [hplaces, Nat.shiftLeft_eq, hshift, Nat.mul_div_cancel _ h₂, Nat.mul_mod_left]
  have hexact := roundWithAccuracy_exact (s := s₁ / s₂) hm hc j
  rw [Int.add_sub_cancel] at hexact
  exact hexact

def Represents (q : ℚ) (u : UnpackedFloat) : Prop :=
  ∃ m e h, u = .finite .positive m e h ∧ 0x10000000000000 ≤ m ∧ value m e = q

theorem represents_toFloat {n : Nat} (hpos : 0 < n) (hlt : n < 2 ^ 53) :
    Represents n n.toUInt64.toFloat.toModel.unpack := by
  have htoNat : n.toUInt64.toNat = n := by
    simp
    omega
  have hlog := (Nat.log2_lt (k := 53) (by omega)).mpr hlt
  have hlog' := log2_mul_two_pow hpos (52 - n.log2)
  have hmantissa : 0 < n * 2 ^ (52 - n.log2) := by positivity
  have hlow : 0x10000000000000 ≤ n * 2 ^ (52 - n.log2) :=
    (Nat.le_log2 (k := 52) (by omega)).mp (by omega)
  have hhigh : n * 2 ^ (52 - n.log2) < 0x20000000000000 :=
    (Nat.log2_lt (k := 53) (by omega)).mp (by omega)
  have hc : Canonical (n * 2 ^ (52 - n.log2)) (0 - (52 - n.log2 : Nat)) :=
    { lt := hhigh, le := by omega, normal := .inr hlow }
  have hexact := roundWithAccuracy_exact (s := .positive) hmantissa hc 0
  rw [Nat.pow_zero, Nat.mul_one, Nat.cast_zero, Int.sub_zero] at hexact
  refine ⟨n * 2 ^ (52 - n.log2), 0 - (52 - n.log2 : Nat), hmantissa, ?_, hlow, ?_⟩
  . rw [unpack_toFloat_eq (by omega), htoNat, hexact]
    exact Packing.unpack_pack_normal hmantissa hlow hhigh (by omega) (by omega)
  . rw [value_mul_two_pow]
    simp [value]

end Rounding

end Sweep
