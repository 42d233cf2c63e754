import Sweep.Proofs.Arithmetic

/-!
This module contains the roundings of finite numbers to whole numbers, and the whole numbers that
are read from finite numbers.
-/

open Float.Model (UnpackedFloat Format)
open Float.Model.UnpackedFloat

namespace Sweep

open Rounding (value withSign)

namespace Parts

variable {x : Float}

theorem toRat_eq (h : x.isFinite) :
    Number.toRat x
      =
    withSign (ofFloat x).sign (value (ofFloat x).mantissa (ofFloat x).exponent) := by
  have hunpack := toUnpacked_ofFloat x (isFinite_unpack_iff.mp h)
  unfold Number.toRat
  rw [← hunpack]
  unfold toUnpacked
  split
  . rfl
  . next hzero =>
    have hzero : (ofFloat x).mantissa = 0 := by omega
    rw [hzero]
    simp [Rounding.toRat, value, Rounding.withSign_zero]

theorem mantissa_lt (x : Float) : (ofFloat x).mantissa < 2 ^ 53 := by
  have := fraction_lt x
  rw [mantissa_ofFloat]
  split <;> omega

theorem exponent_nonneg_of_not_isFinite (h : ¬x.isFinite) : 0 ≤ (ofFloat x).exponent := by
  have hscale : scale x = 2047 := by
    by_contra hscale
    exact h (isFinite_unpack_iff.mpr hscale)
  rw [exponent_ofFloat, hscale]
  decide

end Parts

namespace Number

variable {x : Float}

theorem toRat_toFloat_eq_nearest {n : Nat} (h : n < 2 ^ 64) :
    n.toUInt64.toFloat.isFinite ∧ toRat n.toUInt64.toFloat = Rounding.nearest n := by
  have hpack : n.toUInt64.toFloat =
      .ofModel (.pack (UnpackedFloat.normalize Format.binary64 n.toUInt64.toNat 0 .positive)) := by
    rfl
  have hrounds := Rounding.rounds_normalize n.toUInt64.toNat 0 .positive
  have hn : n.toUInt64.toNat = n := Nat.mod_eq_of_lt h
  rw [hn] at hpack hrounds
  rw [hpack]
  rw [zpow_zero, mul_one, Int.cast_natCast] at hrounds
  have hsmall : |(n : ℚ)| ≤ 2 ^ (1023 : ℤ) := by
    rw [abs_of_nonneg (Nat.cast_nonneg n)]
    have hlt : (n : ℚ) < 2 ^ 64 := by exact_mod_cast h
    apply hlt.le.trans
    rw [← zpow_natCast]
    exact zpow_le_zpow_right₀ (by norm_num) (by norm_num)
  have hfinite := isFinite_pack hrounds hsmall
  exact ⟨hfinite, toRat_pack hrounds hfinite⟩

theorem toRat_toFloat {n : Nat} (h : n < 2 ^ 53) :
    n.toUInt64.toFloat.isFinite ∧ toRat n.toUInt64.toFloat = n := by
  obtain ⟨hfinite, hnearest⟩ := toRat_toFloat_eq_nearest (h.trans (by norm_num))
  refine ⟨hfinite, ?_⟩
  rw [hnearest]
  exact Rounding.nearest_of_representable (Rounding.representable_natCast h.le)

theorem toRat_ofWhole (negative : Bool) {n : Nat} (h : n < 2 ^ 53) :
    (ofWhole negative n).isFinite ∧
      toRat (ofWhole negative n) = withSign (if negative then .negative else .positive) n := by
  obtain ⟨hfinite, hn⟩ := toRat_toFloat h
  unfold ofWhole
  cases negative with
  | true =>
    rw [← hn]
    exact ⟨isFinite_neg hfinite, toRat_neg hfinite⟩
  | false => exact ⟨hfinite, hn⟩

theorem value_neg (m k : Nat) : value m (-k) = m / (2 ^ k : Nat) := by
  unfold value
  rw [zpow_neg, zpow_natCast, ← div_eq_mul_inv]
  push_cast
  rfl

theorem floor_value (m k : Nat) : ⌊value m (-k)⌋ = (m / 2 ^ k : Nat) := by
  rw [value_neg]
  exact Rat.floor_natCast_div_natCast m (2 ^ k)

theorem floor_neg_value (m k : Nat) :
    ⌊-value m (-k)⌋ = -(if m = m / 2 ^ k * 2 ^ k then m / 2 ^ k else m / 2 ^ k + 1 : Nat) := by
  have hunit : 0 < 2 ^ k := by positivity
  rw [value_neg]
  generalize 2 ^ k = unit at *
  have hpos : (0 : ℚ) < unit := by exact_mod_cast hunit
  have hsplit := Nat.div_add_mod' m unit
  have hrest := Nat.mod_lt m hunit
  generalize m / unit = whole at *
  split
  . next hwhole =>
    have hquotient : (m / unit : ℚ) = whole := by
      rw [div_eq_iff hpos.ne']
      exact_mod_cast hwhole
    rw [hquotient]
    exact_mod_cast Int.floor_intCast (-whole : ℤ)
  . next hfraction =>
    have hlow : whole < (m / unit : ℚ) := by
      rw [lt_div_iff₀ hpos]
      exact_mod_cast (show whole * unit < m by omega)
    have hhigh : (m / unit : ℚ) ≤ whole + 1 := by
      rw [div_le_iff₀ hpos, add_one_mul]
      exact_mod_cast (show m ≤ whole * unit + unit by omega)
    rw [Int.floor_eq_iff]
    push_cast
    constructor <;> linarith

theorem exists_int_of_exponent (h : x.isFinite) (he : 0 ≤ (Parts.ofFloat x).exponent) :
    ∃ n : ℤ, toRat x = n := by
  obtain ⟨k, hk⟩ := Int.eq_ofNat_of_zero_le he
  refine ⟨(Parts.ofFloat x).sign.apply ((Parts.ofFloat x).mantissa * 2 ^ k : Nat), ?_⟩
  rw [Parts.toRat_eq h, hk, Rounding.cast_apply]
  unfold value
  push_cast
  rw [zpow_natCast]

theorem toRat_floor_value (negative : Bool) {m k : Nat} {y : Float}
    (hsmall : m / 2 ^ k + 1 < 2 ^ 53)
    (hy : y
      = if negative && m != m / 2 ^ k * 2 ^ k then ofWhole true (m / 2 ^ k + 1)
        else ofWhole negative (m / 2 ^ k)) :
    y.isFinite ∧
      toRat y = ⌊withSign (if negative then .negative else .positive) (value m (-k))⌋ := by
  subst hy
  cases negative with
  | false =>
    rw [Bool.false_and, if_neg Bool.false_ne_true]
    obtain ⟨hfinite, hrounded⟩ := toRat_ofWhole false (n := m / 2 ^ k) (by omega)
    refine ⟨hfinite, hrounded.trans ?_⟩
    have hfloor := congrArg (Int.cast (R := ℚ)) (floor_value m k)
    exact hfloor.symm
  | true =>
    have hfloor := congrArg (Int.cast (R := ℚ)) (floor_neg_value m k)
    rw [Int.cast_neg, Int.cast_natCast] at hfloor
    rw [Bool.true_and]
    by_cases hexact : m = m / 2 ^ k * 2 ^ k
    . obtain ⟨hfinite, hrounded⟩ := toRat_ofWhole true (n := m / 2 ^ k) (by omega)
      rw [if_pos hexact] at hfloor
      rw [if_neg (by rw [bne_iff_ne]; exact not_not_intro hexact)]
      exact ⟨hfinite, hrounded.trans hfloor.symm⟩
    . obtain ⟨hfinite, hrounded⟩ := toRat_ofWhole true hsmall
      rw [if_neg hexact] at hfloor
      rw [if_pos (by rwa [bne_iff_ne])]
      exact ⟨hfinite, hrounded.trans hfloor.symm⟩

theorem toRat_floor (h : x.isFinite) : (floor x).isFinite ∧ toRat (floor x) = ⌊toRat x⌋ := by
  have hlt := Parts.mantissa_lt x
  have hx := Parts.toRat_eq h
  have hwhole := exists_int_of_exponent h
  unfold floor
  dsimp only
  generalize Parts.ofFloat x = p at *
  split
  . next he =>
    obtain ⟨k, hk⟩ := Int.eq_ofNat_of_zero_le (show 0 ≤ -p.exponent by omega)
    have hexponent : p.exponent = -k := by omega
    have hsmall : p.mantissa / 2 ^ k + 1 < 2 ^ 53 := by
      have htwo : 2 ≤ 2 ^ k := Nat.le_self_pow (by omega) 2
      have hle : p.mantissa / 2 ^ k ≤ p.mantissa / 2 := Nat.div_le_div_left htwo (by norm_num)
      omega
    rw [hx, hexponent, neg_neg, Int.toNat_natCast, Nat.shiftRight_eq_div_pow, Nat.shiftLeft_eq]
    exact toRat_floor_value p.negative hsmall rfl
  . next he =>
    obtain ⟨n, hn⟩ := hwhole (by omega)
    refine ⟨h, ?_⟩
    rw [hn, Int.floor_intCast]

theorem isFinite_of_isFinite_floor (h : (floor x).isFinite) : x.isFinite := by
  by_contra hx
  have := Parts.exponent_nonneg_of_not_isFinite hx
  unfold floor at h
  dsimp only at h
  rw [if_neg (by omega)] at h
  exact hx h

theorem abs_roundHalf_sub_le (m k : Nat) :
    |((m + 2 ^ k) / 2 ^ (k + 1) : Nat) - value m (-(k + 1 : Nat))| ≤ 1 / 2 := by
  have hunit : 0 < 2 ^ k := by positivity
  rw [value_neg, pow_succ]
  generalize 2 ^ k = unit at *
  have hpos : (0 : ℚ) < (unit * 2 : Nat) := by exact_mod_cast (by omega)
  have hsplit := Nat.div_add_mod' (m + unit) (unit * 2)
  have hrest := Nat.mod_lt (m + unit) (show 0 < unit * 2 by omega)
  generalize (m + unit) / (unit * 2) = n at *
  have hlow : (m : ℚ) ≤ n * (unit * 2 : Nat) + unit := by exact_mod_cast (by omega)
  have hhigh : n * (unit * 2 : Nat) ≤ (m : ℚ) + unit := by exact_mod_cast (by omega)
  push_cast at *
  rw [abs_le]
  constructor
  . have : (m / (unit * 2) : ℚ) ≤ n + 1 / 2 := by
      rw [div_le_iff₀ hpos]
      linarith
    linarith
  . have : (n - 1 / 2 : ℚ) ≤ m / (unit * 2) := by
      rw [le_div_iff₀ hpos]
      linarith
    linarith

theorem toRat_roundHalfAway (h : x.isFinite) :
    (roundHalfAway x).isFinite ∧ ∃ n : ℤ, toRat (roundHalfAway x) = n ∧ |n - toRat x| ≤ 1 / 2 := by
  have hlt := Parts.mantissa_lt x
  have hx := Parts.toRat_eq h
  have hwhole := exists_int_of_exponent h
  unfold roundHalfAway
  dsimp only
  generalize Parts.ofFloat x = p at *
  split
  . next he =>
    obtain ⟨k, hk⟩ := Int.eq_ofNat_of_zero_le (show 0 ≤ -p.exponent - 1 by omega)
    have hexponent : p.exponent = -(k + 1 : Nat) := by omega
    have hplaces : (-p.exponent).toNat = k + 1 := by omega
    rw [hexponent] at hx
    rw [hplaces, Nat.add_sub_cancel, Nat.shiftRight_eq_div_pow, Nat.shiftLeft_eq, Nat.one_mul]
    have herror := abs_roundHalf_sub_le p.mantissa k
    have hsmall : (p.mantissa + 2 ^ k) / 2 ^ (k + 1) < 2 ^ 53 := by
      have hunit : 0 < 2 ^ k := by positivity
      rw [Nat.div_lt_iff_lt_mul (by positivity), pow_succ]
      omega
    obtain ⟨hfinite, hrounded⟩ := toRat_ofWhole p.negative hsmall
    refine ⟨hfinite, p.sign.apply ((p.mantissa + 2 ^ k) / 2 ^ (k + 1) : Nat), ?_, ?_⟩
    . rw [hrounded, Rounding.cast_apply]
      rfl
    . rw [Rounding.cast_apply, hx, Rounding.abs_withSign_sub_withSign]
      exact herror
  . next he =>
    obtain ⟨n, hn⟩ := hwhole (by omega)
    refine ⟨h, n, hn, ?_⟩
    rw [hn, sub_self, abs_zero]
    norm_num

theorem roundToInt_eq (m : Nat) (e : Int) : roundToInt .positive m e = ⌊value m e⌋ := by
  unfold roundToInt
  rcases Int.le_total 0 e with he | he
  . obtain ⟨k, hk, hdecrease⟩ := Rounding.decreaseExponent_eq m he
    have hvalue : value m e = (m * 2 ^ k : Nat) := by
      rw [← Rounding.value_mul_two_pow m e k, hk]
      simp [value]
    rw [hdecrease, hvalue, Int.floor_natCast]
    rfl
  . obtain ⟨k, rfl⟩ : ∃ k : Nat, e = -k := ⟨(-e).toNat, by omega⟩
    have hsame : decreaseExponent m (-(k : Int)) 0 = (m, -(k : Int)) := by
      unfold decreaseExponent
      have hzero : (-(k : Int) - 0).toNat = 0 := by omega
      rw [hzero]
      simp
    rw [hsame, floor_value]
    unfold shiftToExponent
    dsimp only
    have hplaces : (0 - -(k : Int)).toNat = k := by omega
    rw [hplaces, Rounding.shiftRight_mantissa]
    rfl

theorem toNat_toUInt64 (hx : x.isFinite) (h : 0 ≤ toRat x) (hlt : toRat x < 2 ^ 64) :
    (x.toUInt64.toNat : ℤ) = ⌊toRat x⌋ := by
  have hclamp : x.toUInt64 = .ofNatClamp (x.toModel.unpack.toInt 0 (UInt64.size - 1)).toNat := by
    rfl
  have hx : x.toModel.unpack.isFinite := hx
  unfold toRat at *
  rw [hclamp]
  cases hunpack : x.toModel.unpack with
  | finite s m e hm =>
    rw [hunpack] at h hlt
    have hpos := Rounding.value_pos hm e
    cases s with
    | negative =>
      have h : 0 ≤ -value m e := h
      linarith
    | positive =>
      have hlt : value m e < 2 ^ 64 := hlt
      show ((UInt64.ofNatClamp (roundToInt .positive m e).toNat).toNat : ℤ) = ⌊value m e⌋
      rw [roundToInt_eq]
      have hnonneg := Int.floor_nonneg.mpr hpos.le
      have hsize : ⌊value m e⌋ < 2 ^ 64 := by
        rw [Int.floor_lt]
        exact_mod_cast hlt
      have hsmall : ⌊value m e⌋.toNat < UInt64.size := by
        show ⌊value m e⌋.toNat < 2 ^ 64
        omega
      rw [UInt64.ofNatClamp_eq_ofNat _ hsmall, UInt64.toNat_ofNat_of_lt' hsmall,
        Int.toNat_of_nonneg hnonneg]
  | zero s =>
    exact Int.floor_zero.symm
  | _ =>
    rw [hunpack] at hx
    contradiction

end Number

end Sweep
