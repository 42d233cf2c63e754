import Sweep.Domain.Values
import Sweep.Proofs.Wholes

/-!
This module contains the rounding of finite numbers to twelve decimal places. Up to 8192 it gives
the number nearest to a multiple of the last place, and from there on it leaves the number as it is.
-/

namespace Sweep.Number

open Rounding (Representable nearest)

variable {x : Float}

theorem toRat_unit : (1e12 : Float).isFinite ∧ toRat 1e12 = 10 ^ 12 := by
  have h := toRat_of_unpack (x := 1e12) (m := 8192000000000000) (e := -13) (h := by norm_num) rfl
  norm_num [Rounding.value] at h ⊢
  exact h

theorem toRat_bound :
    (9007199254740992 : Float).isFinite ∧ toRat 9007199254740992 = 2 ^ 53 := by
  have h := toRat_of_unpack (x := 9007199254740992) (m := 2 ^ 52) (e := 1) (h := by norm_num) rfl
  norm_num [Rounding.value] at h ⊢
  exact h

structure IsUnits (x : Float) (n : ℤ) : Prop where
  isFinite : x.isFinite
  toRat_eq : toRat x = nearest (n / 10 ^ 12)

theorem isUnits_div_unit {n : ℤ} (h : x.isFinite) (hn : toRat x = n) (hle : |n| ≤ 2 ^ 54) :
    IsUnits (x / 1e12) n := by
  obtain ⟨hunit, hten⟩ := toRat_unit
  have hle : |(n : ℚ)| ≤ 2 ^ (54 : ℤ) := by exact_mod_cast hle
  have hfinite : (x / 1e12).isFinite := by
    apply isFinite_div h hunit
    . rw [hten]
      norm_num
    . rw [hn, hten, abs_div]
      calc
        |(n : ℚ)| / |10 ^ 12| ≤ |(n : ℚ)| := div_le_self (abs_nonneg _) (by norm_num)
        _ ≤ 2 ^ (54 : ℤ) := hle
        _ ≤ 2 ^ (1023 : ℤ) := zpow_le_zpow_right₀ (by norm_num) (by norm_num)
  constructor
  . exact hfinite
  . rw [toRat_div hfinite, hn, hten]

theorem isFinite_of_roundToPrecision (h : (roundToPrecision x).isFinite) : x.isFinite := by
  unfold roundToPrecision at h
  dsimp only at h
  split at h
  . exact h
  . next hscaled =>
    rw [Bool.or_eq_true, not_or, Bool.not_eq_true', Bool.not_eq_false] at hscaled
    exact (isFinite_of_isFinite_mul hscaled.1).1

theorem roundToPrecision_cases (h : x.isFinite) :
    2 ^ 53 ≤ |nearest (toRat x * 10 ^ 12)| ∧ roundToPrecision x = x ∨
    |nearest (toRat x * 10 ^ 12)| < 2 ^ 53 ∧
      ∃ n : ℤ, |n - nearest (toRat x * 10 ^ 12)| ≤ 1 / 2 ∧ IsUnits (roundToPrecision x) n := by
  obtain ⟨hunit, hten⟩ := toRat_unit
  obtain ⟨hbound, hpower⟩ := toRat_bound
  unfold roundToPrecision
  dsimp only
  by_cases hscaled : (x * 1e12).isFinite
  . have htoRat := toRat_mul hscaled
    rw [hten] at htoRat
    have hle := le_iff_toRat hbound (isFinite_abs hscaled)
    rw [hpower, toRat_abs hscaled, htoRat] at hle
    by_cases hlarge : 9007199254740992 ≤ (x * 1e12).abs
    . left
      exact ⟨hle.mp hlarge, by simp [hlarge]⟩
    . right
      have hsmall : |nearest (toRat x * 10 ^ 12)| < 2 ^ 53 := by
        rw [← not_le, ← hle]
        exact hlarge
      obtain ⟨hfinite, n, hn, herror⟩ := toRat_roundHalfAway hscaled
      rw [htoRat] at herror
      have hwhole : |(n : ℚ)| ≤ 2 ^ 54 := by
        generalize nearest (toRat x * 10 ^ 12) = scaled at hsmall herror
        have htriangle := abs_sub_abs_le_abs_sub (n : ℚ) scaled
        linarith
      rw [if_neg (by simp [hscaled, hlarge])]
      exact ⟨hsmall, n, herror, isUnits_div_unit hfinite hn (by exact_mod_cast hwhole)⟩
  . left
    refine ⟨?_, by simp [hscaled]⟩
    have hlarge : 2 ^ (1023 : ℤ) ≤ |toRat x * 10 ^ 12| := by
      by_contra! hsmall
      rw [← hten] at hsmall
      exact hscaled (isFinite_mul h hunit hsmall.le)
    have hpower := Rounding.representable_two_zpow (e := 53) (by norm_num)
    apply Rounding.le_abs_nearest hpower (le_trans _ hlarge)
    exact zpow_le_zpow_right₀ (by norm_num) (by norm_num)

theorem abs_nearest_sub_le_half {q : ℚ} (h : |nearest q| < 2 ^ 53) : |nearest q - q| ≤ 1 / 2 := by
  have herror := Rounding.abs_nearest_sub_le_two_zpow (q := q) (k := -1)
  norm_num at herror
  apply herror
  by_contra! hlarge
  have hpower := Rounding.representable_intCast (n := 2 ^ 53) (by norm_num)
  have := Rounding.le_abs_nearest (q := q) hpower (by norm_num; exact hlarge.le)
  norm_num at this h
  linarith

theorem representable_units : Representable (8192 * 10 ^ 12) := by
  have h := Rounding.representable_intCast (n := 8192000000000000) (by norm_num)
  norm_num at h ⊢
  exact h

theorem toRat_roundToPrecision_of_le (h : x.isFinite) (hx : |toRat x| ≤ 8192) :
    ∃ n : ℤ, |n| ≤ 8192 * 10 ^ 12 ∧ |n - toRat x * 10 ^ 12| ≤ 1 ∧
      toRat (roundToPrecision x) = nearest (n / 10 ^ 12) := by
  have hcases := roundToPrecision_cases h
  have hscaled : |toRat x * 10 ^ 12| ≤ 8192 * 10 ^ 12 := by
    rw [abs_mul, abs_of_pos (by norm_num : (0 : ℚ) < 10 ^ 12)]
    linarith
  generalize toRat x * 10 ^ 12 = q at *
  have hle := Rounding.abs_nearest_le representable_units hscaled
  have hlt : |nearest q| < 2 ^ 53 := by linarith
  rcases hcases with ⟨hge, -⟩ | ⟨-, n, hn, hresult⟩
  . exact (not_lt_of_ge hge hlt).elim
  . refine ⟨n, ?_, ?_, hresult.toRat_eq⟩
    . have htriangle := abs_sub_abs_le_abs_sub (n : ℚ) (nearest q)
      have hlt : |(n : ℚ)| < 8192 * 10 ^ 12 + 1 := by linarith
      have hlt : |n| < 8192 * 10 ^ 12 + 1 := by exact_mod_cast hlt
      omega
    . have htriangle := abs_sub_le (n : ℚ) (nearest q) q
      have := abs_nearest_sub_le_half hlt
      linarith

theorem nearest_units_eq {q : ℚ} {n : ℤ} (hq : Representable q) (hlarge : 8192 ≤ |q|)
    (hn : 8192 * 10 ^ 12 ≤ |(n : ℚ)|) (herror : |n - q * 10 ^ 12| ≤ 1 / 2) :
    nearest (n / 10 ^ 12) = q := by
  have hunits : (0 : ℚ) < 10 ^ 12 := by norm_num
  have hpower : (2 : ℚ) ^ 52 * 2 ^ (-39 : ℤ) = 8192 := by norm_num
  have hclose : |n / 10 ^ 12 - q| ≤ 1 / 2 / 10 ^ 12 := by
    rw [div_sub' hunits.ne', abs_div, abs_of_pos hunits, mul_comm _ q]
    exact div_le_div_of_nonneg_right herror hunits.le
  have hnearest := Rounding.abs_nearest_sub_le (n / 10 ^ 12) hq
  have htriangle := abs_sub_le (nearest (n / 10 ^ 12)) (n / 10 ^ 12 : ℚ) q
  have hplace : (1 / 2 / 10 ^ 12 + 1 / 2 / 10 ^ 12 : ℚ) < 2 ^ (-39 : ℤ) := by norm_num
  have hdistance : |nearest (n / 10 ^ 12) - q| < 2 ^ (-39 : ℤ) := by
    rw [abs_sub_comm q] at hnearest
    linarith
  have hge : 8192 ≤ |nearest (n / 10 ^ 12)| := by
    apply Rounding.le_abs_nearest Rounding.representable_top
    rwa [abs_div, abs_of_pos hunits, le_div_iff₀ hunits]
  rw [← hpower] at hlarge hge
  exact (hq.eq_of_abs_sub_lt (Rounding.representable_nearest _) hlarge hge hdistance).symm

theorem toRat_roundToPrecision_of_ge (h : x.isFinite) (hx : 8192 ≤ |toRat x|) :
    toRat (roundToPrecision x) = toRat x := by
  rcases roundToPrecision_cases h with ⟨-, hsame⟩ | ⟨hlt, n, hn, hresult⟩
  . rw [hsame]
  . have hscaled : 8192 * 10 ^ 12 ≤ |toRat x * 10 ^ 12| := by
      rw [abs_mul, abs_of_pos (by norm_num : (0 : ℚ) < 10 ^ 12)]
      linarith
    have hlarge := Rounding.le_abs_nearest representable_units hscaled
    -- the number of units is whole without rounding
    obtain ⟨k, hk⟩ := (Rounding.representable_nearest _).exists_int (le_trans (by norm_num) hlarge)
    have hhalf := abs_nearest_sub_le_half hlt
    rw [hk] at hn hhalf hlarge
    have hsame : n = k := by
      have hclose : |((n - k : ℤ) : ℚ)| < 1 := by
        push_cast
        linarith
      have hclose : |n - k| < 1 := by exact_mod_cast hclose
      rw [Int.abs_lt_one_iff] at hclose
      omega
    rw [hresult.toRat_eq, hsame]
    exact nearest_units_eq (representable_toRat x) hx hlarge hhalf

end Sweep.Number
