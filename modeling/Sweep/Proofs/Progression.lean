import Sweep.Proofs.Decimals
import Sweep.Proofs.Generation

/-!
This module contains domains whose ends and step have at most twelve decimal places. Their values
are the numbers nearest to the terms of an arithmetic progression, so that the roundings of many
steps never add up.
-/

namespace Sweep

open Rounding (nearest)

namespace Number

open Rounding (abs_nearest_sub_le_two_zpow)

namespace IsUnits

variable {x y : Float} {n m : ℤ}

/-! The order of numbers of units. -/

theorem abs_nearest_sub_le {k : ℕ} (h : |n| ≤ 2 ^ k) :
    |nearest (n / 10 ^ 12) - n / 10 ^ 12| ≤ 2 ^ (-93 : ℤ) * 2 ^ k := by
  have hpower : (2 : ℚ) ^ (-93 : ℤ) * 2 ^ k = 2 ^ (k - 93 : ℤ) := by
    rw [← zpow_natCast, ← zpow_add₀ (by norm_num), neg_add_eq_sub]
  have hsplit : (2 : ℚ) ^ ((k - 93 : ℤ) + 54) = 2 ^ (-39 : ℤ) * 2 ^ k := by
    rw [← zpow_natCast, ← zpow_add₀ (by norm_num)]
    congr 1
    ring
  rw [hpower]
  apply abs_nearest_sub_le_two_zpow
  . have hn : |(n : ℚ)| ≤ 2 ^ k := by exact_mod_cast h
    have hunits : (1 : ℚ) / 10 ^ 12 ≤ 2 ^ (-39 : ℤ) := by norm_num
    rw [hsplit, abs_div, abs_of_pos (by norm_num : (0 : ℚ) < 10 ^ 12), div_eq_mul_one_div, mul_comm]
    exact mul_le_mul hunits hn (abs_nonneg _) (by norm_num)
  . omega

theorem nearest_le_nearest_iff (hn : |n| ≤ 2 ^ 50) (hm : |m| ≤ 2 ^ 50) :
    nearest (n / 10 ^ 12) ≤ nearest (m / 10 ^ 12) ↔ n ≤ m := by
  constructor
  . intro h
    by_contra! hlt
    have hn := abs_le.mp (abs_nearest_sub_le hn)
    have hm := abs_le.mp (abs_nearest_sub_le hm)
    norm_num at hn hm
    -- one unit is more than both roundings together
    have hgap : (m : ℚ) / 10 ^ 12 + 1 / 10 ^ 12 ≤ n / 10 ^ 12 := by
      rw [← add_div]
      apply div_le_div_of_nonneg_right _ (by norm_num)
      exact_mod_cast hlt
    norm_num at hgap h
    linarith
  . intro h
    apply Rounding.nearest_mono
    apply div_le_div_of_nonneg_right _ (by norm_num)
    exact_mod_cast h

theorem le_iff (hx : IsUnits x n) (hy : IsUnits y m) (hn : |n| ≤ 2 ^ 50) (hm : |m| ≤ 2 ^ 50) :
    x ≤ y ↔ n ≤ m := by
  rw [le_iff_toRat hx.isFinite hy.isFinite, hx.toRat_eq, hy.toRat_eq,
    nearest_le_nearest_iff hn hm]

theorem toRat_eq_iff (hx : IsUnits x n) (hn : |n| ≤ 2 ^ 50) (hm : |m| ≤ 2 ^ 50) :
    toRat x = nearest (m / 10 ^ 12) ↔ n = m := by
  rw [hx.toRat_eq, le_antisymm_iff, le_antisymm_iff, nearest_le_nearest_iff hn hm,
    nearest_le_nearest_iff hm hn]

protected theorem neg (h : IsUnits x n) : IsUnits (-x) (-n) := by
  constructor
  . exact isFinite_neg h.isFinite
  . rw [toRat_neg h.isFinite, h.toRat_eq, ← Rounding.nearest_neg]
    push_cast
    rw [neg_div]

/-! One step. -/

theorem add (hx : IsUnits x n) (hy : IsUnits y m) (hn : |n| ≤ 2 ^ 49) (hm : |m| ≤ 2 ^ 49) :
    (x + y).isFinite ∧ |toRat (x + y) - (n + m : ℤ) / 10 ^ 12| ≤ 2 ^ (-42 : ℤ) := by
  have hleft := abs_nearest_sub_le hn
  have hright := abs_nearest_sub_le hm
  rw [← hx.toRat_eq] at hleft
  rw [← hy.toRat_eq] at hright
  have hsum : |toRat x + toRat y - (n + m : ℤ) / 10 ^ 12| ≤ 2 ^ (-43 : ℤ) := by
    push_cast
    rw [add_div, add_sub_add_comm]
    apply (abs_add_le _ _).trans
    norm_num at hleft hright ⊢
    linarith
  have hsmall : |toRat x + toRat y| ≤ 2 ^ ((-43 : ℤ) + 54) := by
    have hle : |((n + m : ℤ) : ℚ)| ≤ 2 ^ 50 := by
      have : |n + m| ≤ 2 ^ 50 := by
        have := abs_add_le n m
        linarith
      exact_mod_cast this
    have hquotient : |((n + m : ℤ) : ℚ) / 10 ^ 12| ≤ 2 ^ 50 / 10 ^ 12 := by
      rw [abs_div, abs_of_pos (by norm_num : (0 : ℚ) < 10 ^ 12)]
      exact div_le_div_of_nonneg_right hle (by norm_num)
    have htriangle := abs_sub_abs_le_abs_sub (toRat x + toRat y) ((n + m : ℤ) / 10 ^ 12)
    norm_num at hquotient hsum htriangle ⊢
    linarith
  have hfinite : (x + y).isFinite := by
    apply isFinite_add hx.isFinite hy.isFinite
    exact hsmall.trans (zpow_le_zpow_right₀ (by norm_num) (by norm_num))
  refine ⟨hfinite, ?_⟩
  have hround := abs_nearest_sub_le_two_zpow hsmall (by norm_num)
  rw [← toRat_add hfinite] at hround
  have htriangle := abs_sub_le (toRat (x + y)) (toRat x + toRat y) ((n + m : ℤ) / 10 ^ 12)
  norm_num at hround hsum htriangle ⊢
  linarith

theorem roundToPrecision (hx : x.isFinite) (hn : |n| ≤ 2 ^ 50)
    (herror : |toRat x - n / 10 ^ 12| ≤ 2 ^ (-42 : ℤ)) : IsUnits (roundToPrecision x) n := by
  have hcases := roundToPrecision_cases hx
  have hscaled : |toRat x * 10 ^ 12 - n| ≤ 1 / 4 := by
    have hfactor : toRat x * 10 ^ 12 - n = (toRat x - n / 10 ^ 12) * 10 ^ 12 := by
      ring
    rw [hfactor, abs_mul, abs_of_pos (by norm_num : (0 : ℚ) < 10 ^ 12)]
    norm_num at herror ⊢
    linarith
  generalize toRat x * 10 ^ 12 = q at *
  have hn : |(n : ℚ)| ≤ 2 ^ 50 := by exact_mod_cast hn
  have hq : |q| ≤ 2 ^ ((-3 : ℤ) + 54) := by
    have htriangle := abs_sub_abs_le_abs_sub q n
    norm_num at hn ⊢
    linarith
  have hround := abs_nearest_sub_le_two_zpow hq (by norm_num)
  norm_num at hq hround
  rcases hcases with ⟨hlarge, -⟩ | ⟨-, m, hm, hunits⟩
  . have htriangle := abs_sub_abs_le_abs_sub (nearest q) q
    norm_num at hlarge
    linarith
  . have hclose : |((m - n : ℤ) : ℚ)| < 1 := by
      push_cast
      calc
        |(m : ℚ) - n| ≤ |m - nearest q| + |nearest q - n| := abs_sub_le _ _ _
        _ ≤ |m - nearest q| + (|nearest q - q| + |q - n|) := by
          gcongr
          exact abs_sub_le _ _ _
        _ < 1 := by linarith
    have hclose : |m - n| < 1 := by exact_mod_cast hclose
    rw [Int.abs_lt_one_iff, sub_eq_zero] at hclose
    rwa [hclose] at hunits

end IsUnits

end Number

open Number (IsUnits toRat)

/-! Decimals with at most twelve places. -/

namespace Decimal

theorem toRat_power (i : Fin 23) : (power i).isFinite ∧ toRat (power i) = 10 ^ i.val := by
  obtain ⟨m, e, hm, hunpack, -, hvalue⟩ := represents_power i
  obtain ⟨hfinite, htoRat⟩ := Number.toRat_of_unpack hunpack
  refine ⟨hfinite, ?_⟩
  rw [htoRat, hvalue]
  push_cast
  rfl

theorem isUnits_toFloat {n k : ℕ} (hn : n < 2 ^ 53) (hk : k ≤ 12) :
    IsUnits (Decimal.mk n (-k)).toFloat (n * 10 ^ (12 - k)) := by
  obtain ⟨hdigits, hn'⟩ := Number.toRat_toFloat hn
  obtain ⟨hpower, hten⟩ := toRat_power ⟨k, by omega⟩
  have hterm : ((n * 10 ^ (12 - k) : ℤ) : ℚ) / 10 ^ 12 = n / 10 ^ k := by
    have hsplit : (10 : ℚ) ^ 12 = 10 ^ (12 - k) * 10 ^ k := by
      rw [← pow_add, Nat.sub_add_cancel hk]
    push_cast
    rw [hsplit]
    field_simp
  have hsmall : |(n : ℚ)| ≤ 2 ^ (1023 : ℤ) := by
    have hn : (n : ℚ) ≤ 2 ^ (53 : ℤ) := by exact_mod_cast hn.le
    rw [Nat.abs_cast]
    exact hn.trans (zpow_le_zpow_right₀ (by norm_num) (by norm_num))
  rw [toFloat_small hn (by simp; omega)]
  simp only [Int.natAbs_neg, Int.natAbs_natCast]
  rcases Nat.eq_zero_or_pos k with rfl | hpos
  . rw [if_neg (by simp)]
    have hproduct : toRat n.toUInt64.toFloat * toRat (power ⟨0, by omega⟩) = n := by
      rw [hten, hn', pow_zero, mul_one]
    have hfinite := Number.isFinite_mul hdigits hpower (hproduct ▸ hsmall)
    constructor
    . exact hfinite
    . rw [Number.toRat_mul hfinite, hproduct, hterm, pow_zero, div_one]
  . rw [if_pos (by omega)]
    have hquotient : |toRat n.toUInt64.toFloat / toRat (power ⟨k, by omega⟩)| ≤ 2 ^ (1023 : ℤ) := by
      rw [hten, hn', abs_div]
      apply (div_le_self (abs_nonneg _) _).trans hsmall
      rw [abs_of_pos (by positivity)]
      exact one_le_pow₀ (by norm_num)
    have hfinite := Number.isFinite_div hdigits hpower (by rw [hten]; positivity) hquotient
    constructor
    . exact hfinite
    . rw [Number.toRat_div hfinite, hten, hterm, hn']

end Decimal

namespace Domain

structure HasUnits (d : Domain) (a b c : ℤ) : Prop where
  lower : IsUnits d.lower a
  step : IsUnits d.step b
  upper : IsUnits d.upper c
  abs_lower_le : |a| ≤ 2 ^ 49
  step_pos : 0 < b
  step_le : b ≤ 2 ^ 49
  abs_upper_le : |c| ≤ 2 ^ 49

namespace HasUnits

variable {d : Domain} {a b c n : ℤ} {value : Float} {limit k : ℕ}

/-! One round. -/

theorem le_upper_iff (h : d.HasUnits a b c) (hvalue : IsUnits value n) (hn : |n| ≤ 2 ^ 50) :
    value ≤ d.upper ↔ n ≤ c :=
  hvalue.le_iff h.upper hn (h.abs_upper_le.trans (by norm_num))

theorem next (h : d.HasUnits a b c) (hvalue : IsUnits value n) (hlower : a ≤ n)
    (hn : |n| ≤ 2 ^ 50) (hle : value ≤ d.upper) :
    IsUnits (d.next value) (n + b) ∧ |n + b| ≤ 2 ^ 50 ∧ ¬d.next value ≤ value := by
  have hc := (h.le_upper_iff hvalue hn).mp hle
  have hstep := h.step_pos
  have hstep' := h.step_le
  have hlow := abs_le.mp h.abs_lower_le
  have hhigh := abs_le.mp h.abs_upper_le
  have hn' : |n| ≤ 2 ^ 49 := abs_le.mpr ⟨by linarith, by linarith⟩
  have hb : |b| ≤ 2 ^ 49 := abs_le.mpr ⟨by linarith, hstep'⟩
  have hsum : |n + b| ≤ 2 ^ 50 := abs_le.mpr ⟨by linarith, by linarith⟩
  obtain ⟨hfinite, herror⟩ := hvalue.add h.step hn' hb
  have hnext : IsUnits (d.next value) (n + b) := .roundToPrecision hfinite hsum herror
  refine ⟨hnext, hsum, ?_⟩
  rw [hnext.le_iff hvalue hsum hn]
  linarith

/-! The whole generation. -/

theorem isUnits_iterate (h : d.HasUnits a b c)
    (hadvances : ∀ i < k, d.Advances (d.next^[i] d.lower)) :
    IsUnits (d.next^[k] d.lower) (a + k * b) ∧ |a + k * b| ≤ 2 ^ 50 := by
  induction k with
  | zero =>
    rw [Nat.cast_zero, zero_mul, add_zero]
    exact ⟨h.lower, h.abs_lower_le.trans (by norm_num)⟩
  | succ k ih =>
    obtain ⟨hunits, hsmall⟩ := ih fun i hi => hadvances i (Nat.lt_succ_of_lt hi)
    have hlower : a ≤ a + k * b := by
      have := mul_nonneg (Int.natCast_nonneg k) h.step_pos.le
      linarith
    have hterm : a + (k + 1 : ℕ) * b = a + k * b + b := by
      push_cast
      ring
    obtain ⟨hnext, hsmall', -⟩ := h.next hunits hlower hsmall (hadvances k (Nat.lt_succ_self k)).1
    rw [Function.iterate_succ_apply', hterm]
    exact ⟨hnext, hsmall'⟩

theorem values_eq (h : d.HasUnits a b c) (hlimit : d.estimatedLength ≤ limit) :
    ∃ n : ℕ, (∀ i : ℕ, i < n ↔ a + i * b ≤ c) ∧
      (∀ i < n, d.Advances (d.next^[i] d.lower)) ∧
      d.values limit .never = .ok (List.iterate d.next d.lower n, .never) := by
  obtain ⟨n, hadvances, hcases⟩ := values_cases hlimit
  obtain ⟨hunits, hsmall⟩ := h.isUnits_iterate hadvances
  have hlower : a ≤ a + n * b := by
    have := mul_nonneg (Int.natCast_nonneg n) h.step_pos.le
    linarith
  rcases hcases with ⟨hend, hvalues⟩ | ⟨⟨hle, hnext⟩, -⟩
  . refine ⟨n, ?_, hadvances, hvalues⟩
    rw [h.le_upper_iff hunits hsmall] at hend
    intro i
    constructor
    . intro hi
      obtain ⟨hunits, hsmall⟩ :=
        h.isUnits_iterate (k := i) fun j hj => hadvances j (hj.trans hi)
      exact (h.le_upper_iff hunits hsmall).mp (hadvances i hi).1
    . intro hi
      by_contra! hni
      have := mul_le_mul_of_nonneg_right (Int.ofNat_le.mpr hni) h.step_pos.le
      linarith
  . exact absurd hnext (h.next hunits hlower hsmall hle).2.2

end HasUnits

variable {d : Domain} {a b c : ℤ} {limit : ℕ}

/--
The values of a domain with at most twelve decimal places are the numbers nearest to the terms of
the progression, however many there are. The upper end is one of them if and only if it is a term.
-/
theorem values_progression (h : d.HasUnits a b c) (hlimit : d.estimatedLength ≤ limit) :
    ∃ values n, d.values limit .never = .ok (values, .never) ∧
      (∀ i : ℕ, i < n ↔ a + i * b ≤ c) ∧
      (∀ v ∈ values, v.isFinite) ∧
      values.map toRat = (List.range n).map (fun i : ℕ => nearest ((a + i * b : ℤ) / 10 ^ 12)) ∧
      (toRat d.upper ∈ values.map toRat ↔ ∃ i : ℕ, c = a + i * b) := by
  obtain ⟨n, hn, hadvances, hvalues⟩ := h.values_eq hlimit
  have hunits : ∀ i < n, IsUnits (d.next^[i] d.lower) (a + i * b) ∧ |a + i * b| ≤ 2 ^ 50 := by
    intro i hi
    exact h.isUnits_iterate fun j hj => hadvances j (hj.trans hi)
  have hterms : (List.iterate d.next d.lower n).map toRat
      = (List.range n).map (fun i : ℕ => nearest ((a + i * b : ℤ) / 10 ^ 12)) := by
    rw [← List.range_map_iterate, List.map_map]
    apply List.map_congr_left
    intro i hi
    exact (hunits i (List.mem_range.mp hi)).1.toRat_eq
  refine ⟨_, n, hvalues, hn, ?_, hterms, ?_⟩
  . intro v hv
    obtain ⟨i, hi, rfl⟩ := List.mem_iterate.mp hv
    exact (hunits i hi).1.isFinite
  . rw [hterms, List.mem_map]
    constructor
    . rintro ⟨i, hi, hterm⟩
      refine ⟨i, ?_⟩
      have hc : |c| ≤ 2 ^ 50 := h.abs_upper_le.trans (by norm_num)
      exact (h.upper.toRat_eq_iff hc (hunits i (List.mem_range.mp hi)).2).mp hterm.symm
    . rintro ⟨i, rfl⟩
      refine ⟨i, ?_, h.upper.toRat_eq.symm⟩
      rw [List.mem_range, hn]

theorem values_progression_tenths :
    ∃ d, parse "x:-0.3:0.1:0.3" = .ok d ∧
      d.HasUnits (-300000000000) 100000000000 300000000000 ∧ d.estimatedLength ≤ 7 ∧
      ∃ values, d.values 7 .never = .ok (values, .never) ∧ values.length = 7 ∧
        toRat d.upper ∈ values.map toRat := by
  have htenth : IsUnits (Decimal.mk 1 (-1)).toFloat 100000000000 :=
    Decimal.isUnits_toFloat (n := 1) (k := 1) (by norm_num) (by norm_num)
  have hend : IsUnits (Decimal.mk 3 (-1)).toFloat 300000000000 :=
    Decimal.isUnits_toFloat (n := 3) (k := 1) (by norm_num) (by norm_num)
  let d : Domain :=
    { name := "x"
      lower := -(Decimal.mk 3 (-1)).toFloat
      step := (Decimal.mk 1 (-1)).toFloat
      upper := (Decimal.mk 3 (-1)).toFloat
      step_pos := by decide +kernel }
  have hd : d.HasUnits (-300000000000) 100000000000 300000000000 :=
    ⟨hend.neg, htenth, hend, by norm_num, by norm_num, by norm_num, by norm_num⟩
  have hlength : d.estimatedLength ≤ 7 := by
    decide +kernel
  obtain ⟨values, n, hvalues, hn, -, hterms, hupper⟩ := values_progression hd hlength
  refine ⟨d, ?_, hd, hlength, values, hvalues, ?_, ?_⟩
  . rfl
  . have hcount : values.length = n := by
      simpa using congrArg List.length hterms
    have hlast := hn 6
    have hbeyond := hn 7
    omega
  . rw [hupper]
    exact ⟨6, by norm_num⟩

end Domain

end Sweep
