import Sweep.Proofs.Precision

/-!
This module contains the distances between the values of a domain. A step goes on by at least a
third of the declared step, whatever the roundings are.
-/

namespace Sweep

open Rounding (Representable nearest representable_top)

variable {v v' s p : ℚ}

inductive Stride (v s : ℚ) : ℚ → Prop
  -- up to 8192 the sum is rounded once more, to twelve decimal places
  | near (n : ℤ) : |nearest (v + s)| < 8192 → |n| ≤ 8192 * 10 ^ 12 →
      |n - nearest (v + s) * 10 ^ 12| ≤ 1 → Stride v s (nearest (n / 10 ^ 12))
  | far : 8192 ≤ |nearest (v + s)| → Stride v s (nearest (v + s))

inductive Anchor : ℚ → ℚ → Prop
  -- before its last rounding a small value is a multiple of the last decimal place
  | near (n : ℤ) : |n| ≤ 8192 * 10 ^ 12 → Anchor (nearest (n / 10 ^ 12)) (n / 10 ^ 12)
  | far (q) : Representable q → 8192 < |q| → Anchor q q

theorem Domain.stride_next {d : Domain} {value : Float} (h : (d.next value).isFinite) :
    Stride (Number.toRat value) (Number.toRat d.step) (Number.toRat (d.next value)) := by
  have hsum := Number.isFinite_of_roundToPrecision h
  have htoRat := Number.toRat_add hsum
  rcases lt_or_ge |Number.toRat (value + d.step)| 8192 with hsmall | hlarge
  . obtain ⟨n, hn, herror, hresult⟩ := Number.toRat_roundToPrecision_of_le hsum hsmall.le
    unfold next
    rw [hresult]
    rw [htoRat] at hsmall herror
    exact .near n hsmall hn herror
  . have hresult := Number.toRat_roundToPrecision_of_ge hsum hlarge
    unfold next
    rw [hresult]
    rw [htoRat] at hlarge ⊢
    exact .far hlarge

theorem abs_nearest_sub_le_of_le {q : ℚ} (h : |q| ≤ 8192) :
    |nearest q - q| ≤ 23 / 50 / 10 ^ 12 := by
  have hpower : (2 : ℚ) ^ (-41 + 54 : ℤ) = 8192 := by norm_num
  rw [← hpower] at h
  calc
    |nearest q - q| ≤ 2 ^ (-41 : ℤ) := Rounding.abs_nearest_sub_le_two_zpow h (by norm_num)
    _ ≤ 23 / 50 / 10 ^ 12 := by norm_num

theorem abs_units_le {n : ℤ} (h : |n| ≤ 8192 * 10 ^ 12) : |(n / 10 ^ 12 : ℚ)| ≤ 8192 := by
  rw [abs_div, abs_of_pos (by norm_num : (0 : ℚ) < 10 ^ 12), div_le_iff₀ (by norm_num)]
  exact_mod_cast h

theorem units_lt_units {n m : ℤ} (h : (n / 10 ^ 12 : ℚ) < m / 10 ^ 12) :
    (1 / 10 ^ 12 : ℚ) ≤ m / 10 ^ 12 - n / 10 ^ 12 := by
  have hlt : (n : ℚ) < m := (div_lt_div_iff_of_pos_right (by norm_num)).mp h
  have hle : (n + 1 : ℚ) ≤ m := by exact_mod_cast hlt
  rw [← sub_div]
  exact div_le_div_of_nonneg_right (by linarith) (by norm_num)

namespace Anchor

theorem representable (h : Anchor v p) : Representable v := by
  cases h with
  | near n hn => exact Rounding.representable_nearest _
  | far _ hv => exact hv

theorem abs_sub_le (h : Anchor v p) : |v - p| ≤ 23 / 50 / 10 ^ 12 := by
  cases h with
  | near n hn => exact abs_nearest_sub_le_of_le (abs_units_le hn)
  | far =>
    rw [sub_self, abs_zero]
    positivity

theorem self (hv : Representable v) (h : 8192 ≤ |v|) : Anchor v v := by
  rcases lt_or_eq_of_le h with hlt | heq
  . exact .far v hv hlt
  . obtain ⟨n, hn, hunits⟩ : ∃ n : ℤ, |n| ≤ 8192 * 10 ^ 12 ∧ (n / 10 ^ 12 : ℚ) = v := by
      rcases abs_choice v with habs | habs
      . exact ⟨8192 * 10 ^ 12, by norm_num, by push_cast; linarith⟩
      . exact ⟨-(8192 * 10 ^ 12), by norm_num, by push_cast; linarith⟩
    have hnear := Anchor.near n hn
    rwa [hunits, Rounding.nearest_of_representable hv] at hnear

end Anchor

theorem unit_le_sub (hv : Representable v) (hv' : Representable v') (hlt : v < v')
    (h : 8192 ≤ |v|) (h' : 8192 ≤ |v'|) : 1 / 10 ^ 12 ≤ v' - v := by
  have hpower : (2 : ℚ) ^ 52 * 2 ^ (-39 : ℤ) = 8192 := by norm_num
  rw [← hpower] at h h'
  have := hv.two_zpow_le_sub hv' hlt h h'
  norm_num at this ⊢
  linarith

namespace Stride

theorem units_ge {n : ℤ} {q : ℚ} (h : |n - q * 10 ^ 12| ≤ 1) :
    q - 1 / 10 ^ 12 ≤ n / 10 ^ 12 := by
  have := (abs_le.mp h).1
  rw [le_div_iff₀ (by norm_num), sub_mul, div_mul_cancel₀ _ (by norm_num)]
  linarith

theorem near_advance {n : ℤ} (hsum : |nearest (v + s)| < 8192) (hn : |n| ≤ 8192 * 10 ^ 12)
    (herror : |n - nearest (v + s) * 10 ^ 12| ≤ 1) (ha : Anchor v p)
    (hlt : v < nearest (n / 10 ^ 12)) :
    1 / 10 ^ 12 ≤ n / 10 ^ 12 - p ∧ 25 * s ≤ 73 * (n / 10 ^ 12 - p) := by
  have hunit : 1 / 10 ^ 12 ≤ n / 10 ^ 12 - p := by
    cases ha with
    | near m hm =>
      apply units_lt_units
      by_contra! hle
      exact not_lt_of_ge (Rounding.nearest_mono hle) hlt
    | far v hv hlarge =>
      have hplace := abs_le.mp (abs_units_le hn)
      have hresult := Rounding.nearest_le representable_top hplace.2
      have hlow : v < -8192 := by
        rcases lt_abs.mp hlarge with h | h <;> linarith
      have := unit_le_sub hv representable_top.neg hlow hlarge.le (by norm_num)
      linarith
  refine ⟨hunit, ?_⟩
  have hsmall : |v + s| ≤ 8192 := by
    by_contra! hlarge
    exact not_lt_of_ge (Rounding.le_abs_nearest representable_top hlarge.le) hsum
  have hrounded := abs_le.mp (abs_nearest_sub_le_of_le hsmall)
  have hplace := abs_le.mp ha.abs_sub_le
  have hunits := units_ge herror
  linarith

theorem far_advance (hsum : 8192 ≤ |nearest (v + s)|) (ha : Anchor v p)
    (hlt : v < nearest (v + s)) :
    1 / 10 ^ 12 ≤ nearest (v + s) - p ∧ 25 * s ≤ 73 * (nearest (v + s) - p) := by
  have hrepresentable := Rounding.representable_nearest (v + s)
  have hhalf := ha.representable.sub_le_two_mul hlt
  have hplace := abs_le.mp ha.abs_sub_le
  have hunit : 1 / 10 ^ 12 ≤ nearest (v + s) - p := by
    generalize nearest (v + s) = w at *
    cases ha with
    | near m hm =>
      have hunits := abs_le.mp (abs_units_le hm)
      have hlow := Rounding.le_nearest representable_top.neg hunits.1
      have hlarge : 8192 ≤ w := by
        rcases le_abs.mp hsum with h | h <;> linarith
      rcases lt_or_eq_of_le hlarge with hgt | heq
      . have := unit_le_sub representable_top hrepresentable hgt (by norm_num) hsum
        linarith
      . have htop : ((8192 * 10 ^ 12 : ℤ) / 10 ^ 12 : ℚ) = 8192 := by norm_num
        rw [← heq] at hlt ⊢
        rw [← htop]
        apply units_lt_units
        rw [htop]
        by_contra! hle
        exact not_lt_of_ge (Rounding.le_nearest representable_top hle) hlt
    | far v hv hlarge => exact unit_le_sub hv hrepresentable hlt hlarge.le hsum
  refine ⟨hunit, ?_⟩
  linarith

theorem advance (h : Stride v s v') (ha : Anchor v p) (hlt : v < v') :
    ∃ p', Anchor v' p' ∧ 1 / 10 ^ 12 ≤ p' - p ∧ 25 * s ≤ 73 * (p' - p) := by
  cases h with
  | near n hsum hn herror => exact ⟨_, .near n hn, near_advance hsum hn herror ha hlt⟩
  | far hsum =>
    exact ⟨_, .self (Rounding.representable_nearest _) hsum, far_advance hsum ha hlt⟩

theorem sub_le (h : Stride v s v') (hv : Representable v) (hs : Representable s) :
    v + s - v' ≤ 3 / 2 / 10 ^ 12 + |v + s| / 2 ^ 53 := by
  have hsum := abs_le.mp (hv.abs_nearest_add_sub_le hs)
  cases h with
  | near n _ hn herror =>
    have hplace := abs_le.mp (abs_nearest_sub_le_of_le (abs_units_le hn))
    have hunits := units_ge herror
    linarith
  | far => linarith

theorem exists_anchor (h : Stride v s v') : ∃ p, Anchor v' p := by
  cases h with
  | near n _ hn => exact ⟨_, .near n hn⟩
  | far hsum => exact ⟨_, .self (Rounding.representable_nearest _) hsum⟩

end Stride

end Sweep
