import Mathlib

/-!
This module contains the rounding of exact numbers: to the nearest whole number and to the nearest
number with a mantissa of 53 binary digits, a half going to the even neighbour. The exponent has a
lower end as in numbers of 64 bits, but no upper one.
-/

namespace Sweep.Rounding

/-! Whole numbers. -/

def roundEven (x : ℚ) : ℤ :=
  if x - ⌊x⌋ < 1 / 2 then
    ⌊x⌋
  else if 1 / 2 < x - ⌊x⌋ then
    ⌊x⌋ + 1
  else
    ⌊x⌋ + ⌊x⌋ % 2

variable {x y q v : ℚ} {e k : ℤ}

theorem abs_roundEven_sub_le (x : ℚ) : |roundEven x - x| ≤ 1 / 2 := by
  have hlow := Int.floor_le x
  have hhigh := Int.lt_floor_add_one x
  unfold roundEven
  split
  . rw [abs_le]
    constructor <;> linarith
  . split
    . push_cast
      rw [abs_le]
      constructor <;> linarith
    . have hparity : ⌊x⌋ % 2 = 0 ∨ ⌊x⌋ % 2 = 1 := by omega
      rcases hparity with h | h <;> rw [h] <;> push_cast <;> rw [abs_le] <;>
        constructor <;> linarith

theorem roundEven_intCast (n : ℤ) : roundEven n = n := by
  simp [roundEven]

theorem roundEven_neg (x : ℚ) : roundEven (-x) = -roundEven x := by
  have hlow := Int.floor_le x
  have hhigh := Int.lt_floor_add_one x
  by_cases hx : x = ⌊x⌋
  . rw [hx, ← Int.cast_neg, roundEven_intCast, roundEven_intCast]
  . have hlt : (⌊x⌋ : ℚ) < x := lt_of_le_of_ne hlow (Ne.symm hx)
    have hfloor : ⌊-x⌋ = -⌊x⌋ - 1 := by
      rw [Int.floor_eq_iff]
      push_cast
      constructor <;> linarith
    unfold roundEven
    rw [hfloor]
    push_cast
    -- the fractions of `x` and `-x` add up to one
    rcases lt_trichotomy (x - ⌊x⌋) (1 / 2) with h | h | h
    . rw [if_pos h, if_neg (by linarith), if_pos (by linarith)]
      omega
    . rw [if_neg (by linarith), if_neg (by linarith), if_neg (by linarith), if_neg (by linarith)]
      omega
    . rw [if_pos (by linarith), if_neg (by linarith), if_pos h]
      omega

theorem abs_roundEven_sub_le_of_int (x : ℚ) (n : ℤ) : |roundEven x - x| ≤ |n - x| := by
  by_cases h : roundEven x = n
  . rw [h]
  . have hint : 1 ≤ |roundEven x - n| := Int.one_le_abs (sub_ne_zero.mpr h)
    have hone : (1 : ℚ) ≤ |(roundEven x : ℚ) - n| := by exact_mod_cast hint
    have herror := abs_roundEven_sub_le x
    have htriangle := abs_sub_le (roundEven x : ℚ) x n
    rw [abs_sub_comm x n] at htriangle
    linarith

theorem abs_roundEven_le {n : ℤ} (h : |x| ≤ n) : |roundEven x| ≤ n := by
  have herror := abs_le.mp (abs_roundEven_sub_le x)
  have hx := abs_le.mp h
  have hlow : -((n : ℚ) + 1) < roundEven x := by linarith
  have hhigh : (roundEven x : ℚ) < n + 1 := by linarith
  have hlow : -(n + 1) < roundEven x := by exact_mod_cast hlow
  have hhigh : roundEven x < n + 1 := by exact_mod_cast hhigh
  rw [abs_le]
  omega

theorem le_abs_roundEven {n : ℤ} (h : n ≤ |x|) : n ≤ |roundEven x| := by
  have herror := abs_roundEven_sub_le x
  have htriangle := abs_sub_abs_le_abs_sub x (roundEven x)
  rw [abs_sub_comm] at htriangle
  have hlt : (n : ℚ) < |(roundEven x : ℚ)| + 1 := by linarith
  have hlt : n < |roundEven x| + 1 := by exact_mod_cast hlt
  omega

/-! Numbers with 53 binary digits. -/

theorem two_zpow_pos (e : ℤ) : (0 : ℚ) < 2 ^ e :=
  zpow_pos (by norm_num) e

theorem two_zpow_add (e : ℤ) (n : ℕ) : (2 : ℚ) ^ (e + n) = 2 ^ n * 2 ^ e := by
  rw [zpow_add₀ (by norm_num), zpow_natCast, mul_comm]

def Representable (q : ℚ) : Prop :=
  ∃ (m : ℤ) (e : ℤ), |m| < 2 ^ 53 ∧ -1074 ≤ e ∧ q = m * 2 ^ e

theorem representable_zero : Representable 0 :=
  ⟨0, 0, by norm_num, by norm_num, by norm_num⟩

theorem Representable.neg (h : Representable q) : Representable (-q) := by
  obtain ⟨m, e, hm, he, rfl⟩ := h
  exact ⟨-m, e, by rwa [abs_neg], he, by push_cast; ring⟩

theorem representable_mul_two_zpow {m : ℤ} (hm : |m| ≤ 2 ^ 53) (he : -1074 ≤ e) :
    Representable (m * 2 ^ e) := by
  rcases lt_or_eq_of_le hm with hlt | heq
  . exact ⟨m, e, hlt, he, rfl⟩
  . -- the last binary digit of the mantissa is zero
    refine ⟨m / 2, e + 1, ?_, by omega, ?_⟩
    . rcases abs_choice m with h | h <;> rw [h] at heq
      . rw [heq]
        norm_num
      . rw [show m = -2 ^ 53 by omega]
        norm_num
    . have heven : m = m / 2 * 2 := by
        rcases abs_choice m with h | h <;> omega
      rw [zpow_add_one₀ (by norm_num)]
      conv_lhs => rw [heven]
      push_cast
      ring

theorem representable_intCast {n : ℤ} (h : |n| ≤ 2 ^ 53) : Representable n := by
  have := representable_mul_two_zpow (e := 0) h (by norm_num)
  rwa [zpow_zero, mul_one] at this

theorem representable_natCast {n : Nat} (h : n ≤ 2 ^ 53) : Representable n := by
  have hcast : |(n : ℤ)| ≤ 2 ^ 53 := by
    rw [abs_of_nonneg (Int.natCast_nonneg n)]
    exact_mod_cast h
  exact_mod_cast representable_intCast hcast

theorem representable_two_zpow (he : -1074 ≤ e) : Representable (2 ^ e) := by
  have := representable_mul_two_zpow (m := 1) (by norm_num) he
  rwa [Int.cast_one, one_mul] at this

theorem representable_top : Representable 8192 := by
  exact_mod_cast representable_intCast (n := 8192) (by norm_num)

theorem Representable.multiple (h : Representable y) (he : 2 ^ 52 * 2 ^ e ≤ |y| ∨ e ≤ -1074) :
    ∃ n : ℤ, y = n * 2 ^ e := by
  obtain ⟨m, f, hm, hf, rfl⟩ := h
  have hle : e ≤ f := by
    rcases he with he | he
    . rw [abs_mul, abs_of_pos (two_zpow_pos f), ← two_zpow_add] at he
      have hm : |(m : ℚ)| < 2 ^ 53 := by exact_mod_cast hm
      have hlt : (2 : ℚ) ^ (e + (52 : ℕ)) < 2 ^ (f + (53 : ℕ)) := by
        calc
          (2 : ℚ) ^ (e + (52 : ℕ)) ≤ |(m : ℚ)| * 2 ^ f := he
          _ < 2 ^ 53 * 2 ^ f := mul_lt_mul_of_pos_right hm (two_zpow_pos f)
          _ = 2 ^ (f + (53 : ℕ)) := (two_zpow_add f 53).symm
      have := (zpow_lt_zpow_iff_right₀ (by norm_num)).mp hlt
      omega
    . omega
  obtain ⟨k, rfl⟩ := Int.le.dest hle
  refine ⟨m * 2 ^ k, ?_⟩
  rw [two_zpow_add]
  push_cast
  ring

theorem Representable.exists_int (h : Representable y) (hy : 2 ^ 52 ≤ |y|) : ∃ n : ℤ, y = n := by
  obtain ⟨n, hn⟩ := h.multiple (e := 0) (by rw [zpow_zero, mul_one]; exact .inl hy)
  rw [zpow_zero, mul_one] at hn
  exact ⟨n, hn⟩

def lastPlace (q : ℚ) : ℤ :=
  max (Int.log 2 |q| - 52) (-1074)

def nearest (q : ℚ) : ℚ :=
  roundEven (q / 2 ^ lastPlace q) * 2 ^ lastPlace q

theorem two_zpow_log_le (h : q ≠ 0) : (2 : ℚ) ^ Int.log 2 |q| ≤ |q| := by
  exact_mod_cast Int.zpow_log_le_self (b := 2) (by norm_num) (abs_pos.mpr h)

theorem abs_lt_two_zpow (q : ℚ) : |q| < 2 ^ (Int.log 2 |q| + 1) := by
  exact_mod_cast Int.lt_zpow_succ_log_self (b := 2) (by norm_num) |q|

theorem abs_lt_lastPlace (q : ℚ) : |q| < 2 ^ 53 * 2 ^ lastPlace q := by
  calc
    |q| < 2 ^ (Int.log 2 |q| + 1) := abs_lt_two_zpow q
    _ ≤ 2 ^ (lastPlace q + 53) := by
      apply zpow_le_zpow_right₀ (by norm_num)
      unfold lastPlace
      omega
    _ = 2 ^ 53 * 2 ^ lastPlace q := two_zpow_add _ 53

theorem abs_mantissa_le (q : ℚ) : |roundEven (q / 2 ^ lastPlace q)| ≤ 2 ^ 53 := by
  apply abs_roundEven_le
  rw [abs_div, abs_of_pos (two_zpow_pos _), div_le_iff₀ (two_zpow_pos _)]
  exact_mod_cast (abs_lt_lastPlace q).le

theorem lastPlace_eq_or_le_abs (h : q ≠ 0) :
    lastPlace q = -1074 ∨ 2 ^ 52 * 2 ^ lastPlace q ≤ |q| := by
  by_cases hplace : lastPlace q = -1074
  . exact .inl hplace
  . right
    have hlog : lastPlace q + 52 = Int.log 2 |q| := by
      unfold lastPlace at *
      omega
    have hself := two_zpow_log_le h
    rw [← hlog] at hself
    rw [← two_zpow_add]
    exact_mod_cast hself

theorem lastPlace_eq_or_le_abs_mantissa (h : q ≠ 0) :
    lastPlace q = -1074 ∨ 2 ^ 52 ≤ |roundEven (q / 2 ^ lastPlace q)| := by
  rcases lastPlace_eq_or_le_abs h with hplace | hlarge
  . exact .inl hplace
  . right
    apply le_abs_roundEven
    rw [abs_div, abs_of_pos (two_zpow_pos _), le_div_iff₀ (two_zpow_pos _)]
    exact_mod_cast hlarge

theorem nearest_zero : nearest 0 = 0 := by
  unfold nearest
  rw [zero_div, ← Int.cast_zero, roundEven_intCast, Int.cast_zero, zero_mul]

theorem nearest_neg (q : ℚ) : nearest (-q) = -nearest q := by
  have hplace : lastPlace (-q) = lastPlace q := by
    unfold lastPlace
    rw [abs_neg]
  unfold nearest
  rw [hplace, neg_div, roundEven_neg]
  push_cast
  ring

theorem representable_nearest (q : ℚ) : Representable (nearest q) := by
  apply representable_mul_two_zpow (abs_mantissa_le q)
  unfold lastPlace
  omega

theorem abs_roundEven_mul_sub_le (q : ℚ) {h : ℚ} (hpos : 0 < h) (n : ℤ) :
    |roundEven (q / h) * h - q| ≤ |n * h - q| := by
  have hscale : ∀ r : ℚ, |r * h - q| = |r - q / h| * h := by
    intro r
    rw [← abs_of_pos hpos, ← abs_mul, abs_of_pos hpos, sub_mul, div_mul_cancel₀ _ hpos.ne']
  rw [hscale, hscale]
  exact mul_le_mul_of_nonneg_right (abs_roundEven_sub_le_of_int _ n) hpos.le

theorem abs_roundEven_mul_sub_le_half (q : ℚ) {h : ℚ} (hpos : 0 < h) :
    |roundEven (q / h) * h - q| ≤ h / 2 := by
  have hscale : |roundEven (q / h) * h - q| = |roundEven (q / h) - q / h| * h := by
    rw [← abs_of_pos hpos, ← abs_mul, abs_of_pos hpos, sub_mul, div_mul_cancel₀ _ hpos.ne']
  rw [hscale]
  have := mul_le_mul_of_nonneg_right (abs_roundEven_sub_le (q / h)) hpos.le
  linarith

theorem abs_sub_or_abs_neg_sub {a : ℚ} (h : a ≤ |q|) :
    |a - q| = |q| - a ∨ |-a - q| = |q| - a := by
  rcases abs_choice q with habs | habs
  . left
    rw [abs_sub_comm, abs_of_nonneg (by linarith), habs]
  . right
    rw [abs_of_nonneg (by linarith), habs]
    ring

theorem abs_nearest_sub_le (q : ℚ) (h : Representable y) : |nearest q - q| ≤ |y - q| := by
  by_cases hq : q = 0
  . rw [hq, nearest_zero, sub_zero, abs_zero]
    positivity
  . have hnearest : ∀ n : ℤ, |nearest q - q| ≤ |n * 2 ^ lastPlace q - q| :=
      abs_roundEven_mul_sub_le q (two_zpow_pos _)
    by_cases hlarge : 2 ^ 52 * 2 ^ lastPlace q ≤ |y| ∨ lastPlace q ≤ -1074
    . obtain ⟨n, rfl⟩ := h.multiple hlarge
      exact hnearest n
    . push Not at hlarge
      obtain ⟨hy, hplace⟩ := hlarge
      have hself := (lastPlace_eq_or_le_abs hq).resolve_left hplace.ne'
      -- the power of two between `y` and `q` is a candidate that is nearer than `y`
      have hcandidate : |nearest q - q| ≤ |q| - 2 ^ 52 * 2 ^ lastPlace q := by
        rcases abs_sub_or_abs_neg_sub hself with habs | habs
        . have := hnearest (2 ^ 52)
          rwa [Int.cast_pow, Int.cast_ofNat, habs] at this
        . have := hnearest (-2 ^ 52)
          rwa [Int.cast_neg, Int.cast_pow, Int.cast_ofNat, neg_mul, habs] at this
      have htriangle := abs_sub_abs_le_abs_sub q y
      rw [abs_sub_comm y q]
      linarith

theorem nearest_of_representable (h : Representable q) : nearest q = q := by
  have := abs_nearest_sub_le q h
  rw [sub_self, abs_zero] at this
  exact sub_eq_zero.mp (abs_nonpos_iff.mp this)

theorem nearest_mono : Monotone nearest := by
  intro x y hle
  rcases eq_or_lt_of_le hle with rfl | hlt
  . exact le_refl _
  . by_contra! hswap
    have hx := abs_nearest_sub_le x (representable_nearest y)
    have hy := abs_nearest_sub_le y (representable_nearest x)
    rw [← sq_le_sq] at hx hy
    nlinarith

theorem le_nearest (h : Representable y) (hle : y ≤ q) : y ≤ nearest q := by
  rw [← nearest_of_representable h]
  exact nearest_mono hle

theorem nearest_le (h : Representable y) (hle : q ≤ y) : nearest q ≤ y := by
  rw [← nearest_of_representable h]
  exact nearest_mono hle

theorem abs_nearest_le (h : Representable y) (hle : |q| ≤ y) : |nearest q| ≤ y := by
  rw [abs_le] at *
  exact ⟨le_nearest h.neg hle.1, nearest_le h hle.2⟩

theorem le_abs_nearest (h : Representable y) (hle : y ≤ |q|) : y ≤ |nearest q| := by
  rw [le_abs] at *
  rcases hle with hle | hle
  . exact .inl (le_nearest h hle)
  . right
    rw [← nearest_neg]
    exact le_nearest h hle

/-! The distance to the rounded number. -/

theorem abs_nearest_sub_le_half_place (q : ℚ) : |nearest q - q| ≤ 2 ^ lastPlace q / 2 :=
  abs_roundEven_mul_sub_le_half q (two_zpow_pos _)

theorem abs_nearest_sub_le_two_zpow (hq : |q| ≤ 2 ^ (k + 54)) (hk : -1075 ≤ k) :
    |nearest q - q| ≤ 2 ^ k := by
  have hsplit : (2 : ℚ) ^ (k + 54) = 2 ^ 53 * 2 ^ (k + 1) := by
    rw [← two_zpow_add]
    congr 1
    push_cast
    ring
  have hrepresentable : Representable (roundEven (q / 2 ^ (k + 1)) * 2 ^ (k + 1)) := by
    apply representable_mul_two_zpow
    . apply abs_roundEven_le
      rw [abs_div, abs_of_pos (two_zpow_pos _), div_le_iff₀ (two_zpow_pos _)]
      rw [hsplit] at hq
      exact_mod_cast hq
    . omega
  calc
    |nearest q - q| ≤ |roundEven (q / 2 ^ (k + 1)) * 2 ^ (k + 1) - q| :=
      abs_nearest_sub_le q hrepresentable
    _ ≤ 2 ^ (k + 1) / 2 := abs_roundEven_mul_sub_le_half q (two_zpow_pos _)
    _ = 2 ^ k := by
      rw [zpow_add_one₀ (by norm_num)]
      ring

theorem nearest_eq_self_of_multiple {n : ℤ} (h : q = n * 2 ^ lastPlace q) : nearest q = q := by
  unfold nearest
  nth_rewrite 1 [h]
  rw [mul_div_cancel_right₀ _ (two_zpow_pos _).ne', roundEven_intCast, ← h]

theorem abs_nearest_sub_le_abs (h : 2 ^ (-1022 : ℤ) ≤ |q| ∨ ∃ n : ℤ, q = n * 2 ^ (-1074 : ℤ)) :
    |nearest q - q| ≤ |q| / 2 ^ 53 := by
  have hcases : nearest q = q ∨ 2 ^ 52 * 2 ^ lastPlace q ≤ |q| := by
    by_cases hq : q = 0
    . left
      rw [hq, nearest_zero]
    . rcases lastPlace_eq_or_le_abs hq with hplace | hlarge
      . rcases h with h | ⟨n, hn⟩
        . right
          rw [hplace, ← two_zpow_add]
          exact h
        . left
          rw [← hplace] at hn
          exact nearest_eq_self_of_multiple hn
      . exact .inr hlarge
  rcases hcases with hexact | hlarge
  . rw [hexact, sub_self, abs_zero]
    positivity
  . have := abs_nearest_sub_le_half_place q
    rw [le_div_iff₀ (by norm_num)]
    linarith

theorem Representable.abs_nearest_add_sub_le (hx : Representable x) (hy : Representable y) :
    |nearest (x + y) - (x + y)| ≤ |x + y| / 2 ^ 53 := by
  obtain ⟨n, hn⟩ := hx.multiple (e := -1074) (.inr le_rfl)
  obtain ⟨m, hm⟩ := hy.multiple (e := -1074) (.inr le_rfl)
  apply abs_nearest_sub_le_abs
  right
  refine ⟨n + m, ?_⟩
  rw [Int.cast_add, add_mul, ← hn, ← hm]

theorem nearest_intCast (n : ℤ) : ∃ m : ℤ, nearest n = m := by
  by_cases hn : |n| ≤ 2 ^ 53
  . exact ⟨n, nearest_of_representable (representable_intCast hn)⟩
  . have hpower := representable_intCast (n := 2 ^ 52) (by norm_num)
    have hlarge := le_abs_nearest (q := n) hpower (by exact_mod_cast (by omega))
    exact (representable_nearest n).exists_int (by exact_mod_cast hlarge)

/-! The distance between two numbers. -/

theorem two_zpow_le_sub {n m : ℤ} (h : n * (2 : ℚ) ^ e < m * 2 ^ e) :
    (2 : ℚ) ^ e ≤ m * 2 ^ e - n * 2 ^ e := by
  have hpos := two_zpow_pos e
  have hlt : n < m := by
    exact_mod_cast lt_of_mul_lt_mul_right h hpos.le
  have hle : (n : ℚ) + 1 ≤ m := by exact_mod_cast hlt
  nlinarith

theorem Representable.two_zpow_le_sub (hx : Representable x) (hy : Representable y) (h : x < y)
    (hxlarge : 2 ^ 52 * 2 ^ e ≤ |x|) (hylarge : 2 ^ 52 * 2 ^ e ≤ |y|) : 2 ^ e ≤ y - x := by
  obtain ⟨n, rfl⟩ := hx.multiple (.inl hxlarge)
  obtain ⟨m, rfl⟩ := hy.multiple (.inl hylarge)
  exact Rounding.two_zpow_le_sub h

theorem Representable.eq_of_abs_sub_lt (hx : Representable x) (hy : Representable y)
    (hxlarge : 2 ^ 52 * 2 ^ e ≤ |x|) (hylarge : 2 ^ 52 * 2 ^ e ≤ |y|) (h : |y - x| < 2 ^ e) :
    x = y := by
  rcases lt_trichotomy x y with hlt | heq | hlt
  . have := hx.two_zpow_le_sub hy hlt hxlarge hylarge
    exact (not_lt_of_ge (this.trans (le_abs_self _)) h).elim
  . exact heq
  . have := hy.two_zpow_le_sub hx hlt hylarge hxlarge
    rw [abs_sub_comm] at h
    exact (not_lt_of_ge (this.trans (le_abs_self _)) h).elim

theorem two_zpow_lastPlace (q : ℚ) : (2 : ℚ) ^ lastPlace q = 2 * 2 ^ (lastPlace q - 1) := by
  rw [← zpow_one_add₀ (by norm_num)]
  congr 1
  ring

theorem Representable.multiple_of_abs_sub_lt (hv : Representable v) (hq : q ≠ 0)
    (h : |nearest q - v| < 2 ^ (lastPlace q - 1)) : ∃ n : ℤ, v = n * 2 ^ (lastPlace q - 1) := by
  apply hv.multiple
  by_cases hplace : lastPlace q ≤ -1074
  . right
    omega
  . left
    have hself := (lastPlace_eq_or_le_abs hq).resolve_left (by omega)
    have hpower := representable_mul_two_zpow (m := 2 ^ 52) (by norm_num) (not_le.mp hplace).le
    have hnearest := le_abs_nearest hpower (by exact_mod_cast hself)
    have htriangle := abs_sub_abs_le_abs_sub (nearest q) v
    have hpos := two_zpow_pos (lastPlace q - 1)
    push_cast at hnearest
    rw [two_zpow_lastPlace] at hnearest
    linarith

theorem Representable.sub_le_two_mul (hv : Representable v) (h : v < nearest q) :
    q - v ≤ 2 * (nearest q - v) := by
  rcases le_or_gt q (nearest q) with hle | hlt
  . linarith
  . have herror := abs_le.mp (abs_nearest_sub_le_half_place q)
    have hhalf := two_zpow_lastPlace q
    suffices hstep : 2 ^ (lastPlace q - 1) ≤ nearest q - v by linarith
    by_contra! hsmall
    have hq : q ≠ 0 := by
      rintro rfl
      rw [nearest_zero] at hlt
      exact lt_irrefl _ hlt
    have hclose : |nearest q - v| < 2 ^ (lastPlace q - 1) := by
      rwa [abs_of_pos (sub_pos.mpr h)]
    obtain ⟨n, hn⟩ := hv.multiple_of_abs_sub_lt hq hclose
    have hnearest : nearest q
        = ((2 * roundEven (q / 2 ^ lastPlace q) : ℤ) : ℚ) * 2 ^ (lastPlace q - 1) := by
      unfold nearest
      rw [hhalf]
      push_cast
      ring
    rw [hn, hnearest] at h hsmall
    exact not_lt_of_ge (Rounding.two_zpow_le_sub h) hsmall

end Sweep.Rounding
