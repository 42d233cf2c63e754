import Sweep.Proofs.Extremes
import Sweep.Proofs.Operations

/-!
This module contains the arithmetic of the finite numbers: the numbers that they are, the operations
on them, which give the exact results rounded, and their order.
-/

open Float.Model (UnpackedFloat Format)
open Float.Model.UnpackedFloat

namespace Sweep

namespace Rounding

variable {u v : UnpackedFloat}

/-! Words of 64 bits. -/

theorem normalized_unpack {w : Float.Model} (h : w.unpack.isFinite) : Normalized w.unpack := by
  cases hw : w.unpack with
  | zero s => exact .zero s
  | finite s m e hm => exact .finite s m e hm (canonical_of_unpack hw)
  | _ =>
    rw [hw] at h
    contradiction

theorem Normalized.isFinite (h : Normalized u) : u.isFinite := by
  cases h <;> rfl

theorem Normalized.unpack_pack (h : Normalized u) :
    (Float.Model.pack u).unpack = u ∨
      (Float.Model.pack u).unpack.isFinite = false ∧ 2 ^ (1024 : ℤ) ≤ |toRat u| := by
  cases h with
  | zero s => cases s <;> exact .inl rfl
  | finite s m e h hc =>
    by_cases he : e ≤ 971
    . left
      by_cases hlow : 0x10000000000000 ≤ m
      . exact Packing.unpack_pack_normal h hlow hc.lt hc.le he
      . cases hc.normal.resolve_right hlow
        exact Packing.unpack_pack_subnormal h (by omega)
    . right
      have hlow : 0x10000000000000 ≤ m := hc.normal.resolve_left (by omega)
      rw [Packing.unpack_pack_overflow h (by omega)]
      refine ⟨rfl, ?_⟩
      have hpos := (value_pos h e).le
      have hm : (2 ^ 52 : ℚ) ≤ m := by exact_mod_cast hlow
      have he : (2 : ℚ) ^ (972 : ℤ) ≤ 2 ^ e := zpow_le_zpow_right₀ (by norm_num) (by omega)
      show 2 ^ (1024 : ℤ) ≤ |withSign s (value m e)|
      rw [abs_withSign, abs_of_nonneg hpos]
      calc
        (2 : ℚ) ^ (1024 : ℤ) = 2 ^ 52 * 2 ^ (972 : ℤ) := two_zpow_add 972 52
        _ ≤ m * 2 ^ e := mul_le_mul hm he (two_zpow_pos _).le (Nat.cast_nonneg m)

theorem abs_toRat_lt (h : Rank.InRange u) : |toRat u| < 2 ^ (1024 : ℤ) := by
  cases h with
  | finite s m e hpos hm hlow hhigh =>
    have hm : (m : ℚ) < 2 ^ 53 := by exact_mod_cast hm
    have he : (2 : ℚ) ^ e ≤ 2 ^ (971 : ℤ) := zpow_le_zpow_right₀ (by norm_num) hhigh
    show |withSign s (value m e)| < _
    rw [abs_withSign, abs_of_pos (value_pos hpos e)]
    calc
      value m e < 2 ^ 53 * 2 ^ (971 : ℤ) := mul_lt_mul hm he (two_zpow_pos e) (by norm_num)
      _ = 2 ^ (1024 : ℤ) := (two_zpow_add 971 53).symm
  | _ =>
    show |(0 : ℚ)| < _
    rw [abs_zero]
    exact two_zpow_pos _

theorem isFinite_of_isFinite_pack (h : (Float.Model.pack u).unpack.isFinite) : u.isFinite := by
  cases u with
  | infinity s =>
    rw [Packing.unpack_pack_infinity] at h
    exact h
  | notANumber => exact h
  | _ => rfl

theorem isFinite_of_isFinite_add (h : (UnpackedFloat.add Format.binary64 u v).isFinite) :
    u.isFinite ∧ v.isFinite := by
  cases u with
  | notANumber => contradiction
  | infinity s =>
    cases v with
    | infinity t => cases s <;> cases t <;> contradiction
    | _ => contradiction
  | _ => cases v <;> first | contradiction | exact ⟨rfl, rfl⟩

theorem isFinite_neg (u : UnpackedFloat) : u.neg.isFinite = u.isFinite := by
  cases u <;> rfl

theorem isFinite_of_isFinite_mul (h : (UnpackedFloat.mul Format.binary64 u v).isFinite) :
    u.isFinite ∧ v.isFinite := by
  cases u <;> cases v <;> first | contradiction | exact ⟨rfl, rfl⟩

theorem isFinite_of_isFinite_div (h : (UnpackedFloat.div Format.binary64 u v).isFinite) :
    u.isFinite := by
  cases u <;> cases v <;> first | contradiction | rfl

theorem rounds_div_of_isFinite (hu : Normalized u) (hv : v.isFinite → Normalized v)
    (h : (UnpackedFloat.div Format.binary64 u v).isFinite) :
    Rounds (UnpackedFloat.div Format.binary64 u v) (toRat u / toRat v) := by
  cases v with
  | finite t n f hn =>
    apply rounds_div hu (hv rfl)
    cases t
    . exact neg_ne_zero.mpr (value_pos hn f).ne'
    . exact (value_pos hn f).ne'
  | infinity t =>
    have hzero : toRat u / toRat (.infinity t) = 0 := div_zero _
    rw [hzero]
    cases hu <;> exact (Normalized.zero _).rounds
  | _ => cases hu <;> contradiction

/-! The order. -/

theorem value_lt_value {m n : Nat} {e f : Int} (hc : Canonical m e) (hc' : Canonical n f)
    (h : (e + 1074).toNat * 0x20000000000000 + m < (f + 1074).toNat * 0x20000000000000 + n) :
    value m e < value n f := by
  have hle := hc.le
  have hlt := hc.lt
  have hle' := hc'.le
  have hlt' := hc'.lt
  rcases lt_or_eq_of_le (show e ≤ f by omega) with hexponent | rfl
  . have hlow : 0x10000000000000 ≤ n := hc'.normal.resolve_left (by omega)
    have hm : (m : ℚ) < 2 ^ 53 := by exact_mod_cast hlt
    have hn : (2 : ℚ) ^ 52 ≤ n := by exact_mod_cast hlow
    have hpow : 2 * (2 : ℚ) ^ e ≤ 2 ^ f := by
      rw [← zpow_one_add₀ (by norm_num)]
      exact zpow_le_zpow_right₀ (by norm_num) (by omega)
    have hpos := two_zpow_pos e
    calc
      value m e < 2 ^ 53 * 2 ^ e := mul_lt_mul_of_pos_right hm hpos
      _ = 2 ^ 52 * (2 * 2 ^ e) := by ring
      _ ≤ value n f := mul_le_mul hn hpow (by positivity) (Nat.cast_nonneg n)
  . have hm : (m : ℚ) < n := by exact_mod_cast (by omega)
    exact mul_lt_mul_of_pos_right hm (two_zpow_pos e)

theorem value_lt_value_iff {m n : Nat} {e f : Int} (hc : Canonical m e) (hc' : Canonical n f) :
    value m e < value n f ↔
      (e + 1074).toNat * 0x20000000000000 + m < (f + 1074).toNat * 0x20000000000000 + n := by
  constructor
  . intro h
    by_contra! hle
    rcases lt_or_eq_of_le hle with hlt | heq
    . exact lt_asymm h (value_lt_value hc' hc hlt)
    . have hlt := hc.lt
      have hlt' := hc'.lt
      have hle := hc.le
      have hle' := hc'.le
      have hm : m = n := by omega
      have he : e = f := by omega
      subst hm he
      exact lt_irrefl _ h
  . exact value_lt_value hc hc'

theorem toRat_lt_iff_rank (hu : Normalized u) (hv : Normalized v) :
    toRat u < toRat v ↔ Rank.ofUnpacked u < Rank.ofUnpacked v := by
  cases hu with
  | zero s =>
    cases hv with
    | zero t => simp [toRat, Rank.ofUnpacked]
    | finite t n f hn hc =>
      have hpos := value_pos hn f
      cases t <;> simp only [toRat, withSign, Rank.ofUnpacked, Rank.ofSign] <;>
        constructor <;> intro h <;> first | omega | linarith
  | finite s m e hm hc =>
    have hpos := value_pos hm e
    cases hv with
    | zero t =>
      cases s <;> simp only [toRat, withSign, Rank.ofUnpacked, Rank.ofSign] <;>
        constructor <;> intro h <;> first | omega | linarith
    | finite t n f hn hc' =>
      have hpos' := value_pos hn f
      cases s <;> cases t <;> simp only [toRat, withSign, Rank.ofUnpacked, Rank.ofSign]
      . rw [neg_lt_neg_iff, neg_lt_neg_iff, value_lt_value_iff hc' hc, Nat.cast_lt]
      . constructor <;> intro h <;> first | omega | linarith
      . constructor <;> intro h <;> first | omega | linarith
      . rw [value_lt_value_iff hc hc', Nat.cast_lt]

end Rounding

namespace Number

open Rounding (Rounds nearest)

variable {x y : Float} {u : UnpackedFloat} {q : ℚ}

def toRat (x : Float) : ℚ :=
  Rounding.toRat x.toModel.unpack

theorem normalized (h : x.isFinite) : Rounding.Normalized x.toModel.unpack :=
  Rounding.normalized_unpack h

theorem toRat_of_unpack {m : Nat} {e : Int} {h : 0 < m}
    (hx : x.toModel.unpack = .finite .positive m e h) :
    x.isFinite ∧ toRat x = Rounding.value m e := by
  constructor
  . show x.toModel.unpack.isFinite
    rw [hx]
    rfl
  . unfold toRat
    rw [hx]
    rfl

theorem toRat_pack (h : Rounds u q) (hfinite : (Float.ofModel (.pack u)).isFinite) :
    toRat (.ofModel (.pack u)) = nearest q := by
  rcases h.normalized.unpack_pack with hunpack | ⟨hinfinite, -⟩
  . rw [← h.toRat_eq]
    exact congrArg Rounding.toRat hunpack
  . rw [show (Float.ofModel (.pack u)).isFinite = false from hinfinite] at hfinite
    contradiction

theorem isFinite_pack (h : Rounds u q) (hq : |q| ≤ 2 ^ (1023 : ℤ)) :
    (Float.ofModel (.pack u)).isFinite := by
  rcases h.normalized.unpack_pack with hunpack | ⟨-, hlarge⟩
  . show (Float.Model.pack u).unpack.isFinite
    rw [hunpack]
    exact h.normalized.isFinite
  . have hle : |nearest q| ≤ 2 ^ (1023 : ℤ) :=
      Rounding.abs_nearest_le (Rounding.representable_two_zpow (by norm_num)) hq
    rw [h.toRat_eq] at hlarge
    have hlt : (2 : ℚ) ^ (1023 : ℤ) < 2 ^ (1024 : ℤ) :=
      zpow_lt_zpow_right₀ (by norm_num) (by norm_num)
    exact (not_lt_of_ge (hlarge.trans hle) hlt).elim

theorem neg_eq (h : x.isFinite) : (-x).toModel.unpack = x.toModel.unpack.neg := by
  rcases (normalized h).neg.unpack_pack with hunpack | ⟨-, hlarge⟩
  . exact hunpack
  . have hlt := Rounding.abs_toRat_lt (Rank.inRange x)
    rw [Rounding.toRat_neg, abs_neg] at hlarge
    exact (not_lt_of_ge hlarge hlt).elim

theorem isFinite_neg (h : x.isFinite) : (-x).isFinite := by
  show (-x).toModel.unpack.isFinite
  rw [neg_eq h, Rounding.isFinite_neg]
  exact h

theorem toRat_neg (h : x.isFinite) : toRat (-x) = -toRat x := by
  unfold toRat
  rw [neg_eq h, Rounding.toRat_neg]

theorem abs_eq (h : x.isFinite) : x.abs.toModel.unpack = x.toModel.unpack.abs := by
  have hnormalized := normalized h
  rcases hnormalized.abs.unpack_pack with hunpack | ⟨-, hlarge⟩
  . exact hunpack
  . have hlt := Rounding.abs_toRat_lt (Rank.inRange x)
    rw [hnormalized.toRat_abs, abs_abs] at hlarge
    exact (not_lt_of_ge hlarge hlt).elim

theorem isFinite_abs (h : x.isFinite) : x.abs.isFinite := by
  show x.abs.toModel.unpack.isFinite
  rw [abs_eq h]
  exact (normalized h).abs.isFinite

theorem toRat_abs (h : x.isFinite) : toRat x.abs = |toRat x| := by
  unfold toRat
  rw [abs_eq h, (normalized h).toRat_abs]

theorem toRat_of_not_isFinite (h : ¬x.isFinite) : toRat x = 0 := by
  have h : ¬x.toModel.unpack.isFinite := h
  unfold toRat
  generalize x.toModel.unpack = u at *
  cases u with
  | finite s m e hm => exact (h rfl).elim
  | _ => rfl

theorem representable_toRat (x : Float) : Rounding.Representable (toRat x) := by
  by_cases h : x.isFinite
  . exact (normalized h).representable
  . rw [toRat_of_not_isFinite h]
    exact Rounding.representable_zero

/-! The operations. -/

theorem isFinite_of_isFinite_add (h : (x + y).isFinite) : x.isFinite ∧ y.isFinite :=
  Rounding.isFinite_of_isFinite_add (Rounding.isFinite_of_isFinite_pack h)

theorem toRat_add (h : (x + y).isFinite) : toRat (x + y) = nearest (toRat x + toRat y) := by
  obtain ⟨hx, hy⟩ := isFinite_of_isFinite_add h
  exact toRat_pack (Rounding.rounds_add (normalized hx) (normalized hy)) h

theorem isFinite_add (hx : x.isFinite) (hy : y.isFinite)
    (h : |toRat x + toRat y| ≤ 2 ^ (1023 : ℤ)) : (x + y).isFinite :=
  isFinite_pack (Rounding.rounds_add (normalized hx) (normalized hy)) h

theorem isFinite_of_isFinite_sub (h : (x - y).isFinite) : x.isFinite ∧ y.isFinite := by
  have hsub : (UnpackedFloat.sub Format.binary64 x.toModel.unpack y.toModel.unpack).isFinite :=
    Rounding.isFinite_of_isFinite_pack h
  rw [Rounding.sub_eq] at hsub
  obtain ⟨hx, hy⟩ := Rounding.isFinite_of_isFinite_add hsub
  rw [Rounding.isFinite_neg] at hy
  exact ⟨hx, hy⟩

theorem toRat_sub (h : (x - y).isFinite) : toRat (x - y) = nearest (toRat x - toRat y) := by
  obtain ⟨hx, hy⟩ := isFinite_of_isFinite_sub h
  exact toRat_pack (Rounding.rounds_sub (normalized hx) (normalized hy)) h

theorem isFinite_of_isFinite_mul (h : (x * y).isFinite) : x.isFinite ∧ y.isFinite :=
  Rounding.isFinite_of_isFinite_mul (Rounding.isFinite_of_isFinite_pack h)

theorem toRat_mul (h : (x * y).isFinite) : toRat (x * y) = nearest (toRat x * toRat y) := by
  obtain ⟨hx, hy⟩ := isFinite_of_isFinite_mul h
  exact toRat_pack (Rounding.rounds_mul (normalized hx) (normalized hy)) h

theorem isFinite_mul (hx : x.isFinite) (hy : y.isFinite)
    (h : |toRat x * toRat y| ≤ 2 ^ (1023 : ℤ)) : (x * y).isFinite :=
  isFinite_pack (Rounding.rounds_mul (normalized hx) (normalized hy)) h

theorem isFinite_of_isFinite_div (h : (x / y).isFinite) : x.isFinite :=
  Rounding.isFinite_of_isFinite_div (Rounding.isFinite_of_isFinite_pack h)

theorem toRat_div (h : (x / y).isFinite) : toRat (x / y) = nearest (toRat x / toRat y) := by
  have hfinite := Rounding.isFinite_of_isFinite_pack h
  have hx := normalized (isFinite_of_isFinite_div h)
  exact toRat_pack (Rounding.rounds_div_of_isFinite hx Rounding.normalized_unpack hfinite) h

theorem isFinite_div (hx : x.isFinite) (hy : y.isFinite) (hzero : toRat y ≠ 0)
    (h : |toRat x / toRat y| ≤ 2 ^ (1023 : ℤ)) : (x / y).isFinite :=
  isFinite_pack (Rounding.rounds_div (normalized hx) (normalized hy) hzero) h

/-! The order. -/

theorem not_isNaN (h : x.isFinite) : x.isNaN = false := by
  have h : x.toModel.unpack.isFinite := h
  rw [not_isNaN_iff]
  intro hx
  rw [hx] at h
  contradiction

theorem le_iff_toRat (hx : x.isFinite) (hy : y.isFinite) : x ≤ y ↔ toRat x ≤ toRat y := by
  rw [le_iff_rank (not_isNaN hx) (not_isNaN hy), ← not_lt, ← not_lt, not_iff_not]
  exact (Rounding.toRat_lt_iff_rank (normalized hy) (normalized hx)).symm

theorem lt_iff_toRat (hx : x.isFinite) (hy : y.isFinite) : x < y ↔ toRat x < toRat y := by
  rw [lt_iff_rank (not_isNaN hx) (not_isNaN hy)]
  exact (Rounding.toRat_lt_iff_rank (normalized hx) (normalized hy)).symm

theorem isFinite_of_le {z : Float} (hy : y.isFinite) (hz : z.isFinite) (hle : x ≤ z)
    (h : ¬x ≤ y) : x.isFinite := by
  have hy : y.toModel.unpack.isFinite := hy
  have hz : z.toModel.unpack.isFinite := hz
  rw [Rank.le_iff] at hle h
  show x.toModel.unpack.isFinite
  generalize x.toModel.unpack = u at *
  cases u with
  | notANumber =>
    rw [Rank.compare_notANumber] at hle
    contradiction
  | infinity s =>
    cases s with
    | positive => cases hunpack : z.toModel.unpack <;> rw [hunpack] at hle hz <;> contradiction
    | negative =>
      cases hunpack : y.toModel.unpack <;> rw [hunpack] at h hy <;> contradiction
  | _ => rfl

end Number

end Sweep
