import Sweep.Aggregate.Basic
import Sweep.Proofs.Rounding

/-!
This module contains the operations on numbers whose results are not numbers. A sum of numbers is
one unless infinities of both signs meet on the way.
-/

open Float.Model (UnpackedFloat Format)
open Float.Model.UnpackedFloat

namespace Sweep

namespace Packing

theorem exists_signed {u : UnpackedFloat} (h : u ≠ .notANumber) : ∃ s, Signed s u := by
  cases u with
  | infinity s => exact ⟨s, .infinity⟩
  | notANumber => contradiction
  | zero s => exact ⟨s, .zero⟩
  | finite s m e hpos => exact ⟨s, .finite m e hpos⟩

theorem Signed.ne_notANumber {s : Sign} {u : UnpackedFloat} (h : Signed s u) :
    u ≠ .notANumber := by
  cases h <;> simp

end Packing

open Packing

namespace Rounding

theorem roundWithAccuracy_ne_notANumber (s : Sign) (m : Nat) (e : Int) (a : Accuracy) :
    roundWithAccuracy Format.binary64 s m e a ≠ .notANumber := by
  unfold roundWithAccuracy
  dsimp only
  split <;> simp

theorem normalize_ne_notANumber (m e : Int) (s : Sign) :
    UnpackedFloat.normalize Format.binary64 m e s ≠ .notANumber := by
  unfold UnpackedFloat.normalize
  split
  . apply roundWithAccuracy_ne_notANumber
  . simp
  . apply roundWithAccuracy_ne_notANumber

theorem add_eq_notANumber_iff {u v : UnpackedFloat} :
    UnpackedFloat.add Format.binary64 u v = .notANumber ↔
      u = .notANumber ∨ v = .notANumber ∨
        (u = .infinity .positive ∧ v = .infinity .negative) ∨
        (u = .infinity .negative ∧ v = .infinity .positive) := by
  cases u with
  | notANumber => simp [UnpackedFloat.add]
  | infinity s =>
    cases v with
    | infinity t => cases s <;> cases t <;> simp +decide [UnpackedFloat.add]
    | _ => simp [UnpackedFloat.add]
  | zero s =>
    cases v with
    | zero t => cases s <;> cases t <;> simp +decide [UnpackedFloat.add]
    | _ => simp [UnpackedFloat.add]
  | finite s m e h =>
    cases v with
    | finite t n f h' => simp [UnpackedFloat.add, normalize_ne_notANumber]
    | _ => simp [UnpackedFloat.add]

theorem div_finite_ne_notANumber {u : UnpackedFloat} (hu : u ≠ .notANumber) (s : Sign) (m : Nat)
    (e : Int) (h : 0 < m) :
    UnpackedFloat.div Format.binary64 u (.finite s m e h) ≠ .notANumber := by
  cases u with
  | notANumber => contradiction
  | infinity t => simp [UnpackedFloat.div]
  | zero t => simp [UnpackedFloat.div]
  | finite t n f h' => simp [UnpackedFloat.div, roundWithAccuracy_ne_notANumber]

end Rounding

namespace Number

variable {x y : Float}

theorem isNaN_iff : x.isNaN = true ↔ x.toModel.unpack = .notANumber := by
  show x.toModel.unpack.isNaN = true ↔ _
  cases x.toModel.unpack <;> simp [UnpackedFloat.isNaN]

theorem not_isNaN_iff : x.isNaN = false ↔ x.toModel.unpack ≠ .notANumber := by
  rw [Bool.eq_false_iff, ne_eq, isNaN_iff]

theorem not_isNaN_of_signed {s : Sign} (h : Signed s x.toModel.unpack) : x.isNaN = false :=
  not_isNaN_iff.mpr h.ne_notANumber

theorem isNaN_pack {u : UnpackedFloat} :
    (Float.ofModel (.pack u)).isNaN = true ↔ u = .notANumber := by
  rw [isNaN_iff]
  constructor
  . intro h
    apply Classical.byContradiction
    intro hne
    obtain ⟨s, hs⟩ := exists_signed hne
    exact hs.unpack_pack.ne_notANumber h
  . rintro rfl
    rfl

theorem not_isNaN_of_le (h : x ≤ y) : x.isNaN = false ∧ y.isNaN = false := by
  rw [Rank.le_iff] at h
  rw [not_isNaN_iff, not_isNaN_iff]
  constructor
  . intro hx
    rw [hx, Rank.compare_notANumber] at h
    contradiction
  . intro hy
    rw [hy] at h
    cases hx : x.toModel.unpack <;> rw [hx] at h <;> contradiction

theorem unpack_infinity : infinity.toModel.unpack = .infinity .positive := by
  rfl

theorem unpack_neg_infinity : (-infinity).toModel.unpack = .infinity .negative := by
  rfl

def Opposed (x y : Float) : Prop :=
  (x = infinity ∧ y = -infinity) ∨ (x = -infinity ∧ y = infinity)

theorem isNaN_add : (x + y).isNaN = true ↔ x.isNaN = true ∨ y.isNaN = true ∨ Opposed x y := by
  have hadd : (x + y).isNaN = true ↔
      UnpackedFloat.add Format.binary64 x.toModel.unpack y.toModel.unpack = .notANumber :=
    isNaN_pack
  unfold Opposed
  rw [hadd, Rounding.add_eq_notANumber_iff, isNaN_iff, isNaN_iff, eq_iff_unpack_eq,
    eq_iff_unpack_eq, eq_iff_unpack_eq, eq_iff_unpack_eq, unpack_infinity, unpack_neg_infinity]

theorem isNaN_foldl_add (xs : List Float) (hx : x.isNaN = true) :
    (xs.foldl (· + ·) x).isNaN = true := by
  induction xs generalizing x with
  | nil => exact hx
  | cons y ys ih =>
    apply ih
    rw [isNaN_add]
    exact .inl hx

theorem isNaN_foldl_add_iff {xs : List Float} (hx : x.isNaN = false)
    (hxs : ∀ y ∈ xs, y.isNaN = false) :
    (xs.foldl (· + ·) x).isNaN = true ↔
      ∃ before y after, xs = before ++ y :: after ∧ Opposed (before.foldl (· + ·) x) y := by
  constructor
  . induction xs generalizing x with
    | nil =>
      intro h
      rw [List.foldl_nil, hx] at h
      contradiction
    | cons y ys ih =>
      intro h
      by_cases hsum : (x + y).isNaN
      . rw [isNaN_add, hx, hxs y List.mem_cons_self] at hsum
        exact ⟨[], y, ys, rfl, by simpa using hsum⟩
      . have hrest : ∀ z ∈ ys, z.isNaN = false := fun z hz => hxs z (List.mem_cons_of_mem y hz)
        obtain ⟨before, z, after, rfl, hopposed⟩ := ih (by simpa using hsum) hrest h
        exact ⟨y :: before, z, after, rfl, hopposed⟩
  . rintro ⟨before, y, after, rfl, hopposed⟩
    rw [List.foldl_append, List.foldl_cons]
    apply isNaN_foldl_add
    rw [isNaN_add]
    exact .inr (.inr hopposed)

/-! Numbers of tuples. -/

theorem isNaN_toFloat (n : UInt64) : n.toFloat.isNaN = false := by
  rw [not_isNaN_iff]
  by_cases h : 0 < n.toNat
  . obtain ⟨m, e, hm, hunpack⟩ := Rounding.unpack_toFloat h
    simp [hunpack]
  . have hzero : n = 0 := by
      apply UInt64.toNat_inj.mp
      simpa using h
    rw [hzero]
    exact nofun

theorem isNaN_div_toFloat {n : UInt64} (h : 0 < n.toNat) :
    (x / n.toFloat).isNaN = x.isNaN := by
  obtain ⟨m, e, hm, hunpack⟩ := Rounding.unpack_toFloat h
  have hdiv : (x / n.toFloat).isNaN = true ↔
      UnpackedFloat.div Format.binary64 x.toModel.unpack n.toFloat.toModel.unpack = .notANumber :=
    isNaN_pack
  rw [Bool.eq_iff_iff, hdiv, hunpack, isNaN_iff]
  constructor
  . intro h
    apply Classical.byContradiction
    intro hx
    exact Rounding.div_finite_ne_notANumber hx _ m e hm h
  . intro hx
    rw [hx]
    rfl

end Number

namespace Aggregate

variable {x y : Float}

theorem isNaN_lesser (hx : x.isNaN = false) (hy : y.isNaN = false) :
    (lesser x y).isNaN = false := by
  unfold lesser
  split
  . exact hy
  . exact hx

theorem isNaN_greater (hx : x.isNaN = false) (hy : y.isNaN = false) :
    (greater x y).isNaN = false := by
  unfold greater
  split
  . exact hy
  . exact hx

theorem isNaN_foldl {select : Float → Float → Float}
    (hselect : ∀ x y, x.isNaN = false → y.isNaN = false → (select x y).isNaN = false)
    {xs : List Float} (hxs : ∀ y ∈ xs, y.isNaN = false) (hx : x.isNaN = false) :
    (xs.foldl select x).isNaN = false := by
  induction xs generalizing x with
  | nil => exact hx
  | cons y ys ih =>
    apply ih
    . intro z hz
      exact hxs z (List.mem_cons_of_mem y hz)
    . exact hselect x y hx (hxs y List.mem_cons_self)

end Aggregate

end Sweep
