import Mathlib.Data.List.Perm.Basic
import Sweep.Proofs.NotANumber

/-!
This module contains the least and the greatest of numbers. Each of them comes before all others and
is one of them, so that the order of the numbers makes no difference.
-/

namespace Sweep

namespace Number

variable {x y : Float}

theorem compare_eq_rank (hx : x.isNaN = false) (hy : y.isNaN = false) :
    x.toModel.unpack.compare y.toModel.unpack
      = some (compare (Rank.ofFloat x) (Rank.ofFloat y)) := by
  rw [not_isNaN_iff] at hx hy
  exact Rank.compare_ofUnpacked _ _ (Rank.inRange x) (Rank.inRange y) hx hy

theorem lt_iff_compare :
    x < y ↔ (x.toModel.unpack.compare y.toModel.unpack == some .lt) = true := by
  show (decide (x.toModel < y.toModel)) = true ↔ _
  rw [decide_eq_true_iff]
  rfl

theorem lt_iff_rank (hx : x.isNaN = false) (hy : y.isNaN = false) :
    x < y ↔ Rank.ofFloat x < Rank.ofFloat y := by
  rw [lt_iff_compare, compare_eq_rank hx hy]
  simp [compare_lt_iff_lt]

theorem le_iff_rank (hx : x.isNaN = false) (hy : y.isNaN = false) :
    x ≤ y ↔ Rank.ofFloat x ≤ Rank.ofFloat y := by
  rw [Rank.le_iff, compare_eq_rank hx hy]
  simp [Ordering.isLE_iff_ne_gt, compare_gt_iff_gt]

theorem beq_iff_rank (hx : x.isNaN = false) (hy : y.isNaN = false) :
    (x == y) = true ↔ Rank.ofFloat x = Rank.ofFloat y := by
  have hbeq : (x == y) = (x.toModel.unpack.compare y.toModel.unpack == some .eq) := by
    rfl
  rw [hbeq, compare_eq_rank hx hy]
  simp

protected theorem le_trans {z : Float} (hxy : x ≤ y) (hyz : y ≤ z) : x ≤ z := by
  obtain ⟨hx, hy⟩ := not_isNaN_of_le hxy
  obtain ⟨-, hz⟩ := not_isNaN_of_le hyz
  rw [le_iff_rank hx hy] at hxy
  rw [le_iff_rank hy hz] at hyz
  rw [le_iff_rank hx hz]
  exact Int.le_trans hxy hyz

theorem beq_of_le_of_le (hxy : x ≤ y) (hyx : y ≤ x) : (x == y) = true := by
  obtain ⟨hx, hy⟩ := not_isNaN_of_le hxy
  rw [le_iff_rank hx hy] at hxy
  rw [le_iff_rank hy hx] at hyx
  rw [beq_iff_rank hx hy]
  exact Int.le_antisymm hxy hyx

theorem le_infinity (hx : x.isNaN = false) : x ≤ infinity := by
  have hinfinity : Rank.ofFloat infinity = Rank.bound - 1 := by
    rfl
  rw [le_iff_rank hx rfl, hinfinity]
  rw [not_isNaN_iff] at hx
  exact Int.le_sub_one_of_lt (Rank.ofUnpacked_lt_bound _ (Rank.inRange x) hx)

theorem neg_infinity_le (hx : x.isNaN = false) : -infinity ≤ x := by
  have hinfinity : Rank.ofFloat (-infinity) = -Rank.bound + 1 := by
    rfl
  rw [le_iff_rank rfl hx, hinfinity]
  exact Int.add_one_le_of_lt (Rank.neg_bound_lt_ofUnpacked _ (Rank.inRange x))

end Number

namespace Aggregate

variable {x y : Float} {xs ys : List Float}

theorem rank_lesser (hx : x.isNaN = false) (hy : y.isNaN = false) :
    Rank.ofFloat (lesser x y) = min (Rank.ofFloat x) (Rank.ofFloat y) := by
  unfold lesser
  split
  . next hlt =>
    rw [Number.lt_iff_rank hy hx] at hlt
    exact (min_eq_right hlt.le).symm
  . next hlt =>
    rw [Number.lt_iff_rank hy hx, not_lt] at hlt
    exact (min_eq_left hlt).symm

theorem rank_greater (hx : x.isNaN = false) (hy : y.isNaN = false) :
    Rank.ofFloat (greater x y) = max (Rank.ofFloat x) (Rank.ofFloat y) := by
  unfold greater
  split
  . next hlt =>
    rw [Number.lt_iff_rank hx hy] at hlt
    exact (max_eq_right hlt.le).symm
  . next hlt =>
    rw [Number.lt_iff_rank hx hy, not_lt] at hlt
    exact (max_eq_left hlt).symm

/-! What is selected comes before all others, and it is one of them. -/

structure Prefers (select : Float → Float → Float) (before : Float → Float → Prop) : Prop where
  either : ∀ x y, select x y = x ∨ select x y = y
  left : ∀ x y, x.isNaN = false → y.isNaN = false → before (select x y) x
  right : ∀ x y, x.isNaN = false → y.isNaN = false → before (select x y) y
  trans : ∀ x y z, before x y → before y z → before x z
  antisymm : ∀ x y, before x y → before y x → (x == y) = true

theorem prefers_lesser : Prefers lesser (· ≤ ·) where
  either x y := by
    unfold lesser
    split
    . exact .inr rfl
    . exact .inl rfl
  left x y hx hy := by
    rw [Number.le_iff_rank (isNaN_lesser hx hy) hx, rank_lesser hx hy]
    exact min_le_left _ _
  right x y hx hy := by
    rw [Number.le_iff_rank (isNaN_lesser hx hy) hy, rank_lesser hx hy]
    exact min_le_right _ _
  trans _ _ _ := Number.le_trans
  antisymm _ _ := Number.beq_of_le_of_le

theorem prefers_greater : Prefers greater (fun x y => y ≤ x) where
  either x y := by
    unfold greater
    split
    . exact .inr rfl
    . exact .inl rfl
  left x y hx hy := by
    rw [Number.le_iff_rank hx (isNaN_greater hx hy), rank_greater hx hy]
    exact le_max_left _ _
  right x y hx hy := by
    rw [Number.le_iff_rank hy (isNaN_greater hx hy), rank_greater hx hy]
    exact le_max_right _ _
  trans _ _ _ hyx hzy := Number.le_trans hzy hyx
  antisymm _ _ hyx hxy := Number.beq_of_le_of_le hxy hyx

namespace Prefers

variable {select : Float → Float → Float} {before : Float → Float → Prop}

theorem not_isNaN (h : Prefers select before) (x y : Float) (hx : x.isNaN = false)
    (hy : y.isNaN = false) : (select x y).isNaN = false := by
  rcases h.either x y with heq | heq
  . rw [heq, hx]
  . rw [heq, hy]

theorem foldl_mem (h : Prefers select before) (xs : List Float) (x : Float) :
    xs.foldl select x ∈ x :: xs := by
  induction xs generalizing x with
  | nil => exact List.mem_singleton_self x
  | cons y ys ih =>
    rw [List.foldl_cons]
    rcases List.mem_cons.mp (ih (select x y)) with heq | hmem
    . rw [heq]
      rcases h.either x y with heq' | heq' <;> simp [heq']
    . simp [hmem]

theorem foldl_before (h : Prefers select before) (hxs : ∀ y ∈ xs, y.isNaN = false)
    (hx : x.isNaN = false) : ∀ y ∈ x :: xs, before (xs.foldl select x) y := by
  induction xs generalizing x with
  | nil =>
    have hself := h.left x x hx hx
    rw [List.forall_mem_singleton]
    rcases h.either x x with heq | heq <;> rwa [heq] at hself
  | cons y ys ih =>
    rw [List.forall_mem_cons] at hxs
    have hlater := ih hxs.2 (h.not_isNaN x y hx hxs.1)
    rw [List.forall_mem_cons] at hlater
    rw [List.foldl_cons, List.forall_mem_cons, List.forall_mem_cons]
    refine ⟨?_, ?_, hlater.2⟩
    . exact h.trans _ _ _ hlater.1 (h.left x y hx hxs.1)
    . exact h.trans _ _ _ hlater.1 (h.right x y hx hxs.1)

theorem foldl_perm (h : Prefers select before) (hperm : xs.Perm ys)
    (hxs : ∀ y ∈ xs, y.isNaN = false) (hx : x.isNaN = false) :
    (xs.foldl select x == ys.foldl select x) = true := by
  have hys : ∀ y ∈ ys, y.isNaN = false := by
    intro y hy
    exact hxs y (hperm.mem_iff.mpr hy)
  have hcons := hperm.cons x
  apply h.antisymm
  . exact h.foldl_before hxs hx _ (hcons.mem_iff.mpr (h.foldl_mem ys x))
  . exact h.foldl_before hys hx _ (hcons.mem_iff.mp (h.foldl_mem xs x))

theorem foldl_attained (h : Prefers select before) (hxs : ∀ y ∈ xs, y.isNaN = false)
    (hx : x.isNaN = false) (hlast : ∀ y, y.isNaN = false → before y x) (hne : xs ≠ []) :
    ∃ y ∈ xs, (xs.foldl select x == y) = true := by
  have hbefore := h.foldl_before hxs hx
  rcases List.mem_cons.mp (h.foldl_mem xs x) with heq | hmem
  . obtain ⟨y, hy⟩ := List.exists_mem_of_ne_nil xs hne
    refine ⟨y, hy, ?_⟩
    apply h.antisymm _ _ (hbefore y (List.mem_cons_of_mem x hy))
    rw [heq]
    exact hlast y (hxs y hy)
  . have hself := hbefore _ (List.mem_cons_of_mem x hmem)
    exact ⟨_, hmem, h.antisymm _ _ hself hself⟩

end Prefers

end Aggregate

end Sweep
