import Sweep.Tuples.Basic

/-!
This module contains the tuples of columns as one list. A cursor makes the same tuples one by one.
-/

namespace Sweep.TupleMode

def product : List (List α) → List (List α)
  | [] => [[]]
  | xs :: rest => xs.flatMap fun x => (product rest).map (x :: ·)

def zipped (length : Nat) (xss : List (List α)) : List (List α) :=
  (List.range length).map fun i => xss.filterMap (·[i]?)

def rows (mode : TupleMode) (columns : List (List Float)) : List (List Float) :=
  match mode with
  | grid => product columns
  | list => zipped ((columns.head?.map List.length).getD 0) columns

theorem length_product (xss : List (List α)) :
    (product xss).length = (xss.map List.length).foldr (· * ·) 1 := by
  induction xss with
  | nil => rfl
  | cons xs rest ih =>
    simp only [product, List.length_flatMap, List.length_map, List.map_cons, List.foldr_cons, ← ih,
      List.map_const', List.sum_replicate_nat]

theorem length_of_mem_product {xss : List (List α)} {row : List α} (h : row ∈ product xss) :
    row.length = xss.length := by
  induction xss generalizing row with
  | nil => simp_all [product]
  | cons xs rest ih =>
    simp only [product, List.mem_flatMap, List.mem_map] at h
    obtain ⟨_, _, tail, htail, rfl⟩ := h
    simp [ih htail]

theorem length_zipped (length : Nat) (xss : List (List α)) :
    (zipped length xss).length = length := by
  simp [zipped]

theorem length_of_mem_zipped {length : Nat} {xss : List (List α)} {row : List α}
    (h : ∀ xs ∈ xss, xs.length = length) (hrow : row ∈ zipped length xss) :
    row.length = xss.length := by
  unfold zipped at hrow
  obtain ⟨i, hi, rfl⟩ := List.mem_map.mp hrow
  rw [List.mem_range] at hi
  rw [List.filterMap_length_eq_length]
  intro xs hxs
  have hlength : i < xs.length := by
    rw [h xs hxs]
    exact hi
  rw [List.getElem?_eq_getElem hlength]
  rfl

end Sweep.TupleMode
