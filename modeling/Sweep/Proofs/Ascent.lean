import Mathlib.Data.List.Iterate
import Sweep.Request.Naive
import Sweep.Proofs.NotANumber
import Sweep.Proofs.Outcomes

/-!
This module contains the rounds in which the values of a domain are generated. Every round that goes
on goes up, so that the values are numbers, there are no two alike, and they can be counted in 64
bits.
-/

namespace Sweep

namespace Number

theorem length_lt_of_nodup {xs : List Float} (h : xs.Nodup) (hxs : ∀ x ∈ xs, x.isNaN = false) :
    xs.length < 18446744073709551616 := by
  have hnan : notANumber ∉ xs := by
    intro hmem
    have := hxs notANumber hmem
    contradiction
  have hinjective : Function.Injective fun x : Float => x.toBits.toFin := by
    intro x y hbits
    have hbits : x.toBits = y.toBits := UInt64.toFin_inj.mp hbits
    rw [Parts.toBits_eq, Parts.toBits_eq] at hbits
    rw [eq_iff_unpack_eq]
    unfold Float.Model.unpack
    rw [hbits]
  have hnodup := (List.nodup_cons.mpr ⟨hnan, h⟩).map hinjective
  have hcard := hnodup.length_le_card
  rw [Fintype.card_fin, List.length_map, List.length_cons] at hcard
  exact hcard

end Number

namespace Domain

variable {d : Domain} {value : Float} {values : List Float} {n i j : Nat}

def Advances (d : Domain) (value : Float) : Prop :=
  value ≤ d.upper ∧ ¬d.next value ≤ value

def Stalls (d : Domain) (value : Float) : Prop :=
  value ≤ d.upper ∧ d.next value ≤ value

/-! Rounds that go on. -/

theorem Advances.rank_lt (h : d.Advances value) :
    Rank.ofFloat value < Rank.ofFloat (d.next value) :=
  Rank.ofFloat_lt_of_not_le h.1 h.2

theorem rank_iterate_lt (h : ∀ k < n, d.Advances (d.next^[k] value)) (hij : i < j) (hj : j ≤ n) :
    Rank.ofFloat (d.next^[i] value) < Rank.ofFloat (d.next^[j] value) := by
  induction hij with
  | refl =>
    rw [Function.iterate_succ_apply']
    exact (h i hj).rank_lt
  | @step j _ ih =>
    have hlt := ih (Nat.le_of_succ_le hj)
    rw [Function.iterate_succ_apply']
    exact hlt.trans (h j hj).rank_lt

theorem pairwise_iterate (h : ∀ k < n, d.Advances (d.next^[k] value)) :
    (List.iterate d.next value n).Pairwise (Rank.ofFloat · < Rank.ofFloat ·) := by
  rw [List.pairwise_iff_getElem]
  intro i j hi hj hij
  rw [List.length_iterate] at hj
  rw [List.getElem_iterate, List.getElem_iterate]
  exact rank_iterate_lt h hij hj.le

theorem le_upper_of_mem_iterate (h : ∀ k < n, d.Advances (d.next^[k] value)) :
    ∀ v ∈ List.iterate d.next value n, v.isNaN = false ∧ v ≤ d.upper := by
  intro v hv
  obtain ⟨k, hk, rfl⟩ := List.mem_iterate.mp hv
  exact ⟨(Number.not_isNaN_of_le (h k hk).1).1, (h k hk).1⟩

theorem lt_of_advances (h : ∀ k < n, d.Advances (d.next^[k] value)) : n < 18446744073709551616 := by
  rw [← List.length_iterate d.next value n]
  apply Number.length_lt_of_nodup
  . apply (pairwise_iterate h).imp
    rintro x _ hlt rfl
    exact Int.lt_irrefl _ hlt
  . intro x hx
    exact (le_upper_of_mem_iterate h x hx).1

/-! The last round. -/

theorem sequence.go_cases (d : Domain) (value : Float) :
    ∃ n, (∀ k < n, d.Advances (d.next^[k] value)) ∧
      ((¬d.next^[n] value ≤ d.upper ∧ go d value = .ok (List.iterate d.next value n)) ∨
        (d.Stalls (d.next^[n] value) ∧
          go d value = .error (.stepTooSmall d.name d.step (d.next^[n] value)))) := by
  unfold go
  split
  . next hle =>
    split
    . next hnext => exact ⟨0, nofun, .inr ⟨⟨hle, hnext⟩, rfl⟩⟩
    . next hnext =>
      have := Rank.above_lt_of_not_le hle hnext
      obtain ⟨n, hadvances, hcases⟩ := go_cases d (d.next value)
      refine ⟨n + 1, ?_, ?_⟩
      . intro k hk
        cases k with
        | zero => exact ⟨hle, hnext⟩
        | succ k =>
          rw [Function.iterate_succ_apply]
          exact hadvances k (Nat.lt_of_succ_lt_succ hk)
      . rw [Function.iterate_succ_apply]
        rcases hcases with ⟨hend, hgo⟩ | ⟨hstalls, hgo⟩
        . left
          rw [hgo]
          exact ⟨hend, rfl⟩
        . right
          rw [hgo]
          exact ⟨hstalls, rfl⟩
  . next hle => exact ⟨0, nofun, .inl ⟨hle, rfl⟩⟩
termination_by Rank.above value

theorem exists_iterate_of_sequence (h : d.sequence = .ok values) :
    ∃ n, (∀ k < n, d.Advances (d.next^[k] d.lower)) ∧ values = List.iterate d.next d.lower n := by
  obtain ⟨n, hadvances, hcases⟩ := sequence.go_cases d d.lower
  refine ⟨n, hadvances, ?_⟩
  unfold sequence at h
  rcases hcases with ⟨-, hgo⟩ | ⟨-, hgo⟩
  . rw [hgo] at h
    cases h
    rfl
  . rw [hgo] at h
    contradiction

theorem not_isNaN_of_sequence (h : d.sequence = .ok values) : ∀ x ∈ values, x.isNaN = false := by
  obtain ⟨n, hadvances, rfl⟩ := exists_iterate_of_sequence h
  intro x hx
  exact (le_upper_of_mem_iterate hadvances x hx).1

theorem length_lt_of_sequence (h : d.sequence = .ok values) :
    values.length < 18446744073709551616 := by
  obtain ⟨n, hadvances, rfl⟩ := exists_iterate_of_sequence h
  rw [List.length_iterate]
  exact lt_of_advances hadvances

end Domain

namespace TupleMode

theorem mem_of_mem_product {columns : List (List α)} {row : List α} (h : row ∈ product columns) :
    ∀ x ∈ row, ∃ xs ∈ columns, x ∈ xs := by
  induction columns generalizing row with
  | nil =>
    rw [product, List.mem_singleton] at h
    simp [h]
  | cons xs columns ih =>
    simp only [product, List.mem_flatMap, List.mem_map] at h
    obtain ⟨v, hv, tail, htail, rfl⟩ := h
    intro x hx
    rcases List.mem_cons.mp hx with rfl | hx
    . exact ⟨xs, List.mem_cons_self, hv⟩
    . obtain ⟨ys, hys, hmem⟩ := ih htail x hx
      exact ⟨ys, List.mem_cons_of_mem xs hys, hmem⟩

theorem mem_of_mem_zipped {length : Nat} {columns : List (List α)} {row : List α}
    (h : row ∈ zipped length columns) : ∀ x ∈ row, ∃ xs ∈ columns, x ∈ xs := by
  unfold zipped at h
  obtain ⟨i, -, rfl⟩ := List.mem_map.mp h
  intro x hx
  obtain ⟨xs, hxs, hget⟩ := List.mem_filterMap.mp hx
  exact ⟨xs, hxs, List.mem_of_getElem? hget⟩

variable {mode : TupleMode} {columns rows : List (List Float)}

theorem mem_of_mem_table (h : table mode columns = .ok rows) :
    ∀ row ∈ rows, ∀ x ∈ row, ∃ xs ∈ columns, x ∈ xs := by
  intro row hrow
  unfold table at h
  split at h
  . split at h
    . cases h
      exact mem_of_mem_product hrow
    . contradiction
  . split at h
    . cases h
      exact mem_of_mem_zipped hrow
    . contradiction

theorem length_lt_of_table (h : table mode columns = .ok rows)
    (hcolumns : ∀ xs ∈ columns, xs.length < 18446744073709551616) :
    rows.length < 18446744073709551616 := by
  unfold table at h
  split at h
  . split at h
    . next hle =>
      cases h
      unfold maxCount at hle
      omega
    . contradiction
  . split at h
    . cases h
      show (zipped _ columns).length < _
      rw [length_zipped]
      cases columns with
      | nil => decide
      | cons xs columns => exact hcolumns xs List.mem_cons_self
    . contradiction

end TupleMode

end Sweep
