/-!
This module contains tables of code points, the form in which a property of characters is kept. A
table is a list of inclusive ranges in ascending order, so a search ends at the first range that
begins behind the character.
-/

namespace Sweep.Text

namespace CodeTable

def isAscending (start : Nat) (ranges : List (Nat × Nat)) : Bool :=
  match ranges with
  | [] => true
  | (first, last) :: ranges => start ≤ first && first ≤ last && isAscending (last + 1) ranges

def covers (ranges : List (Nat × Nat)) (code : Nat) : Bool :=
  match ranges with
  | [] => false
  | (first, last) :: ranges => first ≤ code && (code ≤ last || covers ranges code)

theorem le_of_mem_of_isAscending {start : Nat} {ranges : List (Nat × Nat)}
    (h : isAscending start ranges) {range : Nat × Nat} (hmem : range ∈ ranges) :
    start ≤ range.1 := by
  induction ranges generalizing start with
  | nil => contradiction
  | cons head tail ih =>
    simp only [isAscending, Bool.and_eq_true, decide_eq_true_eq] at h
    rcases List.mem_cons.mp hmem with rfl | hmem
    · exact h.1.1
    · have := ih h.2 hmem
      omega

theorem covers_iff {start : Nat} {ranges : List (Nat × Nat)} (h : isAscending start ranges)
    (code : Nat) : covers ranges code ↔ ∃ range ∈ ranges, range.1 ≤ code ∧ code ≤ range.2 := by
  induction ranges generalizing start with
  | nil => simp [covers]
  | cons head tail ih =>
    simp only [isAscending, Bool.and_eq_true, decide_eq_true_eq] at h
    simp only [covers, Bool.and_eq_true, Bool.or_eq_true, decide_eq_true_eq, ih h.2,
      List.mem_cons, exists_eq_or_imp]
    constructor
    · rintro ⟨hfirst, hlast | htail⟩
      · exact .inl ⟨hfirst, hlast⟩
      · exact .inr htail
    · rintro (hhead | ⟨range, hmem, hrange⟩)
      · exact ⟨hhead.1, .inl hhead.2⟩
      · have := le_of_mem_of_isAscending h.2 hmem
        exact ⟨by omega, .inr ⟨range, hmem, hrange⟩⟩

end CodeTable

structure CodeTable where
  -- the code points as inclusive ranges
  ranges : List (Nat × Nat)
  ascending : CodeTable.isAscending 0 ranges := by decide +kernel

namespace CodeTable

def contains (table : CodeTable) (c : Char) : Bool :=
  covers table.ranges c.toNat

theorem contains_iff (table : CodeTable) (c : Char) :
    table.contains c ↔ ∃ range ∈ table.ranges, range.1 ≤ c.toNat ∧ c.toNat ≤ range.2 := by
  exact covers_iff table.ascending c.toNat

end CodeTable

end Sweep.Text
