/-!
This module contains the rank of a number, a whole number that grows with the order of the numbers.
It shows that an ascending sequence of numbers with an upper end cannot go on for ever.
-/

namespace Sweep.Rank

open Float.Model (UnpackedFloat Format)

def bound : Nat := 0x20000000000000000

def ofSign (s : UnpackedFloat.Sign) (n : Nat) : Int :=
  match s with
  | .positive => n
  | .negative => -n

def ofUnpacked (x : UnpackedFloat) : Int :=
  match x with
  | .notANumber => bound
  | .infinity s => ofSign s (bound - 1)
  | .zero _ => 0
  | .finite s m e _ => ofSign s ((e + 1074).toNat * 0x20000000000000 + m)

inductive InRange : UnpackedFloat → Prop
  | notANumber : InRange .notANumber
  | infinity (s) : InRange (.infinity s)
  | zero (s) : InRange (.zero s)
  | finite (s m e h) : m < 0x20000000000000 → -1074 ≤ e → e ≤ 971 → InRange (.finite s m e h)

theorem inRange_unpack (b : BitVec Format.binary64.numBits) :
    InRange (UnpackedFloat.unpack Format.binary64 b) := by
  have hscale : (UnpackedFloat.unpackExponent b).toNat < 0x800 :=
    (UnpackedFloat.unpackExponent b).isLt
  have hfraction : (UnpackedFloat.unpackMantissa b).toNat < 0x10000000000000 :=
    (UnpackedFloat.unpackMantissa b).isLt
  have hsignificand : (1#1 ++ UnpackedFloat.unpackMantissa b).toNat < 0x20000000000000 :=
    (1#1 ++ UnpackedFloat.unpackMantissa b).isLt
  have hbias : (Format.binary64.exponentBias : Int) = 1023 := by decide
  unfold UnpackedFloat.unpack
  dsimp only
  by_cases hfull : UnpackedFloat.unpackExponent b = -1#11
  . rw [if_pos hfull]
    by_cases hzero : UnpackedFloat.unpackMantissa b = 0#52
    . rw [if_pos hzero]
      constructor
    . rw [if_neg hzero]
      constructor
  . rw [if_neg hfull]
    by_cases hzero : UnpackedFloat.unpackExponent b = 0#11
    . rw [if_pos hzero]
      by_cases hzero' : UnpackedFloat.unpackMantissa b = 0#52
      . rw [dif_pos hzero']
        constructor
      . rw [dif_neg hzero']
        constructor
        . omega
        . simp [hzero, hbias]
        . simp [hzero, hbias]
    . rw [if_neg hzero]
      have hne : (UnpackedFloat.unpackExponent b).toNat ≠ 0 := by
        intro h
        apply hzero
        apply BitVec.eq_of_toNat_eq
        simpa using h
      have hne' : (UnpackedFloat.unpackExponent b).toNat ≠ 2047 := by
        intro h
        apply hfull
        apply BitVec.eq_of_toNat_eq
        simpa using h
      constructor
      . omega
      . simp only [hbias]
        omega
      . simp only [hbias]
        omega

theorem compare_int (a b : Int) :
    compare a b = if a < b then .lt else if a = b then .eq else .gt := by
  rfl

theorem compare_nat (a b : Nat) :
    compare a b = if a < b then .lt else if a = b then .eq else .gt := by
  rfl

theorem compare_notANumber (y : UnpackedFloat) : UnpackedFloat.notANumber.compare y = none := by
  cases y <;> rfl

theorem compare_eq_lt {a b : Int} (h : a < b) : compare a b = .lt := by
  rw [compare_int, if_pos h]

theorem compare_eq_gt {a b : Int} (h : b < a) : compare a b = .gt := by
  rw [compare_int, if_neg (by omega), if_neg (by omega)]

theorem swap_compare (a b : Int) : (compare a b).swap = compare (-a) (-b) := by
  rw [compare_int, compare_int]
  (repeat' split) <;> first | rfl | omega

theorem ofUnpacked_finite_lt_infinity {s : UnpackedFloat.Sign} {m : Nat} {e : Int} {h : 0 < m}
    (hm : m < 0x20000000000000) (he : e ≤ 971) :
    ofUnpacked (.finite s m e h) < ofUnpacked (.infinity .positive) := by
  cases s <;> dsimp only [ofUnpacked, ofSign, bound] <;> omega

theorem ofUnpacked_infinity_lt_finite {s : UnpackedFloat.Sign} {m : Nat} {e : Int} {h : 0 < m}
    (hm : m < 0x20000000000000) (he : e ≤ 971) :
    ofUnpacked (.infinity .negative) < ofUnpacked (.finite s m e h) := by
  cases s <;> dsimp only [ofUnpacked, ofSign, bound] <;> omega

theorem zero_lt_ofUnpacked {m : Nat} {e : Int} {h : 0 < m} :
    0 < ofUnpacked (.finite .positive m e h) := by
  dsimp only [ofUnpacked, ofSign]
  omega

theorem ofUnpacked_lt_zero {m : Nat} {e : Int} {h : 0 < m} :
    ofUnpacked (.finite .negative m e h) < 0 := by
  dsimp only [ofUnpacked, ofSign]
  omega

theorem ofUnpacked_negative_lt_positive {m n : Nat} {e f : Int} {hm : 0 < m} {hn : 0 < n} :
    ofUnpacked (.finite .negative m e hm) < ofUnpacked (.finite .positive n f hn) :=
  Int.lt_trans ofUnpacked_lt_zero zero_lt_ofUnpacked

theorem compare_finite {m n : Nat} {e f : Int} (hm : m < 0x20000000000000)
    (hn : n < 0x20000000000000) (he : -1074 ≤ e) (hf : -1074 ≤ f) :
    (compare e f).then (compare m n)
      = compare (((e + 1074).toNat * 0x20000000000000 + m : Nat) : Int)
        ((f + 1074).toNat * 0x20000000000000 + n : Nat) := by
  simp only [compare_int, compare_nat]
  (repeat' split) <;> first | rfl | omega

theorem compare_ofUnpacked (x y : UnpackedFloat) (hx : InRange x) (hy : InRange y)
    (hnx : x ≠ .notANumber) (hny : y ≠ .notANumber) :
    x.compare y = some (compare (ofUnpacked x) (ofUnpacked y)) := by
  cases hx with
  | notANumber => contradiction
  | infinity s =>
    cases hy with
    | notANumber => contradiction
    | infinity t => cases s <;> cases t <;> rfl
    | zero t => cases s <;> cases t <;> rfl
    | finite t n f hpos hn _ hf =>
      cases s with
      | positive =>
        exact congrArg some (compare_eq_gt (ofUnpacked_finite_lt_infinity hn hf)).symm
      | negative =>
        exact congrArg some (compare_eq_lt (ofUnpacked_infinity_lt_finite hn hf)).symm
  | zero s =>
    cases hy with
    | notANumber => contradiction
    | infinity t => cases s <;> cases t <;> rfl
    | zero t => cases s <;> cases t <;> rfl
    | finite t n f hpos =>
      cases t with
      | positive => exact congrArg some (compare_eq_lt zero_lt_ofUnpacked).symm
      | negative => exact congrArg some (compare_eq_gt ofUnpacked_lt_zero).symm
  | finite s m e hpos hm he he' =>
    cases hy with
    | notANumber => contradiction
    | infinity t =>
      cases t with
      | positive =>
        cases s <;> exact congrArg some (compare_eq_lt (ofUnpacked_finite_lt_infinity hm he')).symm
      | negative =>
        cases s <;> exact congrArg some (compare_eq_gt (ofUnpacked_infinity_lt_finite hm he')).symm
    | zero t =>
      cases s with
      | positive => exact congrArg some (compare_eq_gt zero_lt_ofUnpacked).symm
      | negative => exact congrArg some (compare_eq_lt ofUnpacked_lt_zero).symm
    | finite t n f hpos' hn hf =>
      cases s with
      | positive =>
        cases t with
        | positive => exact congrArg some (compare_finite hm hn he hf)
        | negative => exact congrArg some (compare_eq_gt ofUnpacked_negative_lt_positive).symm
      | negative =>
        cases t with
        | positive => exact congrArg some (compare_eq_lt ofUnpacked_negative_lt_positive).symm
        | negative =>
          have h := congrArg Ordering.swap (compare_finite hm hn he hf)
          exact congrArg some (h.trans (swap_compare _ _))

def ofFloat (x : Float) : Int :=
  ofUnpacked x.toModel.unpack

theorem inRange (x : Float) : InRange x.toModel.unpack :=
  inRange_unpack _

theorem ofUnpacked_lt_bound (x : UnpackedFloat) (hx : InRange x) (hnx : x ≠ .notANumber) :
    ofUnpacked x < bound := by
  cases hx with
  | notANumber => contradiction
  | infinity s => cases s <;> decide
  | zero s => cases s <;> decide
  | finite s m e => cases s <;> dsimp only [ofUnpacked, ofSign, bound] <;> omega

theorem neg_bound_lt_ofUnpacked (x : UnpackedFloat) (hx : InRange x) : -bound < ofUnpacked x := by
  cases hx with
  | notANumber => decide
  | infinity s => cases s <;> decide
  | zero s => cases s <;> decide
  | finite s m e => cases s <;> dsimp only [ofUnpacked, ofSign, bound] <;> omega

theorem ofFloat_le_bound (x : Float) : ofFloat x ≤ bound := by
  unfold ofFloat
  by_cases h : x.toModel.unpack = .notANumber
  . rw [h]
    exact Int.le_refl _
  . have := ofUnpacked_lt_bound _ (inRange _) h
    exact Int.le_of_lt this

theorem le_iff {x y : Float} :
    x ≤ y ↔ (x.toModel.unpack.compare y.toModel.unpack).any (·.isLE) = true := by
  show (decide (x.toModel ≤ y.toModel)) = true ↔ _
  rw [decide_eq_true_iff]
  rfl

theorem ofFloat_lt_of_not_le {value next upper : Float} (hle : value ≤ upper)
    (hnext : ¬next ≤ value) : ofFloat value < ofFloat next := by
  rw [le_iff] at hle hnext
  have hvalue : value.toModel.unpack ≠ .notANumber := by
    intro h
    rw [h, compare_notANumber] at hle
    contradiction
  unfold ofFloat
  by_cases h : next.toModel.unpack = .notANumber
  . rw [h]
    exact ofUnpacked_lt_bound _ (inRange _) hvalue
  . rw [compare_ofUnpacked _ _ (inRange _) (inRange _) h hvalue, compare_int] at hnext
    split at hnext
    . simp at hnext
    . split at hnext
      . simp at hnext
      . omega

def above (x : Float) : Nat :=
  (bound - ofFloat x).toNat

theorem above_lt_of_not_le {value next upper : Float} (hle : value ≤ upper)
    (hnext : ¬next ≤ value) : above next < above value := by
  have hlt := ofFloat_lt_of_not_le hle hnext
  have := ofFloat_le_bound next
  unfold above
  omega

end Sweep.Rank
