import Sweep.Proofs.Nearest
import Sweep.Proofs.Rounding

/-!
This module contains the operations on mantissas and exponents. Each of them gives the result of the
exact operation, rounded to the nearest number.
-/

open Float.Model (UnpackedFloat Format totalExponent)
open Float.Model.UnpackedFloat

namespace Sweep

namespace Rounding

/-! Mantissas with two further bits. -/

def Extends (em : ExtendedMantissa) (x : ℚ) : Prop :=
  -- the round bit is the half in the fraction, and the sticky bit is what is below it
  match em.roundBit, em.stickyBit with
  | false, false => x = em.mantissa
  | false, true => em.mantissa < x ∧ x < em.mantissa + 1 / 2
  | true, false => x = em.mantissa + 1 / 2
  | true, true => em.mantissa + 1 / 2 < x ∧ x < em.mantissa + 1

namespace Extends

variable {em : ExtendedMantissa} {x : ℚ}

theorem bounds (h : Extends em x) : (em.mantissa : ℚ) ≤ x ∧ x < em.mantissa + 1 := by
  unfold Extends at h
  split at h <;> constructor <;> linarith

theorem floor (h : Extends em x) : ⌊x⌋ = em.mantissa := by
  rw [Int.floor_eq_iff]
  exact_mod_cast h.bounds

theorem shiftRightOne (h : Extends em x) : Extends em.shiftRightOne (x / 2) := by
  obtain ⟨m, round, sticky⟩ := em
  have hsplit : (m : ℚ) = 2 * (m / 2 : Nat) + (m % 2 : Nat) := by exact_mod_cast (by omega)
  have hparity : (m % 2 = 0 ∧ (m % 2 != 0) = false) ∨ (m % 2 = 1 ∧ (m % 2 != 0) = true) := by
    rw [bne_eq_false_iff_eq, bne_iff_ne]
    omega
  unfold ExtendedMantissa.shiftRightOne
  rcases hparity with ⟨hm, hbit⟩ | ⟨hm, hbit⟩ <;> rw [hm] at hsplit <;> push_cast at hsplit <;>
    rw [hbit] <;> cases round <;> cases sticky <;>
    simp only [Extends, Bool.or_true, Bool.or_false] at h ⊢ <;>
    first | linarith | (constructor <;> linarith)

theorem shiftRight (h : Extends em x) (k : Nat) : Extends (em >>> k) (x / 2 ^ k) := by
  induction k with
  | zero =>
    rw [pow_zero, div_one]
    exact h
  | succ k ih =>
    rw [shiftRight_succ, pow_succ, ← div_div]
    exact ih.shiftRightOne

theorem roundedMantissa (h : Extends em x) : (em.roundedMantissa : ℤ) = roundEven x := by
  have hfloor := h.floor
  unfold roundEven
  rw [hfloor]
  obtain ⟨m, round, sticky⟩ := em
  cases round <;> cases sticky <;>
    simp only [Extends, ExtendedMantissa.roundedMantissa, ExtendedMantissa.accuracy,
      Accuracy.roundToNearestEven] at h ⊢ <;> push_cast
  . rw [if_pos (by linarith)]
  . rw [if_pos (by linarith)]
  . rw [if_neg (by linarith), if_neg (by linarith)]
  . rw [if_neg (by linarith), if_pos (by linarith)]

end Extends

theorem extends_exact (m : Nat) : Extends (.ofMantissaAndAccuracy m .exact) m := by
  rfl

theorem extends_fraction (m : Nat) {n : Nat} (h : 0 < n) :
    Extends (.ofMantissaAndAccuracy (m / n) (accuracyOfFraction (m % n) n)) (m / n : ℚ) := by
  have hpos : (0 : ℚ) < n := by exact_mod_cast h
  have hsplit : (m : ℚ) = (m / n : Nat) * n + (m % n : Nat) := by
    exact_mod_cast (Nat.div_add_mod' m n).symm
  have hlt : ((m % n : Nat) : ℚ) < n := by exact_mod_cast Nat.mod_lt m h
  have hquotient : (m / n : ℚ) = (m / n : Nat) + (m % n : Nat) / (n : ℚ) := by
    rw [hsplit]
    field_simp
  rw [hquotient]
  generalize m / n = whole
  generalize m % n = rest at hlt
  by_cases hrest : rest = 0
  . rw [hrest, accuracyOfFraction, if_pos rfl]
    simpa using extends_exact whole
  . have hrest' : (0 : ℚ) < rest / n := by positivity
    have hone : (rest / n : ℚ) < 1 := (div_lt_one hpos).mpr hlt
    rw [accuracyOfFraction, if_neg hrest]
    rcases lt_trichotomy (2 * rest) n with h | h | h
    . have hhalf : (rest / n : ℚ) < 1 / 2 := by
        rw [div_lt_iff₀ hpos]
        have : (2 * rest : ℚ) < n := by exact_mod_cast h
        linarith
      rw [compare_lt_iff_lt.mpr h]
      simp only [Extends, ExtendedMantissa.ofMantissaAndAccuracy]
      constructor <;> linarith
    . have hhalf : (rest / n : ℚ) = 1 / 2 := by
        rw [div_eq_iff hpos.ne']
        have : (2 * rest : ℚ) = n := by exact_mod_cast h
        linarith
      rw [compare_eq_iff_eq.mpr h]
      simp only [Extends, ExtendedMantissa.ofMantissaAndAccuracy]
      linarith
    . have hhalf : 1 / 2 < (rest / n : ℚ) := by
        rw [lt_div_iff₀ hpos]
        have : (n : ℚ) < 2 * rest := by exact_mod_cast h
        linarith
      rw [compare_gt_iff_gt.mpr h]
      simp only [Extends, ExtendedMantissa.ofMantissaAndAccuracy]
      constructor <;> linarith

/-! Finite numbers. -/

inductive Normalized : UnpackedFloat → Prop
  | zero (s) : Normalized (.zero s)
  | finite (s m e h) : Canonical m e → Normalized (.finite s m e h)

def withSign (s : Sign) (q : ℚ) : ℚ :=
  match s with
  | .positive => q
  | .negative => -q

def toRat : UnpackedFloat → ℚ
  | .finite s m e _ => withSign s (value m e)
  | _ => 0

structure Rounds (u : UnpackedFloat) (q : ℚ) : Prop where
  normalized : Normalized u
  toRat_eq : toRat u = nearest q

variable {s t : Sign} {m n : Nat} {e f : Int} {u v : UnpackedFloat} {x p q : ℚ}

theorem withSign_zero (s : Sign) : withSign s 0 = 0 := by
  cases s
  . exact neg_zero
  . rfl

theorem abs_withSign (s : Sign) (q : ℚ) : |withSign s q| = |q| := by
  cases s
  . exact abs_neg q
  . rfl

theorem abs_withSign_sub_withSign (s : Sign) (p q : ℚ) :
    |withSign s p - withSign s q| = |p - q| := by
  cases s
  . rw [withSign, withSign, neg_sub_neg, abs_sub_comm]
  . rfl

theorem nearest_withSign (s : Sign) (q : ℚ) : nearest (withSign s q) = withSign s (nearest q) := by
  cases s
  . exact nearest_neg q
  . rfl

theorem withSign_mul_withSign (s t : Sign) (p q : ℚ) :
    withSign s p * withSign t q = withSign (s * t) (p * q) := by
  cases s <;> cases t
  . exact neg_mul_neg p q
  . exact neg_mul p q
  . exact mul_neg p q
  . rfl

theorem withSign_div_withSign (s t : Sign) (p q : ℚ) :
    withSign s p / withSign t q = withSign (s / t) (p / q) := by
  cases s <;> cases t
  . exact neg_div_neg_eq p q
  . exact neg_div q p
  . exact div_neg p
  . rfl

theorem cast_apply (s : Sign) (n : Int) : ((s.apply n : Int) : ℚ) = withSign s n := by
  cases s
  . exact Int.cast_neg n
  . rfl

theorem withSign_mul (s : Sign) (p q : ℚ) : withSign s p * q = withSign s (p * q) := by
  cases s
  . exact neg_mul p q
  . rfl

theorem value_pos (h : 0 < m) (e : Int) : 0 < value m e :=
  mul_pos (by exact_mod_cast h) (two_zpow_pos e)

theorem representable_of_canonical (h : Canonical m e) : Representable (value m e) := by
  refine ⟨m, e, ?_, h.le, rfl⟩
  rw [Nat.abs_cast]
  exact_mod_cast h.lt

theorem Normalized.representable (h : Normalized u) : Representable (toRat u) := by
  cases h with
  | zero => exact representable_zero
  | finite s m e h hc =>
    cases s
    . exact (representable_of_canonical hc).neg
    . exact representable_of_canonical hc

theorem Normalized.rounds (h : Normalized u) : Rounds u (toRat u) :=
  ⟨h, (nearest_of_representable h.representable).symm⟩

/-! The rounding of mantissas and exponents. -/

theorem log_mul_two_zpow (hm : m ≠ 0) (hlow : (m : ℚ) ≤ x) (hhigh : x < m + 1) :
    Int.log 2 (x * 2 ^ e) = m.log2 + e := by
  have hself : ((2 ^ m.log2 : Nat) : ℚ) ≤ m := by exact_mod_cast Nat.log2_self_le hm
  have hlt : (m : ℚ) + 1 ≤ (2 ^ (m.log2 + 1) : Nat) := by
    exact_mod_cast Nat.lt_log2_self (n := m)
  push_cast at hself hlt
  have hx : 0 < x := (Nat.cast_pos.mpr (Nat.pos_of_ne_zero hm)).trans_le hlow
  have hpos : 0 < x * 2 ^ e := mul_pos hx (two_zpow_pos e)
  apply le_antisymm
  . rw [← Int.lt_add_one_iff, ← Int.lt_zpow_iff_log_lt (by norm_num) hpos]
    calc
      x * 2 ^ e < 2 ^ (m.log2 + 1) * 2 ^ e :=
        mul_lt_mul_of_pos_right (hhigh.trans_le hlt) (two_zpow_pos e)
      _ = 2 ^ (e + (m.log2 + 1 : Nat)) := (two_zpow_add e _).symm
      _ = ((2 : Nat) : ℚ) ^ (m.log2 + e + 1 : Int) := by
        push_cast
        congr 1
        ring
  . rw [← Int.zpow_le_iff_le_log (by norm_num) hpos]
    calc
      ((2 : Nat) : ℚ) ^ (m.log2 + e : Int) = 2 ^ (e + (m.log2 : Nat)) := by
        push_cast
        congr 1
        ring
      _ = 2 ^ m.log2 * 2 ^ e := two_zpow_add e _
      _ ≤ x * 2 ^ e := mul_le_mul_of_nonneg_right (hself.trans hlow) (two_zpow_pos e).le

theorem lastPlace_eq (hx : 0 < x) (hlow : (m : ℚ) ≤ x) (hhigh : x < m + 1) (hfits : Fits m e) :
    lastPlace (x * 2 ^ e) = Format.targetExponent Format.binary64 (totalExponent m e) := by
  have hpos : 0 < x * 2 ^ e := mul_pos hx (two_zpow_pos e)
  unfold Fits at hfits
  rw [targetExponent_eq] at *
  unfold lastPlace
  rw [abs_of_pos hpos]
  by_cases hm : m = 0
  . rw [hm] at hhigh hfits ⊢
    have hlog : Int.log 2 (x * 2 ^ e) < e := by
      rw [← Int.lt_zpow_iff_log_lt (by norm_num) hpos]
      push_cast at hhigh
      simpa using mul_lt_mul_of_pos_right hhigh (two_zpow_pos e)
    have hzero : Nat.log2 0 = 0 := by rfl
    omega
  . rw [log_mul_two_zpow hm hlow hhigh]

theorem rounds_of_shift {a : Accuracy} {em : ExtendedMantissa}
    (hshift : shiftToTargetExponent Format.binary64 m e a = (em, f)) (hf : -1074 ≤ f)
    (hle : em.roundedMantissa ≤ 2 ^ 53) (hnormal : f = -1074 ∨ 2 ^ 52 ≤ em.roundedMantissa) :
    Normalized (roundWithAccuracy Format.binary64 s m e a) ∧
      toRat (roundWithAccuracy Format.binary64 s m e a)
        = withSign s (value em.roundedMantissa f) := by
  unfold roundWithAccuracy
  rw [hshift]
  dsimp only
  generalize em.roundedMantissa = rounded at *
  by_cases hzero : rounded = 0
  . have hmantissa : (shiftToTargetExponent Format.binary64 0 f .exact).1.mantissa = 0 := by
      unfold shiftToTargetExponent shiftToExponent
      rw [shiftRight_mantissa]
      exact Nat.zero_div _
    rw [hzero, dif_pos hmantissa]
    refine ⟨.zero s, ?_⟩
    simp [toRat, value, withSign_zero]
  . by_cases hcarry : rounded < 2 ^ 53
    . have hc : Canonical rounded f := { lt := hcarry, le := hf, normal := hnormal }
      have hagain := shiftToTargetExponent_exact (by omega) hc 0
      simp only [Nat.pow_zero, Nat.mul_one, Nat.cast_zero, sub_zero] at hagain
      rw [hagain]
      dsimp only
      rw [dif_neg hzero]
      exact ⟨.finite _ _ _ _ hc, rfl⟩
    . -- the mantissa has been rounded up to one more binary digit
      have hrounded : rounded = 0x10000000000000 * 2 ^ 1 := by omega
      have hc : Canonical 0x10000000000000 (f + 1) :=
        { lt := by omega, le := by omega, normal := .inr (by omega) }
      have hagain := shiftToTargetExponent_exact (by omega) hc 1
      have hback : f + 1 - ((1 : Nat) : Int) = f := by omega
      rw [hback, ← hrounded] at hagain
      rw [hagain]
      dsimp only
      have hvalue := value_mul_two_pow 0x10000000000000 (f + 1) 1
      rw [hback] at hvalue
      rw [dif_neg (by omega), hrounded, hvalue]
      exact ⟨.finite _ _ _ _ hc, rfl⟩

theorem rounds_roundWithAccuracy {a : Accuracy} (hx : 0 < x)
    (hextends : Extends (.ofMantissaAndAccuracy m a) x) (hfits : Fits m e) :
    Rounds (roundWithAccuracy Format.binary64 s m e a) (withSign s (x * 2 ^ e)) := by
  have hmantissa : (ExtendedMantissa.ofMantissaAndAccuracy m a).mantissa = m := by
    unfold ExtendedMantissa.ofMantissaAndAccuracy
    split <;> rfl
  have hbounds := hextends.bounds
  rw [hmantissa] at hbounds
  have hplace := lastPlace_eq hx hbounds.1 hbounds.2 hfits
  have hplace' := hplace
  rw [targetExponent_eq] at hplace'
  obtain ⟨k, hk⟩ := Int.le.dest hfits
  have hshift : shiftToTargetExponent Format.binary64 m e a
      = ((ExtendedMantissa.ofMantissaAndAccuracy m a) >>> k, e + k) := by
    unfold shiftToTargetExponent shiftToExponent
    have htoNat : (Format.targetExponent Format.binary64 (totalExponent m e) - e).toNat = k := by
      omega
    dsimp only
    rw [htoNat]
  rw [← hk] at hplace
  have hscaled : x / 2 ^ k = x * 2 ^ e / 2 ^ (e + k : Int) := by
    have := (two_zpow_pos e).ne'
    rw [two_zpow_add]
    field_simp
  have hrounded := (hextends.shiftRight k).roundedMantissa
  rw [hscaled, ← hplace] at hrounded
  have hpos : 0 < x * 2 ^ e := mul_pos hx (two_zpow_pos e)
  have hle := abs_mantissa_le (x * 2 ^ e)
  have hnormal := lastPlace_eq_or_le_abs_mantissa hpos.ne'
  rw [← hrounded, Nat.abs_cast] at hle hnormal
  obtain ⟨hnormalized, htoRat⟩ :=
    rounds_of_shift (s := s) hshift (by omega) (by exact_mod_cast hle) (by omega)
  refine ⟨hnormalized, ?_⟩
  rw [htoRat, nearest_withSign, nearest, ← hrounded, hplace]
  rfl

theorem decreaseExponent_eq (m : Nat) {e f : Int} (h : f ≤ e) :
    ∃ k : Nat, e - k = f ∧ decreaseExponent m e f = (m * 2 ^ k, f) := by
  obtain ⟨k, rfl⟩ := Int.le.dest h
  refine ⟨k, by omega, ?_⟩
  unfold decreaseExponent
  have hk : (f + k - f).toNat = k := by omega
  dsimp only
  rw [hk, Nat.shiftLeft_eq, Int.add_sub_cancel]

theorem rounds_round (h : 0 < m) :
    Rounds (UnpackedFloat.round Format.binary64 s m e) (withSign s (value m e)) := by
  have hround : ∀ {n : Nat} {f : Int}, 0 < n → Fits n f →
      Rounds (roundWithAccuracy Format.binary64 s n f .exact) (withSign s (value n f)) :=
    fun hn hfits => rounds_roundWithAccuracy (by exact_mod_cast hn) (extends_exact _) hfits
  unfold UnpackedFloat.round
  rcases Int.le_total e (Format.targetExponent Format.binary64 (totalExponent m e)) with hle | hle
  . have hsame : decreaseExponent m e (Format.targetExponent Format.binary64 (totalExponent m e))
        = (m, e) := by
      unfold decreaseExponent
      have hzero : (e - Format.targetExponent Format.binary64 (totalExponent m e)).toNat = 0 := by
        omega
      rw [hzero]
      simp
    dsimp only
    rw [hsame]
    exact hround h hle
  . obtain ⟨k, hk, hdecrease⟩ := decreaseExponent_eq m hle
    dsimp only
    rw [hdecrease, ← hk, ← value_mul_two_pow m e k]
    apply hround (by positivity)
    unfold Fits
    rw [totalExponent_mul_two_pow h]
    exact hk.le

theorem rounds_normalize (z e : Int) (s : Sign) :
    Rounds (UnpackedFloat.normalize Format.binary64 z e s) (z * 2 ^ e) := by
  unfold UnpackedFloat.normalize
  split
  . next hcompare =>
    rw [Int.compare_eq_lt] at hcompare
    obtain ⟨n, hn⟩ := Int.eq_ofNat_of_zero_le (show 0 ≤ -z by omega)
    have hround := rounds_round (s := .negative) (m := n) (e := e) (by omega)
    have hvalue : (z * 2 ^ e : ℚ) = withSign .negative (value n e) := by
      rw [← neg_neg z, hn]
      push_cast
      exact neg_mul _ _
    rw [hn, hvalue]
    exact hround
  . next hcompare =>
    rw [Int.compare_eq_eq] at hcompare
    rw [hcompare, Int.cast_zero, zero_mul]
    exact (Normalized.zero s).rounds
  . next hcompare =>
    rw [Int.compare_eq_gt] at hcompare
    obtain ⟨n, rfl⟩ := Int.eq_ofNat_of_zero_le (show 0 ≤ z by omega)
    exact rounds_round (s := .positive) (m := n) (e := e) (by omega)

/-! The operations. -/

theorem cast_apply_mul_two_pow (s : Sign) (m k : Nat) (e : Int) :
    ((s.apply (m * 2 ^ k : Nat) : Int) : ℚ) * 2 ^ (e - k) = withSign s (value m e) := by
  rw [cast_apply, withSign_mul, ← value_mul_two_pow m e k]
  rfl

theorem rounds_add (hu : Normalized u) (hv : Normalized v) :
    Rounds (UnpackedFloat.add Format.binary64 u v) (toRat u + toRat v) := by
  cases hu with
  | zero s =>
    have hzero : toRat (.zero s) + toRat v = toRat v := zero_add _
    rw [hzero]
    cases hv with
    | zero t => cases s <;> cases t <;> exact (Normalized.zero _).rounds
    | finite t n f h' hc' => exact (Normalized.finite t n f h' hc').rounds
  | finite s m e h hc =>
    cases hv with
    | zero t =>
      have hzero : toRat (.finite s m e h) + toRat (.zero t) = toRat (.finite s m e h) :=
        add_zero _
      rw [hzero]
      exact (Normalized.finite s m e h hc).rounds
    | finite t n f h' hc' =>
      obtain ⟨j, hj, hm⟩ := decreaseExponent_eq m (min_le_left e f)
      obtain ⟨k, hk, hn⟩ := decreaseExponent_eq n (min_le_right e f)
      have hadd := rounds_normalize (s.apply (m * 2 ^ j : Nat) + t.apply (n * 2 ^ k : Nat))
        (min e f) .positive
      rw [Int.cast_add, add_mul] at hadd
      nth_rewrite 2 [← hj] at hadd
      nth_rewrite 2 [← hk] at hadd
      rw [cast_apply_mul_two_pow, cast_apply_mul_two_pow] at hadd
      unfold UnpackedFloat.add
      dsimp only
      rw [hm, hn]
      exact hadd

theorem Normalized.neg (h : Normalized u) : Normalized u.neg := by
  cases h with
  | zero s => exact .zero (-s)
  | finite s m e h hc => exact .finite (-s) m e h hc

theorem toRat_neg (u : UnpackedFloat) : toRat u.neg = -toRat u := by
  cases u with
  | finite s m e h =>
    cases s
    . exact (neg_neg _).symm
    . rfl
  | _ => exact neg_zero.symm

theorem Normalized.abs (h : Normalized u) : Normalized u.abs := by
  cases h with
  | zero s => exact .zero .positive
  | finite s m e h hc => exact .finite .positive m e h hc

theorem Normalized.toRat_abs (h : Normalized u) : toRat u.abs = |toRat u| := by
  cases h with
  | zero s => exact abs_zero.symm
  | finite s m e h hc => exact ((abs_withSign s _).trans (abs_of_pos (value_pos h e))).symm

theorem sub_eq (u v : UnpackedFloat) :
    UnpackedFloat.sub Format.binary64 u v = UnpackedFloat.add Format.binary64 u v.neg := by
  have happly : ∀ (s t : Sign) (i j : Nat),
      s.apply i - t.apply j = s.apply i + (-t).apply j := by
    intro s t i j
    cases t
    . exact sub_neg_eq_add _ _
    . exact sub_eq_add_neg _ _
  cases u with
  | finite s m e h =>
    cases v with
    | finite t n f h' =>
      simp only [UnpackedFloat.sub, UnpackedFloat.add, UnpackedFloat.neg, happly]
    | _ => rfl
  | _ => cases v <;> rfl

theorem rounds_sub (hu : Normalized u) (hv : Normalized v) :
    Rounds (UnpackedFloat.sub Format.binary64 u v) (toRat u - toRat v) := by
  have := rounds_add hu hv.neg
  rwa [toRat_neg, ← sub_eq, ← sub_eq_add_neg] at this

theorem fits_mul (hm : 0 < m) (hn : 0 < n) (hc : Canonical m e) (hc' : Canonical n f) :
    Fits (m * n) (e + f) := by
  by_cases hlarge : 2 ^ 52 ≤ m * n
  . exact fits_of_log2 ((Nat.le_log2 (by positivity)).mpr hlarge)
  . -- both exponents are the least one
    have hle : m ≤ m * n := Nat.le_mul_of_pos_right m hn
    have hle' : n ≤ m * n := Nat.le_mul_of_pos_left n hm
    have he : e = -1074 := hc.normal.resolve_right (by omega)
    have hf : f = -1074 := hc'.normal.resolve_right (by omega)
    unfold Fits
    rw [targetExponent_eq]
    omega

theorem rounds_mul (hu : Normalized u) (hv : Normalized v) :
    Rounds (UnpackedFloat.mul Format.binary64 u v) (toRat u * toRat v) := by
  cases hu with
  | zero s =>
    have hzero : toRat (.zero s) * toRat v = 0 := zero_mul _
    rw [hzero]
    cases hv <;> exact (Normalized.zero _).rounds
  | finite s m e h hc =>
    cases hv with
    | zero t =>
      have hzero : toRat (.finite s m e h) * toRat (.zero t) = 0 := mul_zero _
      rw [hzero]
      exact (Normalized.zero _).rounds
    | finite t n f h' hc' =>
      have hvalue : toRat (.finite s m e h) * toRat (.finite t n f h')
          = withSign (s * t) (value (m * n) (e + f)) := by
        rw [value_mul]
        exact withSign_mul_withSign s t _ _
      rw [hvalue]
      exact rounds_roundWithAccuracy (by exact_mod_cast Nat.mul_pos h h')
        (extends_exact _) (fits_mul h h' hc hc')

theorem fits_div (hm : 0 < m) (hn : 0 < n) {k : Nat}
    (hk : e - k ≤ -1074 ∨ n.log2 + 53 ≤ m.log2 + k) : Fits (m * 2 ^ k / n) (e - k) := by
  rcases hk with hk | hk
  . unfold Fits
    rw [targetExponent_eq]
    omega
  . apply fits_of_log2
    have hself := Nat.log2_self_le hm.ne'
    have hlt : n < 2 ^ (n.log2 + 1) := Nat.lt_log2_self
    have hlarge : 2 ^ 52 ≤ m * 2 ^ k / n := by
      rw [Nat.le_div_iff_mul_le hn]
      calc
        2 ^ 52 * n ≤ 2 ^ 52 * 2 ^ (n.log2 + 1) := Nat.mul_le_mul_left _ hlt.le
        _ = 2 ^ (n.log2 + 53) := by ring
        _ ≤ 2 ^ (m.log2 + k) := Nat.pow_le_pow_right (by norm_num) hk
        _ = 2 ^ m.log2 * 2 ^ k := by ring
        _ ≤ m * 2 ^ k := Nat.mul_le_mul_right _ hself
    exact (Nat.le_log2 (by omega)).mpr hlarge

theorem withSign_value_div (s t : Sign) (m n k : Nat) (e f : Int) :
    withSign s (value m e) / withSign t (value n f)
      =
    withSign (s / t) (((m * 2 ^ k : Nat) / n : ℚ) * 2 ^ (e - f - k)) := by
  have hsplit : (2 : ℚ) ^ (e - f - k) = 2 ^ e / 2 ^ f / 2 ^ k := by
    rw [zpow_sub₀ (by norm_num), zpow_sub₀ (by norm_num), zpow_natCast]
  have := (two_zpow_pos f).ne'
  rw [withSign_div_withSign, hsplit]
  congr 1
  unfold value
  push_cast
  field_simp

theorem rounds_div (hu : Normalized u) (hv : Normalized v) (h0 : toRat v ≠ 0) :
    Rounds (UnpackedFloat.div Format.binary64 u v) (toRat u / toRat v) := by
  cases hv with
  | zero t => exact (h0 rfl).elim
  | finite t n f h' hc' =>
    cases hu with
    | zero s =>
      have hzero : toRat (.zero s) / toRat (.finite t n f h') = 0 := zero_div _
      rw [hzero]
      exact (Normalized.zero _).rounds
    | finite s m e h hc =>
      unfold UnpackedFloat.div divCore
      dsimp only
      generalize hlow : min (e - f) (Format.targetExponent Format.binary64
        (totalExponent m e - totalExponent n f)) = low
      obtain ⟨k, hk⟩ := Int.le.dest (show low ≤ e - f by omega)
      have hplaces : (e - f - low).toNat = k := by omega
      have hexponent : low = e - f - k := by omega
      rw [hplaces, hexponent, Nat.shiftLeft_eq]
      have hfits : Fits (m * 2 ^ k / n) (e - f - k) := by
        apply fits_div h h'
        have hbits : (Format.mantissaBits Format.binary64 : Int) = 53 := by rfl
        have hmin : Format.minExponent Format.binary64 = -1074 := by rfl
        unfold Format.targetExponent totalExponent at hlow
        rw [hbits, hmin] at hlow
        omega
      have hquotient : toRat (.finite s m e h) / toRat (.finite t n f h') = _ :=
        withSign_value_div s t m n k e f
      rw [hquotient]
      apply rounds_roundWithAccuracy _ (extends_fraction _ h') hfits
      have hm : (0 : ℚ) < (m * 2 ^ k : Nat) := by exact_mod_cast (by positivity)
      have hn : (0 : ℚ) < n := by exact_mod_cast h'
      exact div_pos hm hn

end Rounding

end Sweep
