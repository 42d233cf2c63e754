import Sweep.Expression.Grammar
import Sweep.Proofs.Decimals
import Sweep.Proofs.NotANumber

/-!
This module contains the reading of printed numbers: the text of a number that is neither negative
nor infinite is a numeral for exactly that number.
-/

open Float.Model (UnpackedFloat Format)
open Float.Model.UnpackedFloat

namespace Sweep

open Grammar (IsDigits Numeral)
open Packing
open Rounding (value)

namespace Parts

variable {x : Float} {s : Sign} {m : Nat} {e : Int} {h : 0 < m}

theorem sign_of_signed {s : Sign} (hx : Signed s x.toModel.unpack) : (ofFloat x).sign = s := by
  have hsign := unpackSign_eq x
  unfold Float.Model.unpack at hx
  rw [← packComponents_unpack x.toModel.toBits.toBitVec] at hx
  rw [hx.eq_of_packComponents] at hsign
  exact hsign.symm

theorem negative_iff_sign_eq {p : Parts} : p.negative = true ↔ p.sign = .negative := by
  unfold sign
  split <;> simp_all

theorem negative_of_signed (hx : Signed .positive x.toModel.unpack) :
    (ofFloat x).negative = false := by
  rw [Bool.eq_false_iff, ne_eq, negative_iff_sign_eq, sign_of_signed hx]
  exact nofun

theorem parts_of_unpack (hx : x.toModel.unpack = .finite .positive m e h) :
    (ofFloat x).mantissa = m ∧ (ofFloat x).exponent = e := by
  have hscale : scale x ≠ 2047 := by
    rw [← isFinite_unpack_iff, hx]
    rfl
  have hparts := toUnpacked_ofFloat x hscale
  rw [hx] at hparts
  unfold toUnpacked at hparts
  split at hparts
  . simp only [UnpackedFloat.finite.injEq] at hparts
    exact hparts.2
  . contradiction

end Parts

namespace Decimal

variable {x : Float} {m : Nat} {e : Int} {h : 0 < m}

theorem toFloat_exact (hx : x.toModel.unpack = .finite .positive m e h) :
    (exact (Parts.ofFloat x)).toFloat = x := by
  obtain ⟨hmantissa, hexponent⟩ := Parts.parts_of_unpack hx
  have hc := canonical_of_unpack hx
  have hlow := hc.le
  have hmodel : x = .ofModel (.pack (.finite .positive m e h)) := by
    rw [← hx, pack_unpack]
  unfold exact Parts.numerator
  rw [hmantissa, hexponent, Nat.shiftLeft_eq]
  split
  . next hneg =>
    obtain ⟨k, rfl⟩ : ∃ k : Nat, e = -k := ⟨(-e).toNat, by omega⟩
    have hfive : Nat.pow 5 k = 5 ^ k := by rfl
    rw [Int.neg_neg, Int.toNat_natCast, hmodel, hfive]
    apply toFloat_quotient (by positivity) (by omega) (by omega) hc
    have hten : (10 : ℚ) ^ k = 2 ^ k * 5 ^ k := by
      rw [← mul_pow]
      norm_num
    unfold value
    rw [zpow_neg, zpow_natCast, hten]
    push_cast
    field_simp
  . next hpos =>
    obtain ⟨k, rfl⟩ : ∃ k : Nat, e = k := ⟨e.toNat, by omega⟩
    rw [Int.toNat_natCast, hmodel]
    apply toFloat_of_value (by positivity) hc
    unfold value
    push_cast
    rw [zpow_natCast]

theorem eq_of_toBits_eq {y : Float} (hbits : (y.toBits == x.toBits) = true) : y = x := by
  rw [Number.eq_iff_unpack_eq]
  unfold Float.Model.unpack
  rw [← Parts.toBits_eq, ← Parts.toBits_eq, eq_of_beq hbits]

theorem reading?_eq_some {p : Parts} {place : Int} {d : Decimal}
    (hd : reading? x p place = some d) : d.toFloat = x ∧ d.exponent = place := by
  unfold reading? at hd
  dsimp only at hd
  split at hd
  . next hlow hhigh =>
    split at hd
    . cases hd
      exact ⟨eq_of_toBits_eq hlow, rfl⟩
    . cases hd
      exact ⟨eq_of_toBits_eq hhigh, rfl⟩
  . next hlow _ =>
    cases hd
    exact ⟨eq_of_toBits_eq hlow, rfl⟩
  . next _ hhigh =>
    cases hd
    exact ⟨eq_of_toBits_eq hhigh, rfl⟩
  . contradiction

theorem shortest.go_cases (x : Float) (p : Parts) (steps : Nat) (place : Int) :
    go x p steps place = exact p ∨
      ((go x p steps place).toFloat = x ∧ (go x p steps place).exponent ≤ place) := by
  induction steps generalizing place with
  | zero =>
    left
    rfl
  | succ steps ih =>
    unfold go
    split
    . next d hd =>
      right
      obtain ⟨hvalue, hexponent⟩ := reading?_eq_some hd
      exact ⟨hvalue, hexponent.le⟩
    . rcases ih (place - 1) with hexact | ⟨hvalue, hexponent⟩
      . left
        exact hexact
      . right
        exact ⟨hvalue, by omega⟩

theorem exponent_exact_le (p : Parts) : (exact p).exponent ≤ 0 := by
  unfold exact
  split
  . exact Int.le_of_lt ‹_›
  . exact Int.le_refl 0

theorem toFloat_shortest (hx : x.toModel.unpack = .finite .positive m e h) :
    (shortest x).toFloat = x ∧ (shortest x).exponent ≤ 2048 := by
  obtain ⟨hmantissa, hexponent⟩ := Parts.parts_of_unpack hx
  have hrange := Rank.inRange x
  rw [hx] at hrange
  have htop : topPlace (Parts.ofFloat x) ≤ 2048 := by
    cases hrange with
    | finite _ _ _ _ hlt _ hle =>
      have hlog := (Nat.log2_lt (k := 53) (by omega)).mpr hlt
      unfold topPlace
      rw [hmantissa, hexponent]
      omega
  unfold shortest
  rcases shortest.go_cases x (Parts.ofFloat x) 20 (topPlace (Parts.ofFloat x)) with
    hexact | ⟨hvalue, hplace⟩
  . rw [hexact]
    have := exponent_exact_le (Parts.ofFloat x)
    exact ⟨toFloat_exact hx, by omega⟩
  . exact ⟨hvalue, by omega⟩

/-! The digits of decimals. -/

theorem digitsValue_eq (cs : List Char) : digitsValue cs = Nat.ofDigitChars 10 cs 0 := by
  rw [Nat.ofDigitChars_eq_foldl]
  rfl

theorem isDigits_toDigits (n : Nat) : IsDigits (Nat.toDigits 10 n) := by
  constructor
  . exact Nat.toDigits_ne_nil
  . intro c hc
    have hdigit := Nat.isDigit_of_mem_toDigits (by decide) (by decide) hc
    simp only [Char.isDigit, Bool.and_eq_true, decide_eq_true_eq] at hdigit
    simp only [Number.isDigit, Bool.and_eq_true, decide_eq_true_eq]
    exact hdigit

theorem length_padded {width n : Nat} (hwidth : 0 < width) (hn : n < 10 ^ width) :
    (padded width n).length = width := by
  have hlength := (Nat.length_toDigits_le_iff (b := 10) (by decide) hwidth).mpr hn
  unfold padded
  simp
  omega

theorem isDigits_padded (width n : Nat) : IsDigits (padded width n) := by
  obtain ⟨hne, hdigits⟩ := isDigits_toDigits n
  unfold padded
  constructor
  . simp
  . intro c hc
    rcases List.mem_append.mp hc with hzero | hc
    . rw [List.eq_of_mem_replicate hzero]
      rfl
    . exact hdigits c hc

theorem digitsValue_append_padded {width n q : Nat} (hwidth : 0 < width) (hn : n < 10 ^ width) :
    digitsValue (Nat.toDigits 10 q ++ padded width n) = q * 10 ^ width + n := by
  have hlength := length_padded hwidth hn
  rw [digitsValue_eq, Nat.ofDigitChars_append, Nat.ofDigitChars_ten_toDigits,
    Nat.ofDigitChars_eq_ofDigitChars_zero, hlength]
  unfold padded
  rw [Nat.ofDigitChars_append, Nat.ofDigitChars_replicate_zero, Nat.mul_zero,
    Nat.ofDigitChars_ten_toDigits, Nat.mul_comm]

theorem numeral_text {d : Decimal} (hd : d.exponent ≤ 2048) : Numeral d.text d.toFloat := by
  obtain ⟨n, exponent⟩ := d
  unfold text
  dsimp only at hd ⊢
  split
  . next hneg =>
    obtain ⟨k, rfl⟩ : ∃ k : Nat, exponent = -k := ⟨(-exponent).toNat, by omega⟩
    rw [Int.neg_neg, Int.toNat_natCast]
    have hlt : n % 10 ^ k < 10 ^ k := Nat.mod_lt _ (by positivity)
    have hvalue : ofDigits (Nat.toDigits 10 (n / 10 ^ k)) (padded k (n % 10 ^ k)) 0
        = { digits := n, exponent := -k } := by
      unfold ofDigits
      rw [digitsValue_append_padded (by omega) hlt, length_padded (by omega) hlt,
        Nat.div_add_mod']
      simp
    rw [← hvalue]
    apply Numeral.point
    . apply isDigits_toDigits
    . apply isDigits_padded
  . obtain ⟨k, rfl⟩ : ∃ k : Nat, exponent = k := ⟨exponent.toNat, by omega⟩
    have hvalue : ofDigits (Nat.toDigits 10 (n * 10 ^ k)) [] 0
        = { digits := n * 10 ^ k, exponent := 0 } := by
      unfold ofDigits
      rw [List.append_nil, digitsValue_eq, Nat.ofDigitChars_ten_toDigits]
      rfl
    rw [Int.toNat_natCast, ← toFloat_shift n (by omega), ← hvalue]
    apply Numeral.whole
    apply isDigits_toDigits

end Decimal

namespace Number

open Rounding (Magnitude)

variable {x : Float}

theorem signed_of_magnitude (hx : Magnitude x.toModel.unpack) :
    Signed .positive x.toModel.unpack := by
  generalize x.toModel.unpack = u at hx
  cases hx with
  | zero => apply Signed.zero
  | finite m e h => apply Signed.finite

theorem isFinite_eq (x : Float) : x.isFinite = x.toModel.unpack.isFinite := by
  rfl

theorem isFinite_of_magnitude {u : UnpackedFloat} (h : Magnitude u) : u.isFinite = true := by
  cases h <;> rfl

theorem abs_of_magnitude (hx : Magnitude x.toModel.unpack) : x.abs = x := by
  have habs : x.abs = .ofModel (.pack x.toModel.unpack.abs) := by rfl
  have hself : x.toModel.unpack.abs = x.toModel.unpack := by
    generalize x.toModel.unpack = u at hx
    cases hx <;> rfl
  rw [habs, hself, pack_unpack]

theorem signed_eq_of_magnitude (hx : Magnitude x.toModel.unpack)
    (magnitude : Float → List Char) : (signed x magnitude).toList = magnitude x := by
  have hsigned := signed_of_magnitude hx
  have hnan := not_isNaN_of_signed hsigned
  have hfinite : x.isFinite = true := isFinite_of_magnitude hx
  unfold signed
  rw [hnan, hfinite, Parts.negative_of_signed hsigned, abs_of_magnitude hx]
  simp

theorem numeral_toText (hx : Magnitude x.toModel.unpack) : Numeral (toText x).toList x := by
  have hbeq : (x == 0) = x.toModel.unpack.beq (.zero .positive) := by rfl
  unfold toText
  rw [signed_eq_of_magnitude hx, hbeq]
  generalize hu : x.toModel.unpack = u at hx
  cases hx with
  | zero =>
    have hzero : x = (Decimal.ofDigits ['0'] [] 0).toFloat := by
      rw [eq_iff_unpack_eq, hu]
      rfl
    rw [if_pos (by rfl)]
    rw [hzero]
    apply Numeral.whole
    simp [IsDigits, isDigit]
  | finite m e h =>
    obtain ⟨hvalue, hexponent⟩ := Decimal.toFloat_shortest hu
    have hnumeral := Decimal.numeral_text hexponent
    rw [hvalue] at hnumeral
    rw [if_neg (by simp [UnpackedFloat.beq, UnpackedFloat.compare])]
    exact hnumeral

theorem magnitude_or_eq_infinity (hx : Signed .positive x.toModel.unpack) :
    Magnitude x.toModel.unpack ∨ x = infinity := by
  rw [eq_iff_unpack_eq]
  generalize x.toModel.unpack = u at hx
  cases hx with
  | infinity => exact .inr rfl
  | zero => exact .inl .zero
  | finite m e h => exact .inl (.finite m e h)

theorem toText_infinity : toText infinity = "inf" := by
  rfl

end Number

end Sweep
