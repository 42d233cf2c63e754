import Sweep.Proofs.Arithmetic
import Sweep.Proofs.RoundTrip

/-!
This module contains the reading of all printed numbers, negative and infinite ones included: the
text of a number is read back as that number.
-/

open Float.Model (UnpackedFloat Format)
open Float.Model.UnpackedFloat

namespace Sweep.Number

open Grammar (IsSymbol)
open Packing (Signed)

variable {x : Float}

/-! Signs and absolute values. -/

theorem unpack_neg (x : Float) : (-x).toModel.unpack = x.toModel.unpack.neg := by
  by_cases hfinite : x.isFinite
  . exact neg_eq hfinite
  . have hfinite : ¬x.toModel.unpack.isFinite := hfinite
    show (Float.Model.pack x.toModel.unpack.neg).unpack = _
    generalize x.toModel.unpack = u at hfinite
    cases u with
    | infinity s => exact Packing.unpack_pack_infinity (-s)
    | notANumber => rfl
    | _ => contradiction

theorem unpack_abs (x : Float) : x.abs.toModel.unpack = x.toModel.unpack.abs := by
  by_cases hfinite : x.isFinite
  . exact abs_eq hfinite
  . have hfinite : ¬x.toModel.unpack.isFinite := hfinite
    show (Float.Model.pack x.toModel.unpack.abs).unpack = _
    generalize x.toModel.unpack = u at hfinite
    cases u with
    | infinity s => exact Packing.unpack_pack_infinity .positive
    | notANumber => rfl
    | _ => contradiction

theorem signed_abs {s : Sign} (hx : Signed s x.toModel.unpack) :
    Signed .positive x.abs.toModel.unpack := by
  rw [unpack_abs]
  generalize x.toModel.unpack = u at hx
  cases hx with
  | infinity => exact .infinity
  | zero => exact .zero
  | finite m e h => exact .finite m e h

theorem neg_abs_of_negative (hx : Signed .negative x.toModel.unpack) : -x.abs = x := by
  rw [eq_iff_unpack_eq, unpack_neg, unpack_abs]
  generalize x.toModel.unpack = u at hx
  cases hx <;> rfl

/-! The text of a number that is not negative. -/

theorem readMagnitude_toText (hx : Signed .positive x.toModel.unpack) :
    readMagnitude (toText x).toList = some x := by
  rcases magnitude_or_eq_infinity hx with hmagnitude | rfl
  . exact readMagnitude_of_numeral (numeral_toText hmagnitude)
  . rfl

theorem plain_toText (hx : Signed .positive x.toModel.unpack) :
    ∀ c ∈ (toText x).toList, Lexeme.isIdentifierChar c ∨ c = '.' := by
  rcases magnitude_or_eq_infinity hx with hmagnitude | rfl
  . exact Grammar.plain_of_numeral (numeral_toText hmagnitude)
  . exact Grammar.plain_of_identifier Grammar.identifier_inf

/-! The text of any number. -/

theorem isFinite_abs_iff (x : Float) : x.abs.isFinite = x.isFinite := by
  rw [isFinite_eq, isFinite_eq, unpack_abs]
  cases x.toModel.unpack <;> rfl

theorem toList_toText_of_negative (hx : Signed .negative x.toModel.unpack) :
    (toText x).toList = '-' :: (toText x.abs).toList := by
  have hnan := not_isNaN_of_signed hx
  have hnegative := Parts.negative_iff_sign_eq.mpr (Parts.sign_of_signed hx)
  rcases magnitude_or_eq_infinity (signed_abs hx) with hmagnitude | hinfinity
  . have hfinite : x.isFinite = true := by
      rw [← isFinite_abs_iff]
      exact isFinite_of_magnitude hmagnitude
    unfold toText
    rw [signed_eq_of_magnitude hmagnitude]
    unfold signed
    rw [hnan, hnegative, hfinite]
    simp
  . have hfinite : x.isFinite = false := by
      rw [← isFinite_abs_iff, hinfinity]
      rfl
    rw [hinfinity, toText_infinity]
    unfold toText signed
    rw [hnan, hnegative, hfinite]
    simp

theorem ofText?_toText (hx : x.isNaN = false) : ofText? (toText x) = some x := by
  obtain ⟨s, hs⟩ := Packing.exists_signed (not_isNaN_iff.mp hx)
  unfold ofText?
  cases s with
  | positive =>
    have hread := readMagnitude_toText hs
    have hplain := plain_toText hs
    split
    . next heq =>
      have := hplain '-' (by simp [heq])
      contradiction
    . next heq =>
      have := hplain '+' (by simp [heq])
      contradiction
    . exact hread
  | negative =>
    rw [toList_toText_of_negative hs]
    show (readMagnitude (toText x.abs).toList).map (-·) = some x
    rw [readMagnitude_toText (signed_abs hs), Option.map_some, neg_abs_of_negative hs]

theorem isSymbol_toText (hx : x.isNaN = false) : ∀ c ∈ (toText x).toList, IsSymbol c := by
  obtain ⟨s, hs⟩ := Packing.exists_signed (not_isNaN_iff.mp hx)
  intro c hc
  cases s with
  | positive => exact Grammar.isSymbol_of_plain (plain_toText hs c hc)
  | negative =>
    rw [toList_toText_of_negative hs] at hc
    rcases List.mem_cons.mp hc with rfl | hc
    . exact .operator .subtract
    . exact Grammar.isSymbol_of_plain (plain_toText (signed_abs hs) c hc)

end Sweep.Number
