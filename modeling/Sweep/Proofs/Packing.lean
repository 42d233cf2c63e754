import Mathlib
import Sweep.Number.Parts
import Sweep.Number.Rank

/-!
This module contains the two directions between numbers and the words that store them: a word is
packed from its fields again, and a number in the range of the words is unpacked as it was.
-/

open Float.Model (UnpackedFloat Format)
open Float.Model.UnpackedFloat

namespace Sweep

namespace Packing

theorem sign_ofBitVec (v : BitVec 1) : (Sign.ofBitVec v).toBitVec = v := by
  revert v
  decide

theorem packComponents_unpack (b : BitVec Format.binary64.numBits) :
    packComponents Format.binary64 (Sign.ofBitVec (unpackSign b)) (unpackExponent b)
        (unpackMantissa b)
      =
    b := by
  unfold packComponents
  rw [sign_ofBitVec]
  ext i hi
  simp [unpackSign, unpackExponent, unpackMantissa]
  grind

theorem unpackSign_packComponents (s : Sign) (e : BitVec 11) (m : BitVec 52) :
    Sign.ofBitVec (unpackSign (packComponents Format.binary64 s e m)) = s := by
  have h : unpackSign (packComponents Format.binary64 s e m) = s.toBitVec := by
    ext i hi
    simp [unpackSign, packComponents]
    grind
  rw [h]
  cases s <;> rfl

theorem unpack_packComponents (s : Sign) (e : BitVec 11) (m : BitVec 52) :
    unpack Format.binary64 (packComponents Format.binary64 s e m) =
      if e = -1#11 then
        if m = 0#52 then .infinity s else .notANumber
      else if e = 0#11 then
        if h : m = 0#52 then
          .zero s
        else
          .finite s m.toNat (-1074) (by simpa [BitVec.toNat_pos, BitVec.pos_iff_ne_zero])
      else
        .finite s (0x10000000000000 + m.toNat) (e.toNat - 1075) (by omega) := by
  have hbias : (Format.binary64.exponentBias : Int) = 1023 := by rfl
  have happend : (1#1 ++ m).toNat = 0x10000000000000 + m.toNat := by
    rw [BitVec.toNat_append, BitVec.toNat_one (by decide), ← Nat.shiftLeft_add_eq_or_of_lt m.isLt,
      Nat.shiftLeft_eq, Nat.one_mul]
  unfold unpack
  simp only [unpackMantissa_packComponents, unpackExponent_packComponents,
    unpackSign_packComponents]
  split
  . rfl
  . split
    . next he =>
      split
      . rfl
      . rw [UnpackedFloat.finite.injEq]
        simp [he, hbias]
    . rw [UnpackedFloat.finite.injEq]
      simp only [happend, hbias, true_and]
      omega

variable {s : Sign} {m : Nat} {e : Int}

theorem log2_eq (hlow : 0x10000000000000 ≤ m) (hhigh : m < 0x20000000000000) : m.log2 = 52 := by
  have hpos : m ≠ 0 := by omega
  have := (Nat.le_log2 (k := 52) hpos).mpr hlow
  have := (Nat.log2_lt (k := 53) hpos).mpr hhigh
  omega

theorem pack_normal (h : 0 < m) (hlow : 0x10000000000000 ≤ m) (hhigh : m < 0x20000000000000)
    (he : -1074 ≤ e) (he' : e ≤ 971) :
    pack Format.binary64 (.finite s m e h)
      =
    packComponents Format.binary64 s (BitVec.ofNat 11 (e + 1075).toNat) (BitVec.ofNat 52 m) := by
  have hbiased : (e + (Format.binary64.exponentBias : Nat) + (52 : Nat)).toNat
      = (e + 1075).toNat := by
    show (e + (1023 : Nat) + (52 : Nat)).toNat = _
    omega
  simp only [pack, hbiased, log2_eq hlow hhigh]
  rw [if_neg (by omega), if_pos (by rfl)]

theorem pack_subnormal (h : 0 < m) (hhigh : m < 0x10000000000000) :
    pack Format.binary64 (.finite s m (-1074) h)
      =
    packComponents Format.binary64 s 0#11 (BitVec.ofNat 52 m) := by
  have hlog := (Nat.log2_lt (k := 52) (by omega)).mpr hhigh
  have hbits : m.log2 + 1 ≠ Format.binary64.mantissaBits := by
    show m.log2 + 1 ≠ 53
    omega
  simp only [pack]
  rw [if_neg (by decide), if_neg hbits]

theorem pack_unpack_packComponents (s : Sign) (e : BitVec 11) (m : BitVec 52)
    (h : e = -1#11 → m ≠ 0#52 →
      packComponents Format.binary64 s e m = packedNaN Format.binary64) :
    pack Format.binary64 (unpack Format.binary64 (packComponents Format.binary64 s e m))
      =
    packComponents Format.binary64 s e m := by
  have he := e.isLt
  have hm := m.isLt
  rw [unpack_packComponents]
  split
  . next hfull =>
    split
    . next hzero =>
      rw [hfull, hzero]
      rfl
    . -- there are many words for what is not a number, and only one of them is packed
      next hzero => exact (h hfull hzero).symm
  . next hfull =>
    split
    . next hempty =>
      split
      . next hzero =>
        rw [hempty, hzero]
        rfl
      . next hzero =>
        rw [pack_subnormal _ hm, hempty, BitVec.ofNat_toNat, BitVec.setWidth_eq]
    . next hempty =>
      have hempty : e.toNat ≠ 0 := by
        intro h0
        exact hempty (BitVec.eq_of_toNat_eq h0)
      have hfull : e.toNat ≠ 2047 := by
        intro h0
        exact hfull (BitVec.eq_of_toNat_eq h0)
      rw [pack_normal _ (by omega) (by omega) (by omega) (by omega)]
      have hexponent : ((e.toNat : Int) - 1075 + 1075).toNat = e.toNat := by omega
      have hmantissa : BitVec.ofNat 52 (0x10000000000000 + m.toNat) = m := by
        apply BitVec.eq_of_toNat_eq
        simp
        omega
      rw [hexponent, hmantissa, BitVec.ofNat_toNat, BitVec.setWidth_eq]

theorem pack_unpack (x : Float.Model) : Float.Model.pack x.unpack = x := by
  have hpack : pack Format.binary64 x.unpack = x.toBits.toBitVec := by
    unfold Float.Model.unpack
    have heq := packComponents_unpack x.toBits.toBitVec
    rw [← heq]
    apply pack_unpack_packComponents
    intro hfull hzero
    rw [heq]
    exact x.valid.eq_packedNaN hfull hzero
  cases x with
  | mk bits hvalid => simp [Float.Model.pack, hpack]

inductive Signed (s : Sign) : UnpackedFloat → Prop
  | infinity : Signed s (.infinity s)
  | zero : Signed s (.zero s)
  | finite (m : Nat) (e : Int) (h : 0 < m) : Signed s (.finite s m e h)

theorem signed_packComponents (s : Sign) {e : BitVec 11} (m : BitVec 52)
    (h : e = -1#11 → m = 0#52) :
    Signed s (unpack Format.binary64 (packComponents Format.binary64 s e m)) := by
  rw [unpack_packComponents]
  split
  . next hfull =>
    rw [if_pos (h hfull)]
    apply Signed.infinity
  . split
    . split
      . apply Signed.zero
      . apply Signed.finite
    . apply Signed.finite

theorem Signed.eq_of_packComponents {t : Sign} {e : BitVec 11} {m : BitVec 52}
    (h : Signed s (unpack Format.binary64 (packComponents Format.binary64 t e m))) : t = s := by
  rw [unpack_packComponents] at h
  split at h
  . split at h
    . cases h
      rfl
    . cases h
  . split at h
    . split at h
      . cases h
        rfl
      . cases h
        rfl
    . cases h
      rfl

theorem Signed.unpack_pack {u : UnpackedFloat} (h : Signed s u) :
    Signed s (Float.Model.pack u).unpack := by
  show Signed s (unpack Format.binary64 (pack Format.binary64 u))
  cases h with
  | infinity =>
    apply signed_packComponents
    intro _
    rfl
  | zero =>
    apply signed_packComponents
    intro _
    rfl
  | finite m e h =>
    simp only [pack]
    split
    . apply signed_packComponents
      intro _
      rfl
    . next hbiased =>
      split
      . apply signed_packComponents
        intro hfull
        have hfull := congrArg BitVec.toNat hfull
        simp at hfull hbiased
        omega
      . apply signed_packComponents
        intro hfull
        contradiction

theorem unpack_pack_normal (h : 0 < m) (hlow : 0x10000000000000 ≤ m)
    (hhigh : m < 0x20000000000000) (he : -1074 ≤ e) (he' : e ≤ 971) :
    (Float.Model.pack (.finite s m e h)).unpack = .finite s m e h := by
  show unpack Format.binary64 (pack Format.binary64 _) = _
  have hexponent : (BitVec.ofNat 11 (e + 1075).toNat).toNat = (e + 1075).toNat := by
    simp
    omega
  rw [pack_normal h hlow hhigh he he', unpack_packComponents, if_neg, if_neg]
  . rw [UnpackedFloat.finite.injEq, hexponent]
    simp
    omega
  . intro hempty
    rw [hempty] at hexponent
    simp at hexponent
    omega
  . intro hfull
    rw [hfull] at hexponent
    simp at hexponent
    omega

theorem unpack_pack_subnormal (h : 0 < m) (hhigh : m < 0x10000000000000) :
    (Float.Model.pack (.finite s m (-1074) h)).unpack = .finite s m (-1074) h := by
  show unpack Format.binary64 (pack Format.binary64 _) = _
  have hmantissa : (BitVec.ofNat 52 m).toNat = m := by
    simp
    omega
  rw [pack_subnormal h hhigh, unpack_packComponents, if_neg (by decide), if_pos rfl, dif_neg]
  . rw [UnpackedFloat.finite.injEq]
    exact ⟨rfl, hmantissa, rfl⟩
  . intro hzero
    rw [hzero] at hmantissa
    simp at hmantissa
    omega

theorem unpack_pack_infinity (s : Sign) :
    (Float.Model.pack (.infinity s)).unpack = .infinity s := by
  cases s <;> rfl

theorem unpack_pack_overflow (h : 0 < m) (he : 972 ≤ e) :
    (Float.Model.pack (.finite s m e h)).unpack = .infinity s := by
  have hlarge : 2 ^ 11 ≤ (e + (Format.binary64.exponentBias : Nat) + (52 : Nat)).toNat + 1 := by
    show 2 ^ 11 ≤ (e + (1023 : Nat) + (52 : Nat)).toNat + 1
    omega
  have hpack : pack Format.binary64 (.finite s m e h) = pack Format.binary64 (.infinity s) := by
    simp only [pack]
    rw [if_pos hlarge]
  show unpack Format.binary64 (pack Format.binary64 _) = _
  rw [hpack]
  exact unpack_pack_infinity s

end Packing

theorem Parts.isFinite_unpack_iff {x : Float} :
    x.toModel.unpack.isFinite = true ↔ Parts.scale x ≠ 2047 := by
  have hfull : @unpackExponent Format.binary64 x.toModel.toBits.toBitVec = -1#11 ↔
      Parts.scale x = 2047 := by
    rw [← Parts.unpackExponent_eq, ← BitVec.toNat_inj]
    rfl
  rw [ne_eq, ← hfull]
  unfold Float.Model.unpack UnpackedFloat.unpack
  dsimp only
  split
  . next h => split <;> exact iff_of_false Bool.false_ne_true (not_not_intro h)
  . next h =>
    split
    . split <;> exact iff_of_true rfl h
    . exact iff_of_true rfl h

theorem Number.eq_iff_unpack_eq {x y : Float} :
    x = y ↔ x.toModel.unpack = y.toModel.unpack := by
  constructor
  . rintro rfl
    rfl
  . intro h
    have hmodel : x.toModel = y.toModel := by
      rw [← Packing.pack_unpack x.toModel, ← Packing.pack_unpack y.toModel, h]
    cases x
    cases y
    exact congrArg _ hmodel

end Sweep
