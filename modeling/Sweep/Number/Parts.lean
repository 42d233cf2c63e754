/-!
This module contains the view of a finite `Float` as a whole mantissa scaled by a power of two, and
the roundings to whole numbers that are defined on that view.
-/

open Float.Model (UnpackedFloat Format)

namespace Sweep

structure Parts where
  negative : Bool
  mantissa : Nat
  exponent : Int

namespace Parts

@[inline]
def fraction (x : Float) : Nat :=
  (x.toBits % 0x10000000000000).toNat

@[inline]
def scale (x : Float) : Nat :=
  (x.toBits / 0x10000000000000 % 0x800).toNat

@[inline]
def ofFloat (x : Float) : Parts :=
  {
    negative := 0x8000000000000000 ≤ x.toBits
    mantissa := if scale x = 0 then fraction x else 0x10000000000000 + fraction x
    exponent := (if scale x = 0 then 1 else scale x) - 1075
  }

def sign (p : Parts) : UnpackedFloat.Sign :=
  if p.negative then .negative else .positive

def toUnpacked (p : Parts) : UnpackedFloat :=
  if h : 0 < p.mantissa then .finite p.sign p.mantissa p.exponent h else .zero p.sign

theorem toBits_eq (x : Float) : x.toBits = x.toModel.toBits := by
  rfl

theorem unpackMantissa_eq (x : Float) :
    (@UnpackedFloat.unpackMantissa Format.binary64 x.toModel.toBits.toBitVec).toNat
      = fraction x := by
  simp [UnpackedFloat.unpackMantissa, fraction, toBits_eq, BitVec.extractLsb]

theorem unpackExponent_eq (x : Float) :
    (@UnpackedFloat.unpackExponent Format.binary64 x.toModel.toBits.toBitVec).toNat
      = scale x := by
  simp [UnpackedFloat.unpackExponent, scale, toBits_eq, BitVec.extractLsb,
    Nat.shiftRight_eq_div_pow]

theorem unpackSign_eq (x : Float) :
    UnpackedFloat.Sign.ofBitVec
        (@UnpackedFloat.unpackSign Format.binary64 x.toModel.toBits.toBitVec)
      = (ofFloat x).sign := by
  have := x.toModel.toBits.toNat_lt
  have h : @UnpackedFloat.unpackSign Format.binary64 x.toModel.toBits.toBitVec = 0#1
      ↔ ¬0x8000000000000000 ≤ x.toBits := by
    rw [← BitVec.toNat_inj]
    show (BitVec.extractLsb 63 63 x.toModel.toBits.toBitVec).toNat = 0 ↔ _
    simp [toBits_eq, BitVec.extractLsb, UInt64.le_iff_toNat_le, Nat.shiftRight_eq_div_pow]
    omega
  unfold UnpackedFloat.Sign.ofBitVec sign ofFloat
  by_cases 0x8000000000000000 ≤ x.toBits <;> simp_all

theorem finite_congr {s t : UnpackedFloat.Sign} {m n : Nat} {e f : Int} {hm : 0 < m} {hn : 0 < n}
    (hs : s = t) (h : m = n) (he : e = f) :
    UnpackedFloat.finite s m e hm = UnpackedFloat.finite t n f hn := by
  subst hs h he
  rfl

theorem fraction_lt (x : Float) : fraction x < 0x10000000000000 := by
  rw [← unpackMantissa_eq]
  exact BitVec.isLt _

theorem mantissa_ofFloat (x : Float) :
    (ofFloat x).mantissa
      = if scale x = 0 then fraction x else 0x10000000000000 + fraction x := by
  rfl

theorem exponent_ofFloat (x : Float) :
    (ofFloat x).exponent = (if scale x = 0 then 1 else scale x) - 1075 := by
  rfl

theorem toUnpacked_ofFloat (x : Float) (h : scale x ≠ 2047) :
    (ofFloat x).toUnpacked = x.toModel.unpack := by
  have hsign := unpackSign_eq x
  have hscale := unpackExponent_eq x
  have hfraction := unpackMantissa_eq x
  have hlt := fraction_lt x
  have hm := mantissa_ofFloat x
  have he := exponent_ofFloat x
  have hbias : (Format.binary64.exponentBias : Int) = 1023 := by decide
  have hfull : @UnpackedFloat.unpackExponent Format.binary64 x.toModel.toBits.toBitVec
      ≠ -1#11 := by
    intro hfull
    rw [hfull] at hscale
    exact h hscale.symm
  show _ = UnpackedFloat.unpack Format.binary64 x.toModel.toBits.toBitVec
  unfold UnpackedFloat.unpack
  dsimp only
  rw [if_neg hfull]
  by_cases hzero : @UnpackedFloat.unpackExponent Format.binary64 x.toModel.toBits.toBitVec = 0#11
  . have hz : scale x = 0 := by rw [← hscale, hzero]; rfl
    rw [if_pos hz] at hm he
    rw [if_pos hzero]
    by_cases hf : @UnpackedFloat.unpackMantissa Format.binary64 x.toModel.toBits.toBitVec = 0#52
    . have hf' : fraction x = 0 := by rw [← hfraction, hf]; rfl
      rw [dif_pos hf, toUnpacked, dif_neg (by omega), hsign]
    . have hf' : fraction x ≠ 0 := by
        rw [← hfraction]
        intro h0
        exact hf (BitVec.eq_of_toNat_eq (by simpa using h0))
      rw [dif_neg hf, toUnpacked, dif_pos (by omega)]
      exact finite_congr hsign.symm (by omega) (by simp only [hscale, hbias]; omega)
  . have hz : scale x ≠ 0 := by
      rw [← hscale]
      intro h0
      exact hzero (BitVec.eq_of_toNat_eq (by simpa using h0))
    have hcat : (1#1 ++ @UnpackedFloat.unpackMantissa Format.binary64
        x.toModel.toBits.toBitVec).toNat = 0x10000000000000 + fraction x := by
      rw [BitVec.toNat_append, hfraction, ← Nat.shiftLeft_add_eq_or_of_lt hlt]
      rfl
    rw [if_neg hz] at hm he
    rw [if_neg hzero, toUnpacked, dif_pos (by omega)]
    exact finite_congr hsign.symm (by omega) (by simp only [hscale, hbias]; omega)

def numerator (p : Parts) : Nat :=
  p.mantissa <<< p.exponent.toNat

def denominator (p : Parts) : Nat :=
  1 <<< (-p.exponent).toNat

end Parts

namespace Number

def infinity : Float :=
  1 / 0

def notANumber : Float :=
  0 / 0

@[inline]
def ofWhole (negative : Bool) (n : Nat) : Float :=
  if negative then -n.toUInt64.toFloat else n.toUInt64.toFloat

def floor (x : Float) : Float :=
  let p := Parts.ofFloat x
  if p.exponent < 0 then
    let places := (-p.exponent).toNat
    let whole := p.mantissa >>> places
    if p.negative && p.mantissa != whole <<< places then
      ofWhole true (whole + 1)
    else
      ofWhole p.negative whole
  else
    x

def roundHalfAway (x : Float) : Float :=
  let p := Parts.ofFloat x
  if p.exponent < 0 then
    let places := (-p.exponent).toNat
    ofWhole p.negative ((p.mantissa + 1 <<< (places - 1)) >>> places)
  else
    x

end Number

end Sweep
