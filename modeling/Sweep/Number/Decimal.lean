import Sweep.Number.Parts

/-!
This module contains decimal numbers, their exact conversion to and from `Float`, and their
positional notation.
-/

namespace Sweep

structure Decimal where
  digits : Nat
  exponent : Int
deriving DecidableEq, Repr

namespace Decimal

def toFloat (d : Decimal) : Float :=
  Float.ofScientific d.digits (decide (d.exponent < 0)) d.exponent.natAbs

def digitsValue (cs : List Char) : Nat :=
  cs.foldl (fun n c => 10 * n + (c.toNat - '0'.toNat)) 0

def ofDigits (whole fraction : List Char) (exponent : Int) : Decimal :=
  { digits := digitsValue (whole ++ fraction), exponent := exponent - fraction.length }

def units (p : Parts) (place : Int) : Nat × Nat :=
  (p.numerator * Nat.pow 10 (-place).toNat, p.denominator * Nat.pow 10 place.toNat)

def exact (p : Parts) : Decimal :=
  if p.exponent < 0 then
    { digits := p.mantissa * Nat.pow 5 (-p.exponent).toNat, exponent := p.exponent }
  else
    { digits := p.numerator, exponent := 0 }

def nearest (p : Parts) (place : Int) : Decimal :=
  let (n, d) := units p place
  let low := n / d
  let twice := 2 * (n % d)
  let up := d < twice || (twice == d && low % 2 == 1)
  { digits := if up then low + 1 else low, exponent := place }

def reading? (x : Float) (p : Parts) (place : Int) : Option Decimal :=
  let (n, d) := units p place
  let low : Decimal := { digits := n / d, exponent := place }
  let high : Decimal := { digits := n / d + 1, exponent := place }
  match low.toFloat.toBits == x.toBits, high.toFloat.toBits == x.toBits with
  | true, true => if 2 * (n % d) < d then some low else some high
  | true, false => some low
  | false, true => some high
  | false, false => none

def topPlace (p : Parts) : Int :=
  -- the factor is a little above the logarithm of two
  (p.exponent + p.mantissa.log2 + 1) * 30103 / 100000 + 1

def shortest (x : Float) : Decimal :=
  go (Parts.ofFloat x) 20 (topPlace (Parts.ofFloat x))
where
  go (p : Parts) (steps : Nat) (place : Int) : Decimal :=
    match steps with
    -- seventeen digits always read back, so this place is never reached
    | 0 => exact p
    | steps + 1 =>
      match reading? x p place with
      | some d => d
      | none => go p steps (place - 1)

def padded (width n : Nat) : List Char :=
  let digits := Nat.toDigits 10 n
  List.replicate (width - digits.length) '0' ++ digits

def text (d : Decimal) : List Char :=
  if d.exponent < 0 then
    let places := (-d.exponent).toNat
    let unit := Nat.pow 10 places
    Nat.toDigits 10 (d.digits / unit) ++ '.' :: padded places (d.digits % unit)
  else
    Nat.toDigits 10 (d.digits * Nat.pow 10 d.exponent.toNat)

end Decimal

end Sweep
