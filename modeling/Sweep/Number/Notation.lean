import Sweep.Number.Decimal

/-!
This module contains the text of a `Float`: the notations in which numbers are written and the
forms in which they may be read.
-/

namespace Sweep.Number

def signed (x : Float) (magnitude : Float → List Char) : String :=
  if x.isNaN then
    "NaN"
  else
    let text := if x.isFinite then magnitude x.abs else ['i', 'n', 'f']
    String.ofList (if (Parts.ofFloat x).negative then '-' :: text else text)

def toText (x : Float) : String :=
  signed x fun x => if x == 0 then ['0'] else (Decimal.shortest x).text

def toFixed (places : Nat) (x : Float) : String :=
  signed x fun x => (Decimal.nearest (Parts.ofFloat x) (-places)).text

def isDigit (c : Char) : Bool :=
  '0' ≤ c && c ≤ '9'

def lower (c : Char) : Char :=
  if 'A' ≤ c && c ≤ 'Z' then Char.ofNat (c.toNat + 32) else c

def readExponent (cs : List Char) : Option Int :=
  match cs with
  | [] => some 0
  | c :: rest =>
    if c == 'e' || c == 'E' then
      match rest with
      | '+' :: digits => (magnitude digits).map Int.ofNat
      | '-' :: digits => (magnitude digits).map (-Int.ofNat ·)
      | digits => (magnitude digits).map Int.ofNat
    else
      none
where
  magnitude (digits : List Char) : Option Nat :=
    if !digits.isEmpty && digits.all isDigit then some (Decimal.digitsValue digits) else none

def readMagnitude (cs : List Char) : Option Float :=
  let name := String.ofList (cs.map lower)
  if name == "inf" || name == "infinity" then
    some infinity
  else if name == "nan" then
    some notANumber
  else
    let (whole, rest) := cs.span isDigit
    let (fraction, rest) :=
      match rest with
      | '.' :: rest => rest.span isDigit
      | rest => ([], rest)
    if whole.isEmpty && fraction.isEmpty then
      none
    else
      (readExponent rest).map fun exponent => (Decimal.ofDigits whole fraction exponent).toFloat

def ofText? (text : String) : Option Float :=
  match text.toList with
  | '-' :: cs => (readMagnitude cs).map (-·)
  | '+' :: cs => readMagnitude cs
  | cs => readMagnitude cs

end Sweep.Number
