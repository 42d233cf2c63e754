/-!
This module contains the reading of UTF-8 from bytes that need not be well formed. Every longest
start of a sequence that cannot be completed is read as one replacement character.
-/

namespace Sweep.Text

structure Lead where
  bits : Nat
  following : Nat
  low : Nat
  high : Nat

def lead? (b : Nat) : Option Lead :=
  if 0xc2 ≤ b ∧ b ≤ 0xdf then
    some { bits := b - 0xc0, following := 1, low := 0x80, high := 0xbf }
  else if 0xe0 ≤ b ∧ b ≤ 0xef then
    some {
      bits := b - 0xe0
      following := 2
      low := if b = 0xe0 then 0xa0 else 0x80
      high := if b = 0xed then 0x9f else 0xbf
    }
  else if 0xf0 ≤ b ∧ b ≤ 0xf4 then
    some {
      bits := b - 0xf0
      following := 3
      low := if b = 0xf0 then 0x90 else 0x80
      high := if b = 0xf4 then 0x8f else 0xbf
    }
  else
    none

def replacement : Char := Char.ofNat 0xfffd

def first (b : Nat) : List Char × Option Lead :=
  if b < 0x80 then
    ([Char.ofNat b], none)
  else
    match lead? b with
    | some l => ([], some l)
    | none => ([replacement], none)

def next (opened : Option Lead) (b : Nat) : List Char × Option Lead :=
  match opened with
  | none => first b
  | some l =>
    if l.low ≤ b ∧ b ≤ l.high then
      let bits := l.bits * 0x40 + (b - 0x80)
      if l.following = 1 then
        ([Char.ofNat bits], none)
      else
        ([], some { bits, following := l.following - 1, low := 0x80, high := 0xbf })
    else
      let (cs, opened) := first b
      (replacement :: cs, opened)

def decode (opened : Option Lead) : List UInt8 → List Char
  | [] => if opened.isSome then [replacement] else []
  | b :: bytes =>
    let (cs, opened) := next opened b.toNat
    cs ++ decode opened bytes

def ofUtf8 (bytes : List UInt8) : List Char :=
  decode none bytes

def toUtf8 (text : String) : List UInt8 :=
  text.toUTF8.toList

end Sweep.Text
