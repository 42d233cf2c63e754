import Sweep.Text.Extender
import Sweep.Text.Ignorable
import Sweep.Text.Unprintable

/-!
This module contains the quoted form of a text in which every character is visible. Quotes,
backslashes and characters without a mark of their own are written as escapes.
-/

namespace Sweep.Text

def isInvisible (c : Char) : Bool :=
  isUnprintable c || isExtender c || isIgnorable c

def visible (c : Char) : List Char :=
  if c = '"' then ['\\', '"']
  else if c = '\\' then ['\\', '\\']
  else if c.toNat = 0x00 then ['\\', '0']
  else if c.toNat = 0x09 then ['\\', 't']
  else if c.toNat = 0x0a then ['\\', 'n']
  else if c.toNat = 0x0d then ['\\', 'r']
  else if isInvisible c then
    ['\\', 'u', '\x7b'] ++ Nat.toDigits 16 c.toNat ++ ['\x7d']
  else [c]

def quoteVisible (text : String) : String :=
  "\"" ++ String.ofList (text.toList.flatMap visible) ++ "\""

end Sweep.Text
