import Sweep.Cancel.Flag
import Sweep.Domain.Basic
import Sweep.Number.Rank

/-!
This module contains the values of a domain: from the lower end in steps up to the upper end, each
rounded to twelve decimal places so that the steps do not drift.
-/

namespace Sweep

namespace Number

/--
The number rounded to twelve decimal places, a half going away from zero. From `2 ^ 53` units of the
last place on a number has no digits there that could be rounded.
-/
def roundToPrecision (value : Float) : Float :=
  let scaled := value * 1e12
  if !scaled.isFinite || 9007199254740992 ≤ scaled.abs then
    value
  else
    roundHalfAway scaled / 1e12

end Number

namespace Domain

def next (d : Domain) (value : Float) : Float :=
  Number.roundToPrecision (value + d.step)

/--
The largest number of values for which there is room in an address space of 63 bits.
-/
def maxRoom : Nat := 1152921504606846975

def overflows (d : Domain) : Bool :=
  -- room is made in advance, for one value more than is to be expected
  maxRoom < min (d.estimatedLength + 1) maxCount

/--
The values of a domain for which there is room, and the cancel flag after it was read once for each
of them. Nothing is generated if more than `limit` values are to be expected.
-/
def values (d : Domain) (limit : Nat) (flag : CancelFlag) :
    Except DomainError (List Float × CancelFlag) :=
  if limit < d.estimatedLength then
    .error (.tooLarge d.name limit)
  else
    go d.lower flag #[]
where
  go (value : Float) (flag : CancelFlag) (acc : Array Float) :
      Except DomainError (List Float × CancelFlag) :=
    if hle : value ≤ d.upper then
      -- a flag that is set is noticed before a step that is too small
      match flag.check with
      | .error _ => .error .cancelled
      | .ok flag =>
        if hnext : d.next value ≤ value then
          .error (.stepTooSmall d.name d.step value)
        else
          have := Rank.above_lt_of_not_le hle hnext
          go (d.next value) flag (acc.push value)
    else
      .ok (acc.toList, flag)
  termination_by Rank.above value

end Domain

end Sweep
