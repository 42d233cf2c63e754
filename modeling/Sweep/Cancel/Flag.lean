/-!
This module contains cancel flags, as the computation that polls one of them sees it: a row of
readings that finds the flag unset up to some moment and set ever after.
-/

namespace Sweep

inductive Cancelled
  | cancelled
deriving DecidableEq, Repr

namespace Cancelled

def message : Cancelled → String
  | cancelled => "computation cancelled"

end Cancelled

/--
A cancel flag that is either never set or set once it has been read a number of times.
-/
inductive CancelFlag
  | never
  | after (readings : Nat)
deriving DecidableEq, Repr

namespace CancelFlag

def isSet : CancelFlag → Bool
  | never => false
  | after readings => readings == 0

def next : CancelFlag → CancelFlag
  | never => never
  | after readings => after (readings - 1)

def check (flag : CancelFlag) : Except Cancelled CancelFlag :=
  if flag.isSet then .error .cancelled else .ok flag.next

@[simp]
theorem check_never : never.check = .ok never := by
  rfl

@[simp]
theorem check_after_zero : (after 0).check = .error .cancelled := by
  rfl

@[simp]
theorem check_after_succ (n : Nat) : (after (n + 1)).check = .ok (after n) := by
  rfl

end CancelFlag

end Sweep
