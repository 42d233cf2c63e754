import Sweep.Dispatch.Basic
import Sweep.Text.Visible

/-!
This module contains the workers: those that compute the result of a request, and the simplest ones,
which return a number, break down or run until they are cancelled.
-/

namespace Sweep

def Outcome.breakdown (task message : String) : Outcome :=
  .error (.worker s!"task {task} panicked with message {Text.quoteVisible message}")

namespace Work

def value (x : Float) : Work :=
  fun _ => some (.ok x)

def breakdown (task message : String) : Work :=
  fun _ => some (.breakdown task message)

def untilCancelled : Work
  | .never => none
  | .after _ => some (.error .cancelled)

end Work

namespace Computation

/--
What the worker of a computation comes to. The number of its task is not known here, and there is an
`N` in its place.
-/
def outcome (c : Computation) (limit : Nat) (flag : CancelFlag) : Outcome :=
  if c.breaksDown limit flag then .breakdown "N" "capacity overflow" else c.run limit flag

def work (c : Computation) (limit : Nat) : Work :=
  fun flag => some (c.outcome limit flag)

end Computation

end Sweep
