import Sweep.Cancel.Flag
import Sweep.Number.Notation

/-!
This module contains the errors about domains and tuples.
-/

namespace Sweep

inductive DomainError
  | invalidEntry (entry : String)
  | invalidNumber (entry value : String)
  | invalidName (name : String)
  | duplicateVariable (name : String)
  | nonPositiveStep (name : String) (step : Float)
  | stepTooSmall (name : String) (step value : Float)
  | tooLarge (name : String) (limit : Nat)
  | totalTooLarge (limit : Nat)
  | tooManyTuples
  | unequalLengths
  | cancelled

namespace DomainError

def message : DomainError → String
  | invalidEntry entry =>
    s!"Invalid variable values '{entry}'. Required format: name:lower:step:upper"
  | invalidNumber entry value => s!"Invalid number '{value}' in variable values '{entry}'"
  | invalidName name => s!"Invalid variable name '{name}'"
  | duplicateVariable name => s!"Variable '{name}' is declared more than once"
  | nonPositiveStep name step =>
    s!"Invalid variable values for '{name}': step must be positive, got {Number.toText step}"
  | stepTooSmall name step value =>
    s!"Step {Number.toText step} of variable '{name}' is too small to advance past " ++
      Number.toText value
  | tooLarge name limit => s!"Domain of variable '{name}' exceeds {limit} values"
  | totalTooLarge limit => s!"Variable domains exceed {limit} values in total"
  | tooManyTuples => "Number of value tuples exceeds the addressable range"
  | unequalLengths => "All variable value lists must have the same length"
  | cancelled => Cancelled.message .cancelled

end DomainError

end Sweep
