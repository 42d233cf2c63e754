import Sweep.Aggregate.Basic

/-!
This module contains the number of variables that an aggregation looks up. It tells which reading of
a cancel flag comes after a given lookup.
-/

namespace Sweep

def Aggregate.lookups (kind : AggregationKind) (expressions : List Expression) : Nat :=
  match kind with
  | .count => 0
  | .avg => ((expressions.take 1).flatMap (·.root.names)).length
  | _ => (expressions.flatMap (·.root.names)).length

def CancelFlag.atLookup (perTuple n : Nat) : CancelFlag :=
  if perTuple = 0 ∨ n = 0 then never else after ((n + perTuple - 1) / perTuple)

end Sweep
