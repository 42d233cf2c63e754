import Sweep.Expression.Basic
import Sweep.Expression.Eval
import Sweep.Tuples.Cursor

/-!
This module contains the aggregation of expressions over tuples: their least value, their greatest
value, the average of the first expression and the number of tuples.
-/

namespace Sweep

inductive AggregationKind
  | min
  | max
  | avg
  | count
deriving DecidableEq, Repr

namespace AggregationKind

def all : List AggregationKind :=
  [min, max, avg, count]

def token : AggregationKind → String
  | min => "MIN"
  | max => "MAX"
  | avg => "AVG"
  | count => "COUNT"

def ofToken? (text : String) : Option AggregationKind :=
  all.find? (·.token == text)

end AggregationKind

inductive AggregateError
  | evaluation (expression : String) (cause : EvalError)
  | firstExpression (cause : EvalError)
  | noTuples (kind : AggregationKind)
  | noExpressions
  | cancelled

namespace AggregateError

def message : AggregateError → String
  | evaluation expression cause =>
    s!"Error while evaluating the expression '{expression}' : {cause.message}"
  | firstExpression cause =>
    s!"An error occurred while computing AVG for the first expression : {cause.message}"
  | noTuples kind => s!"No tuples to aggregate for {kind.token}"
  | noExpressions => "No expressions to aggregate"
  | cancelled => Cancelled.message .cancelled

end AggregateError

namespace Aggregate

def lesser (x y : Float) : Float :=
  if y < x then y else x

def greater (x y : Float) : Float :=
  if x < y then y else x

def extremum (select : Float → Float → Float) (expressions : List Expression) (lookup : Lookup)
    (acc : Float) (tuple : List Float) : Except AggregateError Float :=
  expressions.foldlM (fun acc e =>
    match e.root.evaluate lookup tuple with
    | .ok value => .ok (select acc value)
    | .error cause => .error (.evaluation e.source cause)) acc

def sum (first : Expression) (lookup : Lookup) (acc : Float) (tuple : List Float) :
    Except AggregateError Float :=
  match first.root.evaluate lookup tuple with
  | .ok value => .ok (acc + value)
  | .error cause => .error (.firstExpression cause)

end Aggregate

def aggregate (kind : AggregationKind) (tuples : Tuples) (expressions : List Expression)
    (lookup : Lookup) (flag : CancelFlag) : Except AggregateError Float :=
  match kind, expressions with
  | .count, _ => .ok tuples.total.toUInt64.toFloat
  | _, [] => .error .noExpressions
  | kind, first :: others =>
    if tuples.isEmpty then
      .error (.noTuples kind)
    else
      match kind with
      | .min =>
        tuples.fold flag (Aggregate.extremum Aggregate.lesser (first :: others) lookup) .cancelled
          Number.infinity
      | .max =>
        tuples.fold flag (Aggregate.extremum Aggregate.greater (first :: others) lookup) .cancelled
          (-Number.infinity)
      -- only the average is left
      | _ => do
        let total ← tuples.fold flag (Aggregate.sum first lookup) .cancelled 0
        .ok (total / tuples.total.toUInt64.toFloat)

end Sweep
