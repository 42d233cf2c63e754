import Sweep.Request.Compute
import Sweep.Tuples.Rows

/-!
This module contains a second computation of requests that has everything at hand at once: first
all values of every variable, then all assignments of values to variables, then all results. It says
what the result of a request is, and nothing about cursors, slots or cancel flags.
-/

namespace Sweep

abbrev Assignment := List (String × Float)

namespace Domain

def sequence (d : Domain) : Except DomainError (List Float) :=
  go d.lower
where
  go (value : Float) : Except DomainError (List Float) :=
    if hle : value ≤ d.upper then
      if hnext : d.next value ≤ value then
        .error (.stepTooSmall d.name d.step value)
      else
        have := Rank.above_lt_of_not_le hle hnext
        (go (d.next value)).map (value :: ·)
    else
      .ok []
  termination_by Rank.above value

end Domain

namespace TupleMode

def table (mode : TupleMode) (columns : List (List Float)) :
    Except DomainError (List (List Float)) :=
  match mode with
  | grid =>
    if (rows grid columns).length ≤ maxCount then
      .ok (rows grid columns)
    else
      .error .tooManyTuples
  | list =>
    if ∀ xs ∈ columns, ∀ ys ∈ columns, xs.length = ys.length then
      .ok (rows list columns)
    else
      .error .unequalLengths

end TupleMode

namespace Node

def checked (node : Node) (value : Float) : Except EvalError Float :=
  if value.isNaN then .error (.notANumber node) else .ok value

def operate (node : Node) (op : Operator) (left right : Float) : Except EvalError Float :=
  if left.isNaN || right.isNaN then
    .error (.notANumber node)
  else
    match op with
    | .add => node.checked (left + right)
    | .subtract => node.checked (left - right)
    | .multiply => node.checked (left * right)
    | .power => node.checked (left ^ right)
    | .divide =>
      if right == 0 then
        .error (if left == 0 then .zeroOverZero node else .divisionByZero node)
      else
        node.checked (left / right)

def valueAt (assignment : Assignment) : Node → Except EvalError Float
  | const value => .ok value
  | var name =>
    match assignment.lookup name with
    | some value => .ok value
    | none => .error (.unknownVariable name)
  | node@(binary op left right) => do
    let leftValue ← left.valueAt assignment
    let rightValue ← right.valueAt assignment
    node.operate op leftValue rightValue

end Node

namespace Naive

def results (blame : Expression → EvalError → AggregateError) (expressions : List Expression)
    (assignments : List Assignment) : Except AggregateError (List Float) :=
  (assignments.mapM valuesAt).map List.flatten
where
  valuesAt (assignment : Assignment) : Except AggregateError (List Float) :=
    expressions.mapM fun e => (e.root.valueAt assignment).mapError (blame e)

def aggregate (kind : AggregationKind) (expressions : List Expression)
    (assignments : List Assignment) : Except AggregateError Float :=
  let count := assignments.length.toUInt64.toFloat
  match kind with
  | .count => .ok count
  | kind =>
    if assignments.isEmpty then
      .error (.noTuples kind)
    else
      match kind with
      | .min =>
        (results (.evaluation ·.source) expressions assignments).map
          (·.foldl (fun acc value => if value < acc then value else acc) Number.infinity)
      | .max =>
        (results (.evaluation ·.source) expressions assignments).map
          (·.foldl (fun acc value => if acc < value then value else acc) (-Number.infinity))
      | _ =>
        (results (fun _ => .firstExpression) (expressions.take 1) assignments).map
          (·.foldl (· + ·) 0 / count)

/--
The values of some variable are more than there is room for, and the generation comes to it: the
sizes are in order and the variables before it have their values.
-/
def Overflows (c : Computation) (limit : Nat) : Prop :=
  ∃ before d after, Domain.parseSpec c.spec = .ok (before ++ d :: after) ∧
    Columns.checkSizes limit [] 0 (before ++ d :: after) = .ok () ∧
    (∃ columns, before.mapM Domain.sequence = .ok columns) ∧
    -- `2 ^ 60` numbers of eight bytes are more than an address space of 63 bits holds
    1152921504606846976 ≤ d.estimatedLength + 1

def run (c : Computation) (limit : Nat) : Except ComputeError Float := do
  let domains ← (Domain.parseSpec c.spec).mapError .domain
  (Columns.checkSizes limit [] 0 domains).mapError .domain
  let columns ← (domains.mapM Domain.sequence).mapError .domain
  let table ← (c.mode.table columns).mapError .domain
  let expressions ← Computation.parseExpressions c.expressions
  let assignments := table.map ((domains.map Domain.name).zip ·)
  (aggregate c.kind expressions assignments).mapError .aggregate

end Naive

end Sweep
