import Sweep.Expression.Node

/-!
This module contains the evaluation of trees on a tuple of numbers. A result that is not a number is
an error of the operation that produced it.
-/

namespace Sweep

inductive EvalError
  | notANumber (node : Node)
  | divisionByZero (node : Node)
  | zeroOverZero (node : Node)
  | unknownVariable (name : String)

namespace EvalError

def message : EvalError → String
  | notANumber node => s!"NaN obtained during computation at node '{node.text}'"
  | divisionByZero node => s!"Division by zero at node '{node.text}'"
  | zeroOverZero node => s!"Undefined result (0/0) at node '{node.text}'"
  | unknownVariable name => s!"Invalid variable '{name}'"

end EvalError

abbrev Lookup := String → Option Nat

namespace Node

def combine (node : Node) (op : Operator) (left right : Float) : Except EvalError Float :=
  if left.isNaN || right.isNaN then
    .error (.notANumber node)
  else if op = .divide ∧ right == 0 then
    .error (if left == 0 then .zeroOverZero node else .divisionByZero node)
  else
    let value := op.apply left right
    if value.isNaN then .error (.notANumber node) else .ok value

def evaluate (lookup : Lookup) (tuple : List Float) : Node → Except EvalError Float
  | const value => .ok value
  | var name =>
    match (lookup name).bind (tuple[·]?) with
    | some value => .ok value
    | none => .error (.unknownVariable name)
  | node@(binary op left right) => do
    let leftValue ← left.evaluate lookup tuple
    let rightValue ← right.evaluate lookup tuple
    node.combine op leftValue rightValue

end Node

end Sweep
