import Sweep.Expression.Eval

/-!
This module contains the meaning of trees on a tuple of numbers as relations between trees and
outcomes. It says which trees have a value and which are to blame for an error, and nothing about
the order in which they are looked at.
-/

namespace Sweep

/--
The number that an operator makes of two others, whether it can stand for a value or not.
-/
inductive Operator.Yields : Operator → Float → Float → Float → Prop
  | add (left right : Float) : Yields add left right (left + right)
  | subtract (left right : Float) : Yields subtract left right (left - right)
  | multiply (left right : Float) : Yields multiply left right (left * right)
  | divide (left right : Float) : Yields divide left right (left / right)
  | power (left right : Float) : Yields power left right (left ^ right)

/--
The operator has no value on two numbers, for which an operation is to be blamed in the given way. A
zero counts with either sign.
-/
inductive Operator.Fault : Operator → Float → Float → (Node → EvalError) → Prop
  | zeroOverZero {left right : Float} (hleft : left = 0 ∨ left = -0)
    (hright : right = 0 ∨ right = -0) : Fault divide left right .zeroOverZero
  | divisionByZero {left right : Float} (hleft : ¬(left = 0 ∨ left = -0))
    (hright : right = 0 ∨ right = -0) : Fault divide left right .divisionByZero
  | notANumber {op : Operator} {left right value : Float}
    (hdefined : ¬(op = divide ∧ (right = 0 ∨ right = -0))) (hvalue : op.Yields left right value)
    (hnan : value.isNaN = true) : Fault op left right .notANumber

namespace Node

def postorder : Node → List Node
  | const value => [const value]
  | var name => [var name]
  | binary op left right => left.postorder ++ right.postorder ++ [binary op left right]

variable (lookup : Lookup) (tuple : List Float)

inductive Evaluates : Node → Float → Prop
  | const (value : Float) : Evaluates (const value) value
  | var {name : String} {value : Float} (h : (lookup name).bind (tuple[·]?) = some value) :
    Evaluates (var name) value
  | binary {op : Operator} {left right : Node} {a b value : Float} (hleft : Evaluates left a)
    (hright : Evaluates right b) (h : ∀ blame, ¬op.Fault a b blame)
    (hvalue : op.Yields a b value) : Evaluates (binary op left right) value

inductive Fails : Node → EvalError → Prop
  | var {name : String} (h : (lookup name).bind (tuple[·]?) = none) :
    Fails (var name) (.unknownVariable name)
  | binary {op : Operator} {left right : Node} {a b : Float} {blame : Node → EvalError}
    (hleft : Evaluates lookup tuple left a) (hright : Evaluates lookup tuple right b)
    (h : op.Fault a b blame) :
    Fails (binary op left right) (blame (binary op left right))

end Node

end Sweep
