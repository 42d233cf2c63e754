/-!
This module contains the binary operators of expressions and the brackets around their operands.
-/

namespace Sweep

inductive Operator
  | add
  | subtract
  | multiply
  | divide
  | power
deriving DecidableEq, Repr

namespace Operator

def all : List Operator :=
  [add, subtract, multiply, divide, power]

def symbol : Operator → Char
  | add => '+'
  | subtract => '-'
  | multiply => '*'
  | divide => '/'
  | power => '^'

def ofSymbol? (c : Char) : Option Operator :=
  all.find? (·.symbol == c)

theorem ofSymbol?_eq_some_iff {c : Char} {op : Operator} :
    ofSymbol? c = some op ↔ op.symbol = c := by
  constructor
  . intro h
    simpa using List.find?_some h
  . rintro rfl
    cases op <;> rfl

def apply (op : Operator) (left right : Float) : Float :=
  match op with
  | add => left + right
  | subtract => left - right
  | multiply => left * right
  | divide => left / right
  | power => left ^ right

end Operator

inductive Delimiter
  | opening
  | closing
deriving DecidableEq, Repr

namespace Delimiter

def symbol : Delimiter → Char
  | opening => '('
  | closing => ')'

def ofSymbol? (c : Char) : Option Delimiter :=
  [opening, closing].find? (·.symbol == c)

end Delimiter

end Sweep
