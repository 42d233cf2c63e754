import Sweep.Expression.Lexeme
import Sweep.Expression.Node
import Sweep.Text.Blank

/-!
This module contains the reading of trees from a text, with a cursor that only moves forward. The
grammar has a bracket pair around every operation:

  expression := number | identifier | '(' expression operator expression ')'

One character therefore decides what is read next.
-/

namespace Sweep

inductive ParseError
  | unexpectedEnd (position : Nat)
  | unexpectedChar (position : Nat) (found : Char)
  | expectedDelimiter (position : Nat) (expected : Delimiter) (found : Char)
  | expectedOperator (position : Nat) (found : Char)
  | unknownOperator (position : Nat) (found : Char)
  | tooDeep (position : Nat) (limit : Nat)
  | trailingInput (position : Nat) (found : Char)
deriving DecidableEq, Repr

namespace ParseError

def message : ParseError → String
  | unexpectedEnd position => s!"Unexpected end of expression at {position}"
  | unexpectedChar position found => s!"Unexpected char at {position}: '{found}'"
  | expectedDelimiter position expected found =>
    s!"Unexpected char at {position} instead of '{expected.symbol}': '{found}'"
  | expectedOperator position found =>
    s!"Unexpected char at {position} instead of operator: '{found}'"
  | unknownOperator position found => s!"Unknown operator at {position}: '{found}'"
  | tooDeep position limit => s!"Expression nested deeper than {limit} levels at {position}"
  | trailingInput position found =>
    s!"Invalid expression format: unexpected trailing input at {position}: '{found}'"

end ParseError

structure Cursor where
  position : Nat
  rest : List Char
deriving DecidableEq, Repr

structure Stuck where
  error : ParseError
  cursor : Cursor
deriving DecidableEq, Repr

namespace Cursor

def maxNesting : Nat := 256

def start (cs : List Char) : Cursor :=
  { position := 0, rest := cs }

def atEnd (c : Cursor) : Bool :=
  c.rest.isEmpty

def peek? (c : Cursor) : Option Char :=
  c.rest.head?

def skip (c : Cursor) (l : Lexeme α) : Cursor :=
  { position := c.position + Text.byteLength l.text, rest := l.rest }

def stuck (c : Cursor) (error : Nat → Char → ParseError) : Stuck :=
  match c.rest with
  | [] => { error := .unexpectedEnd c.position, cursor := c }
  | found :: _ => { error := error c.position found, cursor := c }

def readOperator (c : Cursor) : Except Stuck (Operator × Cursor) :=
  match Lexeme.symbol? c.rest with
  | some l =>
    match Operator.ofSymbol? l.value with
    | some op => .ok (op, c.skip l)
    | none => .error (c.stuck .unknownOperator)
  | none => .error (c.stuck .expectedOperator)

def readDelimiter (c : Cursor) (expected : Delimiter) : Except Stuck Cursor :=
  match Lexeme.delimiter? c.rest with
  | some l =>
    if l.value = expected then
      .ok (c.skip l)
    else
      .error (c.stuck (.expectedDelimiter · expected ·))
  | none => .error (c.stuck (.expectedDelimiter · expected ·))

def readNode (levels : Nat) (c : Cursor) : Except Stuck (Node × Cursor) :=
  match Lexeme.number? c.rest with
  | some l => .ok (.const l.value, c.skip l)
  | none =>
    match Lexeme.identifier? c.rest with
    | some l => .ok (.var l.value, c.skip l)
    | none =>
      match c.readDelimiter .opening with
      | .error _ => .error (c.stuck .unexpectedChar)
      | .ok inner =>
        match levels with
        -- the bracket that is one too many stays unread
        | 0 => .error { error := .tooDeep c.position maxNesting, cursor := c }
        | levels + 1 => do
          let (left, c) ← inner.readNode levels
          let (op, c) ← c.readOperator
          let (right, c) ← c.readNode levels
          let c ← c.readDelimiter .closing
          .ok (.binary op left right, c)

def read (c : Cursor) : Except Stuck (Node × Cursor) :=
  c.readNode maxNesting

def behind : Except Stuck (Node × Cursor) → Cursor
  | .ok (_, c) => c
  | .error stuck => stuck.cursor

def readMany (times : Nat) (c : Cursor) : List (Except ParseError Node × Cursor) :=
  match times with
  | 0 => []
  | times + 1 =>
    let result := c.read
    ((result.map (·.1)).mapError (·.error), behind result) :: (behind result).readMany times

end Cursor

end Sweep
