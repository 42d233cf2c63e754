import Sweep.Expression.Cursor

/-!
This module contains expressions: texts that denote a tree once their blanks are dropped.
-/

namespace Sweep

structure Expression where
  root : Node
  source : String

namespace Expression

def parse (source : String) : Except ParseError Expression :=
  match (Cursor.start (Text.strip source.toList)).read with
  | .error stuck => .error stuck.error
  | .ok (root, c) =>
    match c.peek? with
    | none => .ok { root, source }
    | some found => .error (.trailingInput c.position found)

end Expression

end Sweep
