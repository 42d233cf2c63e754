import Sweep.Expression.Operator
import Sweep.Number.Notation

/-!
This module contains the trees that expressions denote and their canonical text.
-/

namespace Sweep

inductive Node
  | const (value : Float)
  | var (name : String)
  | binary (op : Operator) (left right : Node)

namespace Node

def text : Node → String
  | const value => Number.toText value
  | var name => name
  | binary op left right => "(" ++ left.text ++ op.symbol.toString ++ right.text ++ ")"

def height : Node → Nat
  | const _ => 0
  | var _ => 0
  | binary _ left right => max left.height right.height + 1

def names : Node → List String
  | const _ => []
  | var name => [name]
  | binary _ left right => left.names ++ right.names

end Node

end Sweep
