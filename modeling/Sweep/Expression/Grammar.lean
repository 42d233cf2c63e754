import Sweep.Expression.Node
import Sweep.Expression.Lexeme

/-!
This module contains the grammar of expressions as a relation between texts and trees. It says which
text denotes which tree, and nothing about how a text is read.
-/

namespace Sweep.Grammar

open Lexeme (isDigit isLower isIdentifierChar)

def IsDigits (cs : List Char) : Prop :=
  cs ≠ [] ∧ ∀ c ∈ cs, isDigit c

inductive Numeral : List Char → Float → Prop
  | whole {ds : List Char} (h : IsDigits ds) : Numeral ds (Decimal.ofDigits ds [] 0).toFloat
  | point {ds fs : List Char} (hwhole : IsDigits ds) (hfraction : IsDigits fs) :
    Numeral (ds ++ '.' :: fs) (Decimal.ofDigits ds fs 0).toFloat

inductive Identifier : List Char → String → Prop
  | intro {c : Char} {cs : List Char} (hfirst : isLower c) (hrest : ∀ d ∈ cs, isIdentifierChar d) :
    Identifier (c :: cs) (String.ofList (c :: cs))

/--
The text `cs` without any blanks denotes a tree. An operation stands in brackets, with its operator
between its operands.
-/
inductive Derives : List Char → Node → Prop
  | number {cs : List Char} {value : Float} (h : Numeral cs value) : Derives cs (.const value)
  | identifier {cs : List Char} {name : String} (h : Identifier cs name) : Derives cs (.var name)
  | operation {ls rs : List Char} {left right : Node} (op : Operator) (hleft : Derives ls left)
    (hright : Derives rs right) :
    Derives ('(' :: (ls ++ op.symbol :: (rs ++ [')']))) (.binary op left right)

inductive Derivation
  | number (cs : List Char)
  | identifier (cs : List Char)
  | operation (op : Operator) (left right : Derivation)

inductive Derivation.Shows : Derivation → List Char → Node → Prop
  | number {cs : List Char} {value : Float} (h : Numeral cs value) :
    Shows (.number cs) cs (.const value)
  | identifier {cs : List Char} {name : String} (h : Identifier cs name) :
    Shows (.identifier cs) cs (.var name)
  | operation {l r : Derivation} {ls rs : List Char} {left right : Node} (op : Operator)
    (hleft : Shows l ls left) (hright : Shows r rs right) :
    Shows (.operation op l r) ('(' :: (ls ++ op.symbol :: (rs ++ [')']))) (.binary op left right)

def openBrackets (cs : List Char) : Int :=
  cs.count '(' - cs.count ')'

def NestsWithin (levels : Int) (cs : List Char) : Prop :=
  ∀ before, before <+: cs → openBrackets before ≤ levels

structure Exceeds (levels : Nat) (cs before after : List Char) : Prop where
  text_eq : cs = before ++ '(' :: after
  openBrackets_eq : openBrackets before = levels
  nestsWithin : NestsWithin levels before

end Sweep.Grammar
