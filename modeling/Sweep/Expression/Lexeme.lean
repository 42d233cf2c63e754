import Sweep.Expression.Operator
import Sweep.Number.Notation

/-!
This module contains the lexemes of expressions: numbers, identifiers, symbols and brackets. Each
is recognised at the start of a text and takes as many characters as it can.
-/

namespace Sweep

structure Lexeme (α : Type) where
  value : α
  text : List Char
  rest : List Char

namespace Lexeme

export Number (isDigit)

def isLower (c : Char) : Bool :=
  'a' ≤ c && c ≤ 'z'

def isIdentifierChar (c : Char) : Bool :=
  isLower c || isDigit c

def isSymbol (c : Char) : Bool :=
  let n := c.toNat
  (0x21 ≤ n && n ≤ 0x2f || 0x3a ≤ n && n ≤ 0x40 || 0x5b ≤ n && n ≤ 0x60 || 0x7b ≤ n && n ≤ 0x7e) &&
    c != '(' && c != ')'

def fraction (cs : List Char) : List Char :=
  match cs with
  | '.' :: rest => rest.takeWhile isDigit
  | _ => []

def number? (cs : List Char) : Option (Lexeme Float) :=
  let whole := cs.takeWhile isDigit
  let rest := cs.dropWhile isDigit
  if whole.isEmpty then
    none
  else if (fraction rest).isEmpty then
    some { value := (Decimal.ofDigits whole [] 0).toFloat, text := whole, rest }
  else
    some {
      value := (Decimal.ofDigits whole (fraction rest) 0).toFloat
      text := whole ++ '.' :: fraction rest
      rest := rest.tail.dropWhile isDigit
    }

def identifier? (cs : List Char) : Option (Lexeme String) :=
  match cs with
  | [] => none
  | c :: rest =>
    if isLower c then
      let text := c :: rest.takeWhile isIdentifierChar
      some { value := String.ofList text, text, rest := rest.dropWhile isIdentifierChar }
    else
      none

def symbol? (cs : List Char) : Option (Lexeme Char) :=
  match cs with
  | [] => none
  | c :: rest => if isSymbol c then some { value := c, text := [c], rest } else none

def delimiter? (cs : List Char) : Option (Lexeme Delimiter) :=
  match cs with
  | [] => none
  | c :: rest => (Delimiter.ofSymbol? c).map fun value => { value, text := [c], rest }

theorem text_append_rest_of_number? {cs : List Char} {l : Lexeme Float} (h : number? cs = some l) :
    l.text ++ l.rest = cs := by
  unfold number? at h
  simp only at h
  split at h
  . contradiction
  . have hcs := List.takeWhile_append_dropWhile (p := isDigit) (l := cs)
    split at h
    . cases h
      exact hcs
    . next hfraction =>
      cases h
      cases hrest : cs.dropWhile isDigit with
      | nil => simp [hrest, fraction] at hfraction
      | cons c rest =>
        rw [hrest] at hcs hfraction
        unfold fraction at hfraction
        split at hfraction
        . next heq =>
          cases heq
          simp only [fraction, List.tail_cons, List.append_assoc, List.cons_append,
            List.takeWhile_append_dropWhile]
          exact hcs
        . simp at hfraction

theorem text_append_rest_of_identifier? {cs : List Char} {l : Lexeme String}
    (h : identifier? cs = some l) : l.text ++ l.rest = cs := by
  unfold identifier? at h
  split at h
  . contradiction
  . split at h
    . cases h
      simp
    . contradiction

theorem text_append_rest_of_symbol? {cs : List Char} {l : Lexeme Char} (h : symbol? cs = some l) :
    l.text ++ l.rest = cs := by
  unfold symbol? at h
  split at h
  . contradiction
  . split at h
    . cases h
      rfl
    . contradiction

theorem text_append_rest_of_delimiter? {cs : List Char} {l : Lexeme Delimiter}
    (h : delimiter? cs = some l) : l.text ++ l.rest = cs := by
  unfold delimiter? at h
  split at h
  . contradiction
  . obtain ⟨_, _, rfl⟩ := Option.map_eq_some_iff.mp h
    rfl

end Lexeme

end Sweep
