import Sweep.Json.Quoted
import Sweep.Number.Notation

/-!
This module contains the tokens of JSON texts.
-/

namespace Sweep.Json

inductive Bracket
  | square
  | curly
deriving DecidableEq, Repr

inductive Token
  | opening (b : Bracket)
  | closing (b : Bracket)
  | comma
  | colon
  | null
  | bool (value : Bool)
  -- a number that is written with digits alone
  | natural (value : Nat)
  | number
  -- a string, or `none` if a surrogate stands alone in it
  | string (value : Option String)
deriving DecidableEq, Repr

namespace Token

def isBlank (c : Char) : Bool :=
  c == ' ' || c == '\t' || c == '\n' || c == '\r'

export Number (isDigit)

def isWhole (digits : List Char) : Bool :=
  match digits with
  | [] => false
  | [_] => true
  | c :: _ => c != '0'

def afterFraction? (cs : List Char) : Option (List Char) :=
  match cs with
  | '.' :: rest =>
    if (rest.takeWhile isDigit).isEmpty then none else some (rest.dropWhile isDigit)
  | _ => some cs

def afterExponent? (cs : List Char) : Option (List Char) :=
  match cs with
  | 'e' :: rest => digits? (afterSign rest)
  | 'E' :: rest => digits? (afterSign rest)
  | _ => some cs
where
  afterSign (cs : List Char) : List Char :=
    match cs with
    | '+' :: rest => rest
    | '-' :: rest => rest
    | _ => cs
  digits? (cs : List Char) : Option (List Char) :=
    if (cs.takeWhile isDigit).isEmpty then none else some (cs.dropWhile isDigit)

def number? (cs : List Char) : Option (Token × List Char) :=
  let digits := cs.takeWhile isDigit
  let behind := cs.dropWhile isDigit
  if isWhole digits then do
    let rest ← afterFraction? behind
    let rest ← afterExponent? rest
    -- without a fraction and an exponent nothing of the text behind the digits is taken
    let token := if rest = behind then natural (Decimal.digitsValue digits) else number
    some (token, rest)
  else
    none

def next? (cs : List Char) : Option (Token × List Char) :=
  match cs with
  | '[' :: rest => some (opening .square, rest)
  | ']' :: rest => some (closing .square, rest)
  | '\x7b' :: rest => some (opening .curly, rest)
  | '\x7d' :: rest => some (closing .curly, rest)
  | ',' :: rest => some (comma, rest)
  | ':' :: rest => some (colon, rest)
  | 'n' :: 'u' :: 'l' :: 'l' :: rest => some (null, rest)
  | 't' :: 'r' :: 'u' :: 'e' :: rest => some (bool true, rest)
  | 'f' :: 'a' :: 'l' :: 's' :: 'e' :: rest => some (bool false, rest)
  | '"' :: rest => do
    let (codes, rest) ← codes? rest
    some (string ((chars? codes).map String.ofList), rest)
  | '-' :: rest => do
    let (_, rest) ← number? rest
    some (number, rest)
  | cs => number? cs

theorem length_le_of_afterFraction? {cs rest : List Char} (h : afterFraction? cs = some rest) :
    rest.length ≤ cs.length := by
  unfold afterFraction? at h
  split at h
  . next tail =>
    split at h
    . contradiction
    . cases h
      have := (List.dropWhile_suffix (l := tail) isDigit).length_le
      simp only [List.length_cons]
      omega
  . cases h
    omega

theorem length_le_of_afterExponent? {cs rest : List Char} (h : afterExponent? cs = some rest) :
    rest.length ≤ cs.length := by
  have hdigits {cs rest : List Char} (h : afterExponent?.digits? cs = some rest) :
      rest.length ≤ cs.length := by
    unfold afterExponent?.digits? at h
    split at h
    . contradiction
    . cases h
      exact (List.dropWhile_suffix isDigit).length_le
  have hsign (cs : List Char) : (afterExponent?.afterSign cs).length ≤ cs.length := by
    unfold afterExponent?.afterSign
    split <;> simp
  unfold afterExponent? at h
  split at h
  . next tail =>
    have := hdigits h
    have := hsign tail
    simp only [List.length_cons]
    omega
  . next tail =>
    have := hdigits h
    have := hsign tail
    simp only [List.length_cons]
    omega
  . cases h
    omega

theorem length_lt_of_number? {cs rest : List Char} {t : Token} (h : number? cs = some (t, rest)) :
    rest.length < cs.length := by
  unfold number? at h
  simp only [Option.bind_eq_bind] at h
  split at h
  . next hwhole =>
    obtain ⟨middle, hmiddle, h⟩ := Option.bind_eq_some_iff.mp h
    obtain ⟨last, hlast, h⟩ := Option.bind_eq_some_iff.mp h
    cases h
    have := length_le_of_afterFraction? hmiddle
    have := length_le_of_afterExponent? hlast
    have hlength := congrArg List.length
      (List.takeWhile_append_dropWhile (p := isDigit) (l := cs))
    have hpos : 0 < (cs.takeWhile isDigit).length := by
      unfold isWhole at hwhole
      split at hwhole
      . contradiction
      . next heq => simp [heq]
      . next heq => simp [heq]
    rw [List.length_append] at hlength
    omega
  . contradiction

theorem length_lt_of_next? {cs rest : List Char} {t : Token} (h : next? cs = some (t, rest)) :
    rest.length < cs.length := by
  unfold next? at h
  split at h
  case h_10 =>
    obtain ⟨_, hcodes, h⟩ := Option.bind_eq_some_iff.mp h
    cases h
    have := length_lt_of_codes? hcodes
    simp only [List.length_cons]
    omega
  case h_11 =>
    obtain ⟨_, hnumber, h⟩ := Option.bind_eq_some_iff.mp h
    cases h
    have := length_lt_of_number? hnumber
    simp only [List.length_cons]
    omega
  case h_12 => exact length_lt_of_number? h
  all_goals
    cases h
    simp only [List.length_cons]
    omega

def ofText? (cs : List Char) : Option (List Token) :=
  match hcs : cs.dropWhile isBlank with
  | [] => some []
  | c :: rest =>
    match hnext : next? (c :: rest) with
    | none => none
    | some (t, rest') =>
      have := length_lt_of_next? hnext
      have := (List.dropWhile_suffix (l := cs) isBlank).length_le
      have := congrArg List.length hcs
      (ofText? rest').map (t :: ·)
termination_by cs.length
decreasing_by simp only [List.length_cons] at *; omega

end Token

end Sweep.Json
