import Sweep.Json.Token

/-!
This module contains JSON documents whose members or elements matter only if they are scalars. What
stands in brackets inside of them has to be well formed and is otherwise skipped.
-/

namespace Sweep.Json

inductive Scalar
  | null
  | natural (value : Nat)
  | string (value : String)
  | other
deriving DecidableEq, Repr

inductive Expected
  -- the bracket has just been opened, so it may also be closed
  | first
  | value
  | key
  | colon
  | separator
deriving DecidableEq, Repr

namespace Expected

def ofValue? (stack : List Bracket) : Token → Option (Expected × List Bracket)
  | .opening b => some (first, b :: stack)
  | .null | .bool _ | .natural _ | .number | .string _ => some (separator, stack)
  | _ => none

def ofKey? (stack : List Bracket) : Token → Option (Expected × List Bracket)
  | .string _ => some (colon, stack)
  | _ => none

def ofElement? (b : Bracket) (stack : List Bracket) (t : Token) :
    Option (Expected × List Bracket) :=
  match b with
  | .square => ofValue? stack t
  | .curly => ofKey? stack t

def next? (expected : Expected) (b : Bracket) (stack : List Bracket) (t : Token) :
    Option (Expected × List Bracket) :=
  match expected with
  | first => if t = .closing b then some (separator, stack) else ofElement? b (b :: stack) t
  | value => ofValue? (b :: stack) t
  | key => ofKey? (b :: stack) t
  | colon => if t = .colon then some (value, b :: stack) else none
  | separator =>
    if t = .closing b then
      some (separator, stack)
    else if t = .comma then
      some (match b with | .square => value | .curly => key, b :: stack)
    else
      none

end Expected

def skip (expected : Expected) (stack : List Bracket) (ts : List Token) : Option (List Token) :=
  match stack with
  | [] => some ts
  | b :: stack =>
    match ts with
    | [] => none
    | t :: ts =>
      match expected.next? b stack t with
      | none => none
      | some (expected, stack) => skip expected stack ts
termination_by structural ts

theorem length_le_of_skip {expected : Expected} {stack : List Bracket} {ts rest : List Token}
    (h : skip expected stack ts = some rest) : rest.length ≤ ts.length := by
  induction ts generalizing expected stack with
  | nil =>
    cases stack with
    | nil => simp_all [skip]
    | cons b stack => simp [skip] at h
  | cons t ts ih =>
    cases stack with
    | nil =>
      simp only [skip, Option.some.injEq] at h
      simp [← h]
    | cons b stack =>
      simp only [skip] at h
      split at h
      . contradiction
      . have := ih h
        simp only [List.length_cons]
        omega

def Scalar.next? : List Token → Option (Scalar × List Token)
  | .null :: ts => some (null, ts)
  | .natural value :: ts => some (natural value, ts)
  | .string (some value) :: ts => some (string value, ts)
  | .string none :: ts => some (other, ts)
  | .bool _ :: ts => some (other, ts)
  | .number :: ts => some (other, ts)
  | .opening b :: ts => (skip .first [b] ts).map (other, ·)
  | _ => none

theorem Scalar.length_lt_of_next? {ts rest : List Token} {s : Scalar}
    (h : Scalar.next? ts = some (s, rest)) : rest.length < ts.length := by
  unfold Scalar.next? at h
  split at h
  case h_7 =>
    obtain ⟨_, hskip, h⟩ := Option.map_eq_some_iff.mp h
    cases h
    have := length_le_of_skip hskip
    simp only [List.length_cons]
    omega
  case h_8 => contradiction
  all_goals
    cases h
    simp

def elements? (ts : List Token) : Option (List Scalar × List Token) :=
  match h : Scalar.next? ts with
  | some (s, .comma :: rest) =>
    have := Scalar.length_lt_of_next? h
    (elements? rest).map fun (ss, rest) => (s :: ss, rest)
  | some (s, .closing .square :: rest) => some ([s], rest)
  | _ => none
termination_by ts.length
decreasing_by simp only [List.length_cons] at *; omega

def members? (ts : List Token) : Option (List (String × Scalar) × List Token) :=
  match ts with
  | .string (some key) :: .colon :: ts =>
    match h : Scalar.next? ts with
    | some (s, .comma :: rest) =>
      have := Scalar.length_lt_of_next? h
      (members? rest).map fun (ms, rest) => ((key, s) :: ms, rest)
    | some (s, .closing .curly :: rest) => some ([(key, s)], rest)
    | _ => none
  | _ => none
termination_by ts.length
decreasing_by simp only [List.length_cons] at *; omega

inductive Document
  | members (ms : List (String × Scalar))
  | elements (ss : List Scalar)
deriving DecidableEq, Repr

namespace Document

def ofTokens? : List Token → Option Document
  | [.opening .curly, .closing .curly] => some (members [])
  | [.opening .square, .closing .square] => some (elements [])
  | .opening .curly :: ts =>
    match members? ts with
    | some (ms, []) => some (members ms)
    | _ => none
  | .opening .square :: ts =>
    match elements? ts with
    | some (ss, []) => some (elements ss)
    | _ => none
  | _ => none

def ofText? (text : String) : Option Document :=
  (Token.ofText? text.toList).bind ofTokens?

end Document

end Sweep.Json
