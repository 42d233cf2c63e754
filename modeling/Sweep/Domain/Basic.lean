import Sweep.Domain.Error
import Sweep.Expression.Lexeme
import Sweep.Text.Blank

/-!
This module contains the domains of variables: a lower end, an upper end and a positive step, and
the text in which they are declared.
-/

namespace Sweep

def maxCount : Nat := 18446744073709551615

structure Domain where
  name : String
  lower : Float
  step : Float
  upper : Float
  step_pos : 0 < step

namespace Domain

def make (name : String) (lower step upper : Float) : Except DomainError Domain :=
  if step_pos : 0 < step then
    .ok { name, lower, step, upper, step_pos }
  else
    .error (.nonPositiveStep name step)

def isName (cs : List Char) : Bool :=
  match Lexeme.identifier? cs with
  | some l => l.rest.isEmpty
  | none => false

def number (entry : String) (field : List Char) : Except DomainError Float :=
  let value := String.ofList field
  match Number.ofText? value with
  | some x => .ok x
  | none => .error (.invalidNumber entry value)

def parse (entry : String) : Except DomainError Domain :=
  match (entry.toList.splitOn ':').map Text.trim with
  | [name, lower, step, upper] =>
    if isName name then do
      let lower ← number entry lower
      let step ← number entry step
      let upper ← number entry upper
      make (String.ofList name) lower step upper
    else
      .error (.invalidName (String.ofList name))
  | _ => .error (.invalidEntry entry)

def parseSpec (spec : String) : Except DomainError (List Domain) :=
  (spec.toList.splitOn ',').mapM fun entry => parse (String.ofList entry)

def isEmpty (d : Domain) : Bool :=
  !(d.lower ≤ d.upper)

/--
The number of steps from one end to the other, counted in advance. It is `maxCount` if there is no
such number or if it is larger.
-/
def estimatedLength (d : Domain) : Nat :=
  if d.isEmpty then
    0
  else
    let steps := Number.floor ((d.upper - d.lower) / d.step) + 1
    if steps.isFinite && steps < 18446744073709551616 then steps.toUInt64.toNat else maxCount

end Domain

end Sweep
