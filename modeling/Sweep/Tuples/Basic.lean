import Sweep.Domain.Values

/-!
This module contains the columns of values that the domains of a request generate, and the number of
tuples that they make.
-/

namespace Sweep

inductive TupleMode
  | grid
  | list
deriving DecidableEq, Repr

namespace TupleMode

def all : List TupleMode :=
  [grid, list]

def token : TupleMode → String
  | grid => "GRID"
  | list => "LIST"

def ofToken? (text : String) : Option TupleMode :=
  all.find? (·.token == text)

end TupleMode

structure Column where
  name : String
  values : List Float

structure Columns where
  toList : List Column

namespace Columns

def checkSizes (limit : Nat) (seen : List String) (total : Nat) :
    List Domain → Except DomainError Unit
  | [] => .ok ()
  | d :: ds =>
    if d.name ∈ seen then
      .error (.duplicateVariable d.name)
    else if limit < d.estimatedLength then
      .error (.tooLarge d.name limit)
    else
      let total := min (total + d.estimatedLength) maxCount
      if limit < total then
        .error (.totalTooLarge limit)
      else
        checkSizes limit (d.name :: seen) total ds

def generate (limit : Nat) (flag : CancelFlag) :
    List Domain → Except DomainError (List Column × CancelFlag)
  | [] => .ok ([], flag)
  | d :: ds => do
    let (values, flag) ← d.values limit flag
    let (columns, flag) ← generate limit flag ds
    .ok ({ name := d.name, values } :: columns, flag)

def overflow (limit : Nat) (flag : CancelFlag) : List Domain → Bool
  | [] => false
  | d :: ds =>
    -- the values are only looked at if a domain behind this one overflows
    d.overflows || (ds.any Domain.overflows &&
      match d.values limit flag with
      | .ok (_, flag) => overflow limit flag ds
      | .error _ => false)

def build (domains : List Domain) (limit : Nat) (flag : CancelFlag) :
    Except DomainError (Columns × CancelFlag) := do
  checkSizes limit [] 0 domains
  let (columns, flag) ← generate limit flag domains
  .ok ({ toList := columns }, flag)

def isEmpty (cs : Columns) : Bool :=
  cs.toList.isEmpty

def length (cs : Columns) : Nat :=
  cs.toList.length

def values (cs : Columns) : List (List Float) :=
  cs.toList.map Column.values

def slot? (cs : Columns) (name : String) : Option Nat :=
  cs.toList.findIdx? (·.name == name)

def product? (lengths : List Nat) : Option Nat :=
  lengths.foldlM (fun n length => if n * length ≤ maxCount then some (n * length) else none) 1

def tupleCount (cs : Columns) (mode : TupleMode) : Except DomainError Nat :=
  match mode with
  | .grid =>
    -- an empty column comes first, otherwise the others could be too long on the way
    if cs.values.any List.isEmpty then
      .ok 0
    else
      match product? (cs.values.map List.length) with
      | some total => .ok total
      | none => .error .tooManyTuples
  | .list =>
    let length := (cs.values.head?.map List.length).getD 0
    if cs.values.all (·.length == length) then .ok length else .error .unequalLengths

end Columns

end Sweep
