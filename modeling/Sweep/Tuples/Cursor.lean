import Sweep.Tuples.Basic

/-!
This module contains the cursor over the tuples of a request. Tuples are made one at a time, since a
grid may have far more of them than could be stored.
-/

namespace Sweep

structure Wheel where
  first : Float
  others : List Float
  current : Float
  later : List Float

namespace Wheel

def ofColumn? : List Float → Option Wheel
  | [] => none
  | v :: vs => some { first := v, others := vs, current := v, later := vs }

def reset (w : Wheel) : Wheel :=
  { w with current := w.first, later := w.others }

def turn? (w : Wheel) : Option Wheel :=
  match w.later with
  | [] => none
  | v :: vs => some { w with current := v, later := vs }

def advance? : List Wheel → Option (List Wheel)
  | [] => none
  | w :: ws =>
    match advance? ws with
    | some ws => some (w :: ws)
    | none => w.turn?.map (· :: ws.map reset)

end Wheel

inductive TupleSource
  | wheels (ws : List Wheel)
  | rows (columns : List (List Float))

namespace TupleSource

def ofColumns (mode : TupleMode) (columns : List (List Float)) : TupleSource :=
  match mode with
  | .grid => wheels (columns.filterMap Wheel.ofColumn?)
  | .list => rows columns

def tuple : TupleSource → List Float
  | wheels ws => ws.map Wheel.current
  | rows columns => columns.filterMap List.head?

def next : TupleSource → TupleSource
  | wheels ws => wheels ((Wheel.advance? ws).getD ws)
  | rows columns => rows (columns.map List.tail)

end TupleSource

structure Tuples where
  total : Nat
  emitted : Nat
  source : TupleSource

namespace Tuples

def ofColumns (cs : Columns) (mode : TupleMode) : Except DomainError Tuples := do
  let total ← cs.tupleCount mode
  .ok { total, emitted := 0, source := .ofColumns mode cs.values }

def isEmpty (t : Tuples) : Bool :=
  t.total == 0

def next? (t : Tuples) : Option (List Float × Tuples) :=
  if t.emitted < t.total then
    some (t.source.tuple, { t with emitted := t.emitted + 1, source := t.source.next })
  else
    none

/--
Read the cancel flag and take the next tuple only if it is not set. The cursor comes back from a
call that fails, too.
-/
def call (t : Tuples) (flag : CancelFlag) : Except Cancelled (Option (List Float)) × Tuples :=
  match flag.check with
  | .error e => (.error e, t)
  | .ok _ =>
    match t.next? with
    | none => (.ok none, t)
    | some (tuple, rest) => (.ok (some tuple), rest)

def nextChecked (t : Tuples) (flag : CancelFlag) :
    Except Cancelled (Option (List Float × Tuples) × CancelFlag) :=
  match t.call flag with
  | (.error e, _) => .error e
  | (.ok tuple?, rest) => .ok (tuple?.map (·, rest), flag.next)

theorem nextChecked_of_isSet (t : Tuples) {flag : CancelFlag} (h : flag.isSet) :
    t.nextChecked flag = .error .cancelled := by
  unfold nextChecked call CancelFlag.check
  rw [if_pos h]

theorem nextChecked_of_not_isSet (t : Tuples) {flag : CancelFlag} (h : ¬flag.isSet) :
    t.nextChecked flag = .ok (t.next?, flag.next) := by
  unfold nextChecked call CancelFlag.check
  rw [if_neg h]
  cases t.next? <;> rfl

def remaining (t : Tuples) : Nat :=
  t.total - t.emitted

theorem remaining_lt_of_next? {t rest : Tuples} {tuple : List Float}
    (h : t.next? = some (tuple, rest)) : rest.remaining < t.remaining := by
  unfold next? at h
  split at h
  . cases h
    simp only [remaining]
    omega
  . contradiction

theorem remaining_lt_of_nextChecked {t rest : Tuples} {tuple : List Float} {flag flag' : CancelFlag}
    (h : t.nextChecked flag = .ok (some (tuple, rest), flag')) : rest.remaining < t.remaining := by
  by_cases hset : flag.isSet
  . rw [t.nextChecked_of_isSet hset] at h
    contradiction
  . rw [t.nextChecked_of_not_isSet hset, Except.ok.injEq, Prod.mk.injEq] at h
    exact remaining_lt_of_next? h.1

def fold (t : Tuples) (flag : CancelFlag) (step : σ → List Float → Except ε σ) (cancelled : ε)
    (acc : σ) : Except ε σ :=
  match h : t.nextChecked flag with
  | .error _ => .error cancelled
  | .ok (none, _) => .ok acc
  | .ok (some (tuple, rest), flag) =>
    match step acc tuple with
    | .error e => .error e
    | .ok acc =>
      have := remaining_lt_of_nextChecked h
      rest.fold flag step cancelled acc
termination_by t.remaining

end Tuples

end Sweep
