import Sweep.Number.Parts

/-!
This module contains spans of time in whole nanoseconds.
-/

namespace Sweep

structure Duration where
  nanos : Nat
deriving DecidableEq, Repr

namespace Duration

def zero : Duration :=
  { nanos := 0 }

def ofSecondsAndNanos (seconds nanos : Nat) : Duration :=
  { nanos := seconds * 1000000000 + nanos }

def ofMillis (millis : Nat) : Duration :=
  { nanos := millis * 1000000 }

def toMillis (d : Duration) : Nat :=
  d.nanos / 1000000

@[simp]
theorem toMillis_ofMillis (millis : Nat) : (ofMillis millis).toMillis = millis := by
  simp [ofMillis, toMillis]

def add (d e : Duration) : Duration :=
  { nanos := d.nanos + e.nanos }

def max (d e : Duration) : Duration :=
  { nanos := Nat.max d.nanos e.nanos }

def toSeconds (d : Duration) : Float :=
  let seconds := (d.nanos / 1000000000).toUInt64.toFloat
  let rest := (d.nanos % 1000000000).toUInt64.toFloat
  seconds + rest / 1e9

end Duration

end Sweep
