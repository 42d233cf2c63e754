import Sweep.Duration

/-!
This module contains the statistics of a server: how many requests were handled, how long they took
together and how long the slowest took.
-/

namespace Sweep

structure Stats where
  total : Nat
  totalTime : Duration
  maxTime : Duration
deriving DecidableEq, Repr

namespace Stats

def empty : Stats :=
  { total := 0, totalTime := .zero, maxTime := .zero }

def record (s : Stats) (elapsed : Duration) : Stats :=
  {
    total := s.total + 1
    totalTime := s.totalTime.add elapsed
    maxTime := s.maxTime.max elapsed
  }

def count (s : Stats) : UInt64 :=
  s.total.toUInt64

def averageSeconds (s : Stats) : Float :=
  if s.count = 0 then 0 else s.totalTime.toSeconds / s.count.toFloat

theorem count_record (s : Stats) (elapsed : Duration) :
    (s.record elapsed).count = s.count + 1 := by
  exact UInt64.ofNat_add s.total 1

def maxSeconds (s : Stats) : Float :=
  s.maxTime.toSeconds

end Stats

inductive StatKind
  | requests
  | averageTime
  | maxTime
deriving DecidableEq, Repr

namespace StatKind

def all : List StatKind :=
  [requests, averageTime, maxTime]

def token : StatKind → String
  | requests => "STAT_REQS"
  | averageTime => "STAT_AVG_TIME"
  | maxTime => "STAT_MAX_TIME"

def ofToken? (text : String) : Option StatKind :=
  all.find? (·.token == text)

def value (kind : StatKind) (s : Stats) : Float :=
  match kind with
  | requests => s.count.toFloat
  | averageTime => s.averageSeconds
  | maxTime => s.maxSeconds

end StatKind

end Sweep
