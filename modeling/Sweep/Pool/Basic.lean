/-!
This module contains the pool that lets a limited number of jobs run at a time. It is a state
machine: jobs are submitted and detached and the pool is closed from outside, while jobs get in line,
start and finish on their own.
-/

namespace Sweep

inductive PoolError
  | closed
deriving DecidableEq, Repr

namespace PoolError

def message : PoolError → String
  | closed => "computation pool is shut down"

end PoolError

/--
A pool whose jobs have results in `α`. Every job is known by its ticket, and tickets are numbered in
the order of submission.
-/
structure Pool (α : Type) where
  size : Nat
  -- the number of jobs that could start now
  permits : Nat
  closed : Bool
  -- the number of tickets given out
  submitted : Nat
  -- the jobs whose tasks were spawned and have not come to run yet
  spawned : List Nat
  -- the jobs that wait for a permit, the first one in front
  queue : List Nat
  running : List Nat
  -- the jobs that were ever started, in that order
  started : List Nat
  -- the jobs that were ever finished, in that order
  finished : List Nat
  results : List (Nat × Except PoolError α)
  -- the jobs whose handles were dropped before they ended
  detached : List Nat

namespace Pool

def make (size : Nat) : Pool α :=
  {
    size := max 1 size
    permits := max 1 size
    closed := false
    submitted := 0
    spawned := []
    queue := []
    running := []
    started := []
    finished := []
    results := []
    detached := []
  }

def maxSize : Nat := 2305843009213693951

inductive Event (α : Type)
  | submit
  -- the task of a job comes to run for the first time
  | enter (ticket : Nat)
  | start
  | finish (ticket : Nat) (result : α)
  | detach (ticket : Nat)
  | close

def submit (p : Pool α) : Pool α :=
  { p with submitted := p.submitted + 1, spawned := p.spawned ++ [p.submitted] }

/--
Let a job ask for its permit. It gets in line, or it is refused if the pool is closed. Tasks need not
come to run in the order in which they were spawned.
-/
def enter (p : Pool α) (ticket : Nat) : Pool α :=
  if ticket ∈ p.spawned then
    if p.closed then
      {
        p with
        spawned := p.spawned.erase ticket
        results := p.results ++ [(ticket, .error .closed)]
      }
    else
      { p with spawned := p.spawned.erase ticket, queue := p.queue ++ [ticket] }
  else
    p

def start (p : Pool α) : Pool α :=
  match p.queue with
  | [] => p
  | ticket :: queue =>
    if 0 < p.permits then
      {
        p with
        permits := p.permits - 1
        queue
        running := p.running ++ [ticket]
        started := p.started ++ [ticket]
      }
    else
      p

def finish (p : Pool α) (ticket : Nat) (result : α) : Pool α :=
  if ticket ∈ p.running then
    {
      p with
      permits := p.permits + 1
      running := p.running.erase ticket
      finished := p.finished ++ [ticket]
      results := p.results ++ [(ticket, .ok result)]
    }
  else
    p

def result? (p : Pool α) (ticket : Nat) : Option (Except PoolError α) :=
  (p.results.find? (·.1 == ticket)).map (·.2)

def detach (p : Pool α) (ticket : Nat) : Pool α :=
  if (p.result? ticket).isSome then p else { p with detached := ticket :: p.detached }

def close (p : Pool α) : Pool α :=
  {
    p with
    closed := true
    queue := []
    results := p.results ++ p.queue.map fun ticket => (ticket, .error .closed)
  }

def step (p : Pool α) : Event α → Pool α
  | .submit => p.submit
  | .enter ticket => p.enter ticket
  | .start => p.start
  | .finish ticket result => p.finish ticket result
  | .detach ticket => p.detach ticket
  | .close => p.close

def run (p : Pool α) (events : List (Event α)) : Pool α :=
  events.foldl step p

def canStart (p : Pool α) : Bool :=
  !p.queue.isEmpty && 0 < p.permits

def handle? (p : Pool α) (ticket : Nat) : Option (Except PoolError α) :=
  if ticket ∈ p.detached then none else p.result? ticket

end Pool

end Sweep
