import Sweep.Pool.Basic
import Sweep.Request.Compute

/-!
This module contains the dispatch of computations to the pool under two deadlines. The computation
deadline counts from the start of a job and cancels its worker. The queue deadline counts from the
submission and only ends the client's wait, while the job goes on. It is a state machine, so that
deadlines, workers and clients may act in any order.
-/

namespace Sweep

abbrev Outcome := Except ComputeError Float

/--
What a worker does, given the readings of its cancel flag. A worker that never ends has no outcome.
-/
abbrev Work := CancelFlag → Option Outcome

structure Job where
  work : Work
  -- how often the worker has read its flag
  readings : Nat
  -- the readings that were made when the flag was set
  cancelledAfter : Option Nat
  -- what the worker returned
  result : Option Outcome
  -- what the client was told
  answer : Option Outcome

namespace Job

def ofWork (work : Work) : Job :=
  { work, readings := 0, cancelledAfter := none, result := none, answer := none }

def flag (j : Job) : CancelFlag :=
  match j.cancelledAfter with
  | none => .never
  | some readings => .after readings

def finish (j : Job) : Job :=
  { j with result := j.result <|> j.work j.flag }

def tell (j : Job) (outcome : Outcome) : Job :=
  { j with answer := j.answer <|> some outcome }

end Job

structure Dispatch where
  computationTimeout : Duration
  queueTimeout : Duration
  pool : Pool Outcome
  jobs : List Job

namespace Dispatch

def make (size : Nat) (computationTimeout queueTimeout : Duration) : Dispatch :=
  { computationTimeout, queueTimeout, pool := .make size, jobs := [] }

inductive Event
  | submit (work : Work)
  -- a job gets in line for a permit
  | enter (ticket : Nat)
  -- the job that has waited longest gets a permit
  | grant
  -- a worker reads its cancel flag
  | poll (ticket : Nat)
  -- a worker returns
  | finish (ticket : Nat)
  -- the result of a worker becomes that of its job
  | conclude (ticket : Nat)
  | computationDeadline (ticket : Nat)
  | queueDeadline (ticket : Nat)
  -- the result of a job reaches its client
  | deliver (ticket : Nat)
  | close

def modifyJob (d : Dispatch) (ticket : Nat) (f : Job → Job) : Dispatch :=
  { d with jobs := d.jobs.modify ticket f }

def outcome? (d : Dispatch) (ticket : Nat) : Option Outcome :=
  match d.pool.result? ticket with
  | none => none
  | some (.ok outcome) => some outcome
  | some (.error e) => some (.error (.worker e.message))

def answer? (d : Dispatch) (ticket : Nat) : Option Outcome :=
  d.jobs[ticket]?.bind Job.answer

def conclude (d : Dispatch) (ticket : Nat) : Dispatch :=
  match d.jobs[ticket]?.bind Job.result with
  | some outcome => { d with pool := d.pool.finish ticket outcome }
  | none => d

/--
The computation deadline of a running job. A result that is there counts, otherwise the worker is
cancelled and the job ends without it.
-/
def computationDeadline (d : Dispatch) (ticket : Nat) : Dispatch :=
  if ticket ∈ d.pool.running then
    match d.jobs[ticket]?.bind Job.result with
    | some outcome => { d with pool := d.pool.finish ticket outcome }
    | none =>
      {
        d.modifyJob ticket fun j => { j with cancelledAfter := some j.readings } with
        pool := d.pool.finish ticket (.error (.computationTimeout d.computationTimeout))
      }
  else
    d

def deliver (d : Dispatch) (ticket : Nat) : Dispatch :=
  match d.outcome? ticket with
  | some outcome => d.modifyJob ticket (·.tell outcome)
  | none => d

/--
The queue deadline of a job. An outcome that is there counts, otherwise the client gives up the
handle of the job.
-/
def queueDeadline (d : Dispatch) (ticket : Nat) : Dispatch :=
  if (d.answer? ticket).isSome then
    d
  else
    match d.outcome? ticket with
    | some outcome => d.modifyJob ticket (·.tell outcome)
    | none =>
      {
        d.modifyJob ticket (·.tell (.error (.queueTimeout d.queueTimeout))) with
        pool := d.pool.detach ticket
      }

def step (d : Dispatch) : Event → Dispatch
  | .submit work => { d with pool := d.pool.submit, jobs := d.jobs ++ [.ofWork work] }
  | .enter ticket => { d with pool := d.pool.enter ticket }
  | .grant => { d with pool := d.pool.start }
  | .poll ticket => d.modifyJob ticket fun j => { j with readings := j.readings + 1 }
  | .finish ticket => if ticket ∈ d.pool.started then d.modifyJob ticket (·.finish) else d
  | .conclude ticket => d.conclude ticket
  | .computationDeadline ticket => d.computationDeadline ticket
  | .queueDeadline ticket => d.queueDeadline ticket
  | .deliver ticket => d.deliver ticket
  | .close => { d with pool := d.pool.close }

def run (d : Dispatch) (events : List Event) : Dispatch :=
  events.foldl step d

end Dispatch

end Sweep
