import Sweep.Config.Basic
import Sweep.Dispatch.Work
import Sweep.Request.Response

/-!
This module contains the handling of request lines. Every line becomes a call, and a call takes its
steps one at a time, so that the calls of any number of clients may be interleaved.
-/

namespace Sweep

structure Call where
  request : Except RequestError Request
  -- the ticket of its computation
  ticket : Option Nat
  response : Option Response
  -- the time it took, once that was recorded
  recorded : Option Duration

structure Server where
  maxDomainLength : Nat
  dispatch : Dispatch
  stats : Stats
  calls : List Call

namespace Server

def ofConfig (c : Config) (parallelism : Nat) : Server :=
  {
    maxDomainLength := c.maxDomainLength
    dispatch := .make (c.workerCount parallelism) c.computationTimeout c.queueTimeout
    stats := .empty
    calls := []
  }

def ofConfig? (c : Config) (parallelism : Nat) : Option Server :=
  if c.workerCount parallelism ≤ Pool.maxSize then some (ofConfig c parallelism) else none

inductive Event
  -- a client sends a line
  | arrive (line : String)
  -- a question about the statistics is answered from what is recorded now
  | readStats (call : Nat) (elapsed : Duration)
  -- the outcome of a computation becomes the response to its call
  | respond (call : Nat) (elapsed : Duration)
  -- a call whose response is fixed is recorded
  | record (call : Nat) (elapsed : Duration)
  | dispatch (e : Dispatch.Event)

def modifyCall (s : Server) (call : Nat) (f : Call → Call) : Server :=
  { s with calls := s.calls.modify call f }

def work (s : Server) (c : Computation) : Work :=
  c.work s.maxDomainLength

def arrive (s : Server) (line : String) : Server :=
  let request := Request.parse line
  let call : Call := { request, ticket := none, response := none, recorded := none }
  match request with
  | .error e =>
    { s with calls := s.calls ++ [{ call with response := some (.ofError (.request e)) }] }
  | .ok (.stat _) => { s with calls := s.calls ++ [call] }
  | .ok (.computation c) =>
    {
      s with
      dispatch := s.dispatch.step (.submit (s.work c))
      calls := s.calls ++ [{ call with ticket := some s.dispatch.pool.submitted }]
    }

def readStats (s : Server) (call : Nat) (elapsed : Duration) : Server :=
  s.modifyCall call fun c =>
    match c.request, c.response with
    | .ok (.stat kind), none => { c with response := some (.ok elapsed (kind.value s.stats)) }
    | _, _ => c

def respond (s : Server) (call : Nat) (elapsed : Duration) : Server :=
  s.modifyCall call fun c =>
    match c.ticket.bind s.dispatch.answer?, c.response with
    | some outcome, none => { c with response := some (.ofResult elapsed outcome) }
    | _, _ => c

def record (s : Server) (call : Nat) (elapsed : Duration) : Server :=
  match s.calls[call]? with
  -- the response is fixed and was not recorded before
  | some { response := some _, recorded := none, .. } =>
    {
      s.modifyCall call fun c => { c with recorded := some elapsed } with
      stats := s.stats.record elapsed
    }
  | _ => s

def step (s : Server) : Event → Server
  | .arrive line => s.arrive line
  | .readStats call elapsed => s.readStats call elapsed
  | .respond call elapsed => s.respond call elapsed
  | .record call elapsed => s.record call elapsed
  | .dispatch e => { s with dispatch := s.dispatch.step e }

def run (s : Server) (events : List Event) : Server :=
  events.foldl step s

def response? (s : Server) (call : Nat) : Option Response :=
  s.calls[call]?.bind Call.response

end Server

end Sweep
