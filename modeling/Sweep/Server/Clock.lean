import Sweep.Server.Basic

/-!
This module contains the run of a server by a clock of its own. Workers are taken to read their
cancel flags at a fixed pace, and the time of a computation is that of its readings. Everything else
happens at once, so that each event has its time and the order of events is determined.
-/

namespace Sweep

/--
A server with the time on its clock. For every ticket it knows when the job was submitted, and for
the jobs that were granted a permit also when.
-/
structure TimedServer where
  server : Server
  now : Duration
  submittedAt : List Duration
  grantedAt : List (Nat × Duration)

namespace TimedServer

def ofServer (server : Server) : TimedServer :=
  { server, now := .zero, submittedAt := [], grantedAt := [] }

def pace : Duration :=
  { nanos := 100 }

def readingsUntilDeadline (d : Dispatch) : Nat :=
  min d.computationTimeout.nanos d.queueTimeout.nanos / pace.nanos

def isQuick (d : Dispatch) (ticket : Nat) : Bool :=
  match d.jobs[ticket]? with
  | none => false
  | some job =>
    -- a worker that gets to the deadline finds its flag set
    match job.work (.after (readingsUntilDeadline d)) with
    | none => false
    | some (.error .cancelled) => false
    | some _ => true

def dispatch (t : TimedServer) (e : Dispatch.Event) : TimedServer :=
  { t with server := t.server.step (.dispatch e) }

def grant (t : TimedServer) (ticket : Nat) : TimedServer :=
  let quick := isQuick t.server.dispatch ticket
  let t := { t.dispatch .grant with grantedAt := (ticket, t.now) :: t.grantedAt }
  if quick then
    [.finish ticket, .conclude ticket, .deliver ticket].foldl dispatch t
  else
    t

def deadlines (t : TimedServer) : List (Duration × Dispatch.Event) :=
  let d := t.server.dispatch
  let queued := (List.range d.jobs.length).filter fun ticket => (d.answer? ticket).isNone
  let running := t.grantedAt.filter fun (ticket, _) => ticket ∈ d.pool.running
  queued.map (fun ticket =>
    ((t.submittedAt.getD ticket .zero).add d.queueTimeout, .queueDeadline ticket)) ++
  running.map fun (ticket, at_) => (at_.add d.computationTimeout, .computationDeadline ticket)

def earliest? (times : List (Duration × α)) : Option (Duration × α) :=
  times.foldl (fun best x =>
    match best with
    | none => some x
    | some b => if x.1.nanos < b.1.nanos then some x else some b) none

def passDeadline (t : TimedServer) (time : Duration) (e : Dispatch.Event) : TimedServer :=
  let t := { t with now := t.now.max time }.dispatch e
  match e with
  | .computationDeadline ticket => t.dispatch (.deliver ticket)
  | _ => t

def next? (done : TimedServer → Bool) (t : TimedServer) : Option TimedServer :=
  let pool := t.server.dispatch.pool
  if pool.canStart then
    pool.queue.head?.map t.grant
  else if done t then
    none
  else
    (earliest? t.deadlines).map fun (time, e) => t.passDeadline time e

def advance (done : TimedServer → Bool) (steps : Nat) (t : TimedServer) : TimedServer :=
  match steps with
  | 0 => t
  | steps + 1 =>
    match next? done t with
    | some t => advance done steps t
    | none => t

def advanceUntil (done : TimedServer → Bool) (t : TimedServer) : TimedServer :=
  t.advance done (3 * t.server.dispatch.jobs.length)

def noteSubmission (t : TimedServer) (ticket : Nat) : TimedServer :=
  let t := { t with submittedAt := t.submittedAt ++ [t.now] }
  (t.dispatch (.enter ticket)).dispatch (.deliver ticket)

def arrive (t : TimedServer) (line : String) : TimedServer :=
  let call := t.server.calls.length
  let t := { t with server := t.server.step (.arrive line) }
  match t.server.calls[call]?.bind Call.ticket with
  | some ticket => t.noteSubmission ticket
  | none => { t with server := t.server.run [.readStats call .zero, .record call .zero] }

def isAnswered (t : TimedServer) (call : Nat) : Bool :=
  match t.server.calls[call]?.bind Call.ticket with
  | some ticket => (t.server.dispatch.answer? ticket).isSome
  | none => true

def waits (s : Server) (call : Nat) : Bool :=
  (s.calls[call]?.bind Call.ticket).isSome

def closing (s : Server) (calls : List Nat) (elapsed : Duration) : List Server.Event :=
  (calls.filter (waits s)).flatMap fun call => [.respond call elapsed, .record call elapsed]

def handleAll (t : TimedServer) (lines : List String) : List Response × TimedServer :=
  let start := t.now
  let calls := (List.range lines.length).map (t.server.calls.length + ·)
  let t := (lines.foldl arrive t).advanceUntil fun t => calls.all t.isAnswered
  let elapsed : Duration := { nanos := t.now.nanos - start.nanos }
  let t := { t with server := t.server.run (closing t.server calls elapsed) }
  (calls.filterMap t.server.response?, t)

def handle (t : TimedServer) (line : String) : Response × TimedServer :=
  let (responses, t) := t.handleAll [line]
  -- there is exactly one response, since every call has one by now
  (responses.headD (.err ""), t)

def execute (t : TimedServer) (work : Work) : Response × TimedServer :=
  let start := t.now
  let ticket := t.server.dispatch.pool.submitted
  let t := (t.dispatch (.submit work)).noteSubmission ticket
  let t := t.advanceUntil fun t => (t.server.dispatch.answer? ticket).isSome
  let elapsed : Duration := { nanos := t.now.nanos - start.nanos }
  match t.server.dispatch.answer? ticket with
  | some outcome => (.ofResult elapsed outcome, t)
  | none => (.err "", t)

def shutdown (t : TimedServer) : TimedServer :=
  let tickets := List.range t.server.dispatch.jobs.length
  tickets.foldl (fun t ticket => t.dispatch (.deliver ticket)) (t.dispatch .close)

def drain (t : TimedServer) : TimedServer :=
  t.advanceUntil fun t => t.server.dispatch.pool.running.isEmpty

end TimedServer

end Sweep
