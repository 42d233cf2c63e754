import Sweep.Proofs.Calls
import Sweep.Proofs.Deadlines
import Sweep.Proofs.Resolution

/-!
This module contains the way of an outcome from a worker to the response. Whatever else happens, the
client of a job is told what the worker returns under a flag that is never set, or that a deadline
has passed, or that the pool is closed.
-/

namespace Sweep

namespace Dispatch

variable {d : Dispatch} {ticket : Nat} {work : Work} {j j' : Job}

structure Tracks (d : Dispatch) (ticket : Nat) (work : Work) (j : Job) : Prop where
  job : d.jobs[ticket]? = some j
  worker : j.work = work
  readings : ∀ n, j.cancelledAfter = some n → n ≤ j.readings
  -- as long as its flag is unset the worker is as good as undisturbed
  result : j.cancelledAfter = none → ∀ outcome, j.result = some outcome →
    work .never = some outcome
  concluded : j.cancelledAfter = none → ∀ outcome,
    d.pool.result? ticket = some (.ok outcome) → work .never = some outcome
  -- once the flag is set the job has ended, so that nobody learns what the worker returns
  cancelled : j.cancelledAfter ≠ none →
    d.pool.result? ticket = some (.ok (.error (.computationTimeout d.computationTimeout)))

theorem tracks_submit (h : d.Valid) (work : Work) :
    (d.step (.submit work)).Tracks d.pool.submitted work (.ofWork work) := by
  refine ⟨?_, rfl, nofun, nofun, ?_, nofun⟩
  . simp [step, h.length_jobs]
  . intro _ outcome houtcome
    have hpool : (d.step (.submit work)).pool = d.pool.step .submit := by
      rfl
    rw [hpool, Pool.ok_step h.pool, h.pool.result?_eq_some_iff] at houtcome
    rcases houtcome with hmem | ⟨heq, -⟩
    . have hticket : d.pool.submitted ∈ d.pool.tickets := by
        apply List.mem_append_right
        exact List.mem_map_of_mem hmem
      exact absurd (h.pool.lt_submitted hticket) (Nat.lt_irrefl _)
    . contradiction

theorem Changes.work_eq {e : Event} (h : d.Changes ticket e j j') : j'.work = j.work := by
  cases h <;> rfl

theorem Changes.readings {e : Event} (h : d.Changes ticket e j j')
    (hj : ∀ n, j.cancelledAfter = some n → n ≤ j.readings) :
    ∀ n, j'.cancelledAfter = some n → n ≤ j'.readings := by
  cases h with
  | keep | finish | deliver | takeOutcome | giveUp => exact hj
  | poll =>
    intro n hn
    exact Nat.le_succ_of_le (hj n hn)
  | cancel =>
    intro n hn
    obtain rfl := Option.some.inj hn
    exact Nat.le_refl _

theorem Changes.cancelledAfter_eq_none {e : Event} (h : d.Changes ticket e j j')
    (hnone : j'.cancelledAfter = none) : j.cancelledAfter = none := by
  cases h with
  | cancel => contradiction
  | keep | poll | finish | deliver | takeOutcome | giveUp => exact hnone

theorem job_computationDeadline (h : d.Valid) (hj : d.jobs[ticket]? = some j)
    (hrunning : ticket ∈ d.pool.running) (hresult : j.result = none) :
    (d.step (.computationDeadline ticket)).jobs[ticket]?
        = some { j with cancelledAfter := some j.readings } ∧
      (d.step (.computationDeadline ticket)).pool.result? ticket
        = some (.ok (.error (.computationTimeout d.computationTimeout))) := by
  simp only [step, computationDeadline]
  rw [if_pos hrunning, hj, Option.bind_some, hresult]
  constructor
  . simp [modifyJob, hj, hresult]
  . exact Pool.result?_finish h.pool hrunning _

namespace Tracks

theorem result?_eq (h : d.Tracks ticket work j) : d.result? ticket = j.result := by
  unfold result?
  rw [h.job]
  rfl

theorem cancelledAfter?_eq (h : d.Tracks ticket work j) :
    d.cancelledAfter? ticket = j.cancelledAfter := by
  unfold cancelledAfter?
  rw [h.job]
  rfl

theorem result_of_changes (h : d.Tracks ticket work j) {e : Event}
    (hchanges : d.Changes ticket e j j') (hnone : j'.cancelledAfter = none) {outcome : Outcome}
    (houtcome : j'.result = some outcome) :
    work .never = some outcome := by
  have hflag := hchanges.cancelledAfter_eq_none hnone
  cases hchanges with
  | cancel => contradiction
  | keep | poll | deliver | takeOutcome | giveUp => exact h.result hflag outcome houtcome
  | finish =>
    cases hresult : j.result with
    | some old =>
      rw [Job.finish, hresult] at houtcome
      exact h.result hflag outcome (hresult.trans houtcome)
    | none =>
      rw [Job.finish, hresult, Job.flag, hflag, h.worker] at houtcome
      exact houtcome

theorem concluded_of_drives (h : d.Tracks ticket work j) (hvalid : d.Valid) {e : Event}
    {outcome : Outcome} (hj' : (d.step e).jobs[ticket]? = some j')
    (hnone : j'.cancelledAfter = none) (hflag : j.cancelledAfter = none)
    (hrunning : ticket ∈ d.pool.running) (hdrives : d.Drives e (.finish ticket outcome)) :
    work .never = some outcome := by
  cases hdrives with
  | conclude _ hresult | takeResult _ hresult =>
    rw [h.result?_eq] at hresult
    exact h.result hflag outcome hresult
  | cancel _ hresult =>
    rw [h.result?_eq] at hresult
    have hcancelled := (job_computationDeadline hvalid h.job hrunning hresult).1
    rw [hj'] at hcancelled
    cases hcancelled
    contradiction

theorem step (h : d.Tracks ticket work j) (hvalid : d.Valid) (e : Event) :
    ∃ j', (d.step e).Tracks ticket work j' := by
  obtain ⟨j', hj', hchanges⟩ := job_step h.job e
  refine ⟨j', hj', ?_, hchanges.readings h.readings, ?_, ?_, ?_⟩
  . rw [hchanges.work_eq, h.worker]
  . intro hnone outcome houtcome
    exact h.result_of_changes hchanges hnone houtcome
  . intro hnone outcome houtcome
    have hflag := hchanges.cancelledAfter_eq_none hnone
    rcases d.pool_step e with hpool | ⟨e', hdrives, hpool⟩
    . rw [hpool] at houtcome
      exact h.concluded hflag outcome houtcome
    . rw [hpool, Pool.ok_step hvalid.pool] at houtcome
      rcases houtcome with hold | ⟨rfl, hrunning⟩
      . exact h.concluded hflag outcome hold
      . exact h.concluded_of_drives hvalid hj' hnone hflag hrunning hdrives
  . intro hset
    rw [(d.timeouts_step e).1]
    rcases hchanges.cancelledAfter with hsame | ⟨rfl, hrunning, hresult⟩
    . rw [hsame] at hset
      exact pool_result?_step (h.cancelled hset) e
    . exact (job_computationDeadline hvalid h.job hrunning hresult).2

end Tracks

inductive Tells (d : Dispatch) (work : Work) : Outcome → Prop
  | result {outcome : Outcome} (h : work .never = some outcome) : Tells d work outcome
  | computationTimeout : Tells d work (.error (.computationTimeout d.computationTimeout))
  | queueTimeout : Tells d work (.error (.queueTimeout d.queueTimeout))
  | refused (e : PoolError) : Tells d work (.error (.worker e.message))

theorem Tracks.tells_of_outcome? (h : d.Tracks ticket work j) {outcome : Outcome}
    (houtcome : d.outcome? ticket = some outcome) : d.Tells work outcome := by
  unfold outcome? at houtcome
  split at houtcome
  . contradiction
  . next result hresult =>
    obtain rfl := Option.some.inj houtcome
    cases hflag : j.cancelledAfter with
    | none => exact .result (h.concluded hflag result hresult)
    | some n =>
      have hcancelled := h.cancelled (by simp [hflag])
      rw [hresult] at hcancelled
      cases hcancelled
      exact .computationTimeout
  . next e _ =>
    obtain rfl := Option.some.inj houtcome
    exact .refused e

theorem Tracks.tells (h : d.Tracks ticket work j) (hvalid : d.Valid) {outcome : Outcome}
    (hanswer : d.answer? ticket = some outcome) : d.Tells work outcome := by
  rcases hvalid.answers ticket outcome hanswer with rfl | houtcome
  . exact .queueTimeout
  . exact h.tells_of_outcome? houtcome

end Dispatch

namespace Server

variable {s : Server} {call ticket : Nat} {line : String}

inductive Answers (s : Server) (ticket : Nat) (line : String) : Response → Prop
  | malformed {e : RequestError} (h : Request.parse line = .error e) :
    Answers s ticket line (.ofError (.request e))
  | stat {kind : StatKind} (h : Request.parse line = .ok (.stat kind)) (elapsed : Duration)
    (value : Float) : Answers s ticket line (.ok elapsed value)
  | outcome {c : Computation} (h : Request.parse line = .ok (.computation c)) (elapsed : Duration)
    {outcome : Outcome} (hanswer : s.dispatch.answer? ticket = some outcome) :
    Answers s ticket line (.ofResult elapsed outcome)

structure Follows (s : Server) (call ticket : Nat) (line : String) (c : Call) : Prop where
  valid : s.dispatch.Valid
  call : s.calls[call]? = some c
  request : c.request = Request.parse line
  computes : ∀ t, c.ticket = some t →
    t = ticket ∧ ∃ computation, Request.parse line = .ok (.computation computation)
  computation : ∀ computation, Request.parse line = .ok (.computation computation) →
    c.ticket = some ticket ∧ ∃ j, s.dispatch.Tracks ticket (s.work computation) j
  response : ∀ r, c.response = some r → s.Answers ticket line r

theorem follows_arrive (h : s.dispatch.Valid) (line : String) :
    ∃ c, (s.step (.arrive line)).Follows s.calls.length s.dispatch.pool.submitted line c := by
  have hvalid : (s.step (.arrive line)).dispatch.Valid := valid_run h [.arrive line]
  simp only [step, arrive] at hvalid ⊢
  split at hvalid
  . next e he =>
    refine ⟨_, hvalid, List.getElem?_concat_length, rfl, ?_, ?_, ?_⟩
    . intro t ht
      contradiction
    . intro computation hcomputation
      rw [he] at hcomputation
      contradiction
    . intro r hr
      obtain rfl := Option.some.inj hr
      exact .malformed he
  . next kind hkind =>
    refine ⟨_, hvalid, List.getElem?_concat_length, rfl, ?_, ?_, ?_⟩
    . intro t ht
      contradiction
    . intro computation hcomputation
      rw [hkind] at hcomputation
      cases hcomputation
    . intro r hr
      contradiction
  . next c hc =>
    refine ⟨_, hvalid, List.getElem?_concat_length, rfl, ?_, ?_, ?_⟩
    . intro t ht
      exact ⟨(Option.some.inj ht).symm, c, hc⟩
    . intro computation hcomputation
      rw [hc] at hcomputation
      cases hcomputation
      exact ⟨rfl, _, Dispatch.tracks_submit h (s.work c)⟩
    . intro r hr
      contradiction

theorem Answers.step {r : Response} (h : s.Answers ticket line r) (e : Event) :
    (s.step e).Answers ticket line r := by
  cases h with
  | malformed h => exact .malformed h
  | stat h elapsed value => exact .stat h elapsed value
  | outcome h elapsed hanswer =>
    apply Answers.outcome h elapsed
    rcases s.dispatch_step e with ⟨-, heq⟩ | ⟨e', -, heq⟩
    . rwa [heq]
    . rw [heq]
      exact Dispatch.answer?_step hanswer e'

theorem Follows.step {c : Call} (h : s.Follows call ticket line c) (e : Event) :
    ∃ c', (s.step e).Follows call ticket line c' := by
  obtain ⟨c', hc', hchanges⟩ := call_step h.call e
  have hrequest : c'.request = c.request ∧ c'.ticket = c.ticket := by
    cases hchanges <;> exact ⟨rfl, rfl⟩
  refine ⟨c', valid_run h.valid [e], hc', ?_, ?_, ?_, ?_⟩
  . rw [hrequest.1, h.request]
  . rw [hrequest.2]
    exact h.computes
  . intro computation hcomputation
    obtain ⟨hticket, j, hj⟩ := h.computation computation hcomputation
    refine ⟨hrequest.2.trans hticket, ?_⟩
    have hwork : (s.step e).work computation = s.work computation := by
      unfold work
      rw [s.maxDomainLength_step e]
    rw [hwork]
    rcases s.dispatch_step e with ⟨-, heq⟩ | ⟨e', -, heq⟩
    . rw [heq]
      exact ⟨j, hj⟩
    . rw [heq]
      exact hj.step h.valid e'
  . intro r hr
    cases hchanges with
    | keep | record => exact (h.response r hr).step _
    | readStats _ elapsed hkind =>
      obtain rfl := Option.some.inj hr
      rw [h.request] at hkind
      exact .stat hkind _ _
    | respond _ elapsed hanswer =>
      obtain rfl := Option.some.inj hr
      obtain ⟨t, ht, hanswer⟩ := Option.bind_eq_some_iff.mp hanswer
      obtain ⟨rfl, computation, hcomputation⟩ := h.computes t ht
      exact .outcome hcomputation elapsed hanswer

theorem Follows.run {c : Call} (h : s.Follows call ticket line c) (events : List Event) :
    ∃ c', (s.run events).Follows call ticket line c' := by
  induction events generalizing s c with
  | nil => exact ⟨c, h⟩
  | cons e events ih =>
    obtain ⟨c', hc'⟩ := h.step e
    exact ih hc'

theorem follows_run (h : s.dispatch.Valid) (line : String) (events : List Event) :
    ∃ c, (s.run (.arrive line :: events)).Follows s.calls.length s.dispatch.pool.submitted line
      c := by
  obtain ⟨c, hc⟩ := follows_arrive h line
  exact hc.run events

theorem maxDomainLength_run (s : Server) (events : List Event) :
    (s.run events).maxDomainLength = s.maxDomainLength := by
  induction events generalizing s with
  | nil => rfl
  | cons e events ih => rw [run_cons, ih, maxDomainLength_step]

theorem Follows.response? {c : Call} (h : s.Follows call ticket line c) :
    s.response? call = c.response := by
  unfold Server.response?
  rw [h.call]
  rfl

end Server

end Sweep
