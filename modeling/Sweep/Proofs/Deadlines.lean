import Sweep.Proofs.Dispatching

/-!
This module contains what the two deadlines of a computation do, in whatever order they pass. The
computation deadline ends a job and cancels its worker, and the queue deadline ends nothing but the
wait of a client.
-/

namespace Sweep.Dispatch

variable {d : Dispatch} {ticket : Nat}

theorem pool_result?_eq_none (h : d.outcome? ticket = none) : d.pool.result? ticket = none := by
  unfold outcome? at h
  split at h
  . next hresult => exact hresult
  . contradiction
  . contradiction

/-! The queue deadline. -/

theorem modify_tell {jobs : List Job} (h : jobs[ticket]?.bind Job.answer = none)
    (outcome : Outcome) :
    jobs.modify ticket (·.tell outcome)
      =
    jobs.modify ticket fun j => { j with answer := some outcome } := by
  apply List.ext_getElem?
  intro i
  rw [List.getElem?_modify, List.getElem?_modify]
  by_cases heq : ticket = i
  . cases hj : jobs[i]? with
    | none => rfl
    | some j =>
      rw [heq, hj] at h
      have hanswer : j.answer = none := h
      simp [heq, Job.tell, hanswer]
  . simp [heq]

theorem queueDeadline_of_waiting (hanswer : d.answer? ticket = none)
    (houtcome : d.outcome? ticket = none) :
    d.step (.queueDeadline ticket) =
      {
        d with
        pool := { d.pool with detached := ticket :: d.pool.detached }
        jobs := d.jobs.modify ticket fun j =>
          { j with answer := some (.error (.queueTimeout d.queueTimeout)) }
      } := by
  simp only [step, queueDeadline]
  rw [hanswer, houtcome]
  unfold Pool.detach modifyJob
  rw [pool_result?_eq_none houtcome, modify_tell hanswer]
  rfl

theorem answer?_queueDeadline (hticket : ticket < d.jobs.length)
    (hanswer : d.answer? ticket = none) (houtcome : d.outcome? ticket = none) :
    (d.step (.queueDeadline ticket)).answer? ticket =
      some (.error (.queueTimeout d.queueTimeout)) := by
  rw [queueDeadline_of_waiting hanswer houtcome]
  unfold answer?
  rw [List.getElem?_modify, List.getElem?_eq_getElem hticket]
  simp

theorem queueDeadline_of_outcome {outcome : Outcome} (hanswer : d.answer? ticket = none)
    (houtcome : d.outcome? ticket = some outcome) :
    d.step (.queueDeadline ticket) = d.step (.deliver ticket) := by
  simp only [step, queueDeadline, deliver]
  rw [hanswer, houtcome]
  rfl

theorem answer?_deliver {outcome : Outcome} (hticket : ticket < d.jobs.length)
    (hanswer : d.answer? ticket = none) (houtcome : d.outcome? ticket = some outcome) :
    (d.step (.deliver ticket)).answer? ticket = some outcome := by
  unfold answer? at hanswer ⊢
  rw [List.getElem?_eq_getElem hticket] at hanswer
  have hnone : (d.jobs[ticket]).answer = none := hanswer
  simp only [step, deliver]
  rw [houtcome]
  simp [modifyJob, List.getElem?_eq_getElem hticket, Job.tell, hnone]

/-! The computation deadline. -/

theorem computationDeadline_of_working (hrunning : ticket ∈ d.pool.running)
    (hresult : d.result? ticket = none) :
    d.step (.computationDeadline ticket) =
      {
        d with
        pool :=
          {
            d.pool with
            permits := d.pool.permits + 1
            running := d.pool.running.erase ticket
            finished := d.pool.finished ++ [ticket]
            results := d.pool.results ++
              [(ticket, .ok (.error (.computationTimeout d.computationTimeout)))]
          }
        jobs := d.jobs.modify ticket fun j => { j with cancelledAfter := some j.readings }
      } := by
  unfold result? at hresult
  simp only [step, computationDeadline]
  rw [if_pos hrunning, hresult]
  unfold Pool.finish modifyJob
  rw [if_pos hrunning]

theorem computationDeadline_of_result {outcome : Outcome} (hrunning : ticket ∈ d.pool.running)
    (hresult : d.result? ticket = some outcome) :
    d.step (.computationDeadline ticket) = d.step (.conclude ticket) := by
  unfold result? at hresult
  simp only [step, computationDeadline, conclude]
  rw [if_pos hrunning, hresult]

theorem outcome?_of_pool {outcome : Outcome} (h : d.pool.result? ticket = some (.ok outcome)) :
    d.outcome? ticket = some outcome := by
  unfold outcome?
  rw [h]

theorem outcome?_computationDeadline (h : d.Valid) (hrunning : ticket ∈ d.pool.running) :
    (d.step (.computationDeadline ticket)).outcome? ticket =
      some ((d.result? ticket).getD (.error (.computationTimeout d.computationTimeout))) := by
  apply outcome?_of_pool
  simp only [step, computationDeadline]
  rw [if_pos hrunning]
  cases hresult : d.result? ticket with
  | none =>
    unfold result? at hresult
    rw [hresult]
    apply Pool.result?_finish h.pool hrunning
  | some outcome =>
    unfold result? at hresult
    rw [hresult]
    apply Pool.result?_finish h.pool hrunning

theorem cancelledAfter?_step {e : Event}
    (h : (d.step e).cancelledAfter? ticket ≠ d.cancelledAfter? ticket) :
    e = .computationDeadline ticket ∧ ticket ∈ d.pool.running ∧ d.result? ticket = none := by
  unfold cancelledAfter? at h
  unfold result?
  cases hj : d.jobs[ticket]? with
  | some j =>
    obtain ⟨j', hj', hchanges⟩ := job_step hj e
    rw [hj', hj] at h
    rcases hchanges.cancelledAfter with hsame | hdeadline
    . contradiction
    . exact hdeadline
  | none =>
    cases hj' : (d.step e).jobs[ticket]? with
    | none =>
      rw [hj', hj] at h
      contradiction
    | some j' =>
      rw [hj', hj] at h
      rcases job_of_step hj' with ⟨j, hj, -⟩ | ⟨work, rfl⟩
      . simp_all
      . contradiction

/-! Places in the pool. -/

theorem mem_spawned_step (h : ticket ∈ d.pool.spawned) (e : Event) :
    ticket ∈ (d.step e).pool.spawned ∨
      (e = .enter ticket ∧ (d.pool.closed ∨ ticket ∈ (d.step e).pool.queue)) := by
  rcases d.pool_step e with hpool | ⟨e', hdrives, hpool⟩
  . left
    rw [hpool]
    exact h
  . rw [hpool]
    rcases (d.pool.moves_step e').spawned_of_mem h with hspawned | rfl
    . left
      exact hspawned
    . right
      cases hdrives
      exact ⟨rfl, Pool.closed_or_mem_queue_enter h⟩

theorem mem_queue_step (h : ticket ∈ d.pool.queue) (e : Event) :
    ticket ∈ (d.step e).pool.queue ∨ (e = .grant ∧ ticket ∈ (d.step e).pool.running) ∨
      e = .close := by
  rcases d.pool_step e with hpool | ⟨e', hdrives, hpool⟩
  . left
    rw [hpool]
    exact h
  . rw [hpool]
    rcases (d.pool.moves_step e').mem_queue h with hqueue | ⟨rfl, hrunning⟩ | rfl
    . left
      exact hqueue
    . right
      left
      cases hdrives
      exact ⟨rfl, hrunning⟩
    . right
      right
      cases hdrives
      rfl

theorem mem_running_step (h : ticket ∈ d.pool.running) (e : Event) :
    ticket ∈ (d.step e).pool.running ∨ e = .conclude ticket ∨ e = .computationDeadline ticket := by
  rcases d.pool_step e with hpool | ⟨e', hdrives, hpool⟩
  . left
    rw [hpool]
    exact h
  . rw [hpool]
    rcases (d.pool.moves_step e').mem_running h with hrunning | ⟨result, rfl⟩
    . left
      exact hrunning
    . right
      cases hdrives with
      | conclude =>
        left
        rfl
      | takeResult | cancel =>
        right
        rfl

structure TwoDeadlines (size : Nat) (computationTimeout queueTimeout : Duration) (d : Dispatch) :
    Prop where
  -- there is one answer, and it stays
  answered : ∀ ticket outcome, d.answer? ticket = some outcome →
    (outcome = .error (.queueTimeout queueTimeout) ∨ d.outcome? ticket = some outcome) ∧
    ∀ later, (d.run later).answer? ticket = some outcome
  -- no permit is lost, and no job either
  permits : d.pool.permits + (d.pool.started.filter (· ∉ d.pool.finished)).length = max 1 size
  tickets : (d.pool.spawned ++ d.pool.queue ++ d.pool.running ++ d.pool.results.map Prod.fst).Perm
    (List.range d.jobs.length)
  -- the queue deadline of a job whose client still waits
  waiting : ∀ ticket < d.jobs.length, d.answer? ticket = none →
    (d.outcome? ticket = none →
      (d.step (.queueDeadline ticket)).answer? ticket = some (.error (.queueTimeout queueTimeout)) ∧
      d.step (.queueDeadline ticket) =
        {
          d with
          pool := { d.pool with detached := ticket :: d.pool.detached }
          jobs := d.jobs.modify ticket fun j =>
            { j with answer := some (.error (.queueTimeout queueTimeout)) }
        }) ∧
    (d.outcome? ticket ≠ none → d.step (.queueDeadline ticket) = d.step (.deliver ticket))
  -- where a job can go
  spawned : ∀ ticket ∈ d.pool.spawned, ∀ e, ticket ∉ (d.step e).pool.spawned →
    e = .enter ticket ∧ (d.pool.closed ∨ ticket ∈ (d.step e).pool.queue)
  queued : ∀ ticket ∈ d.pool.queue, ∀ e, ticket ∉ (d.step e).pool.queue →
    (e = .grant ∧ ticket ∈ (d.step e).pool.running) ∨ e = .close
  running : ∀ ticket ∈ d.pool.running, ∀ e, ticket ∉ (d.step e).pool.running →
    e = .conclude ticket ∨ e = .computationDeadline ticket
  -- the computation deadline of a job that runs
  computing : ∀ ticket ∈ d.pool.running,
    (d.result? ticket = none →
      (d.step (.computationDeadline ticket)).outcome? ticket =
        some (.error (.computationTimeout computationTimeout)) ∧
      d.step (.computationDeadline ticket) =
        {
          d with
          pool :=
            {
              d.pool with
              permits := d.pool.permits + 1
              running := d.pool.running.erase ticket
              finished := d.pool.finished ++ [ticket]
              results := d.pool.results ++
                [(ticket, .ok (.error (.computationTimeout computationTimeout)))]
            }
          jobs := d.jobs.modify ticket fun j => { j with cancelledAfter := some j.readings }
        }) ∧
    (d.result? ticket ≠ none →
      (d.step (.computationDeadline ticket)).outcome? ticket = d.result? ticket ∧
      d.step (.computationDeadline ticket) = d.step (.conclude ticket))
  -- nothing else sets a flag
  cancelled : ∀ e ticket, (d.step e).cancelledAfter? ticket ≠ d.cancelledAfter? ticket →
    e = .computationDeadline ticket ∧ ticket ∈ d.pool.running ∧ d.result? ticket = none

/--
Whatever the order of the steps is, the computation deadline of a job frees its permit and cancels
its worker and no other, and the queue deadline does nothing but end the wait of its client.
-/
theorem run_two_deadlines (size : Nat) (computationTimeout queueTimeout : Duration)
    (events : List Event) :
    TwoDeadlines size computationTimeout queueTimeout
      ((make size computationTimeout queueTimeout).run events) := by
  have hvalid := (valid_make size computationTimeout queueTimeout).run events
  obtain ⟨hsize, hcomputation, hqueue⟩ :=
    (make size computationTimeout queueTimeout).settings_run events
  generalize (make size computationTimeout queueTimeout).run events = d at *
  have hcomputation : d.computationTimeout = computationTimeout := hcomputation
  have hqueue : d.queueTimeout = queueTimeout := hqueue
  subst hcomputation hqueue
  constructor
  . intro ticket outcome hanswer
    exact ⟨hvalid.answers ticket outcome hanswer, answer?_run hanswer⟩
  . rw [hvalid.pool.permits_add_unfinished]
    exact hsize
  . rw [hvalid.length_jobs]
    exact hvalid.pool.tickets
  . intro ticket hticket hanswer
    constructor
    . intro houtcome
      exact ⟨answer?_queueDeadline hticket hanswer houtcome,
        queueDeadline_of_waiting hanswer houtcome⟩
    . intro houtcome
      obtain ⟨outcome, houtcome⟩ := Option.ne_none_iff_exists'.mp houtcome
      exact queueDeadline_of_outcome hanswer houtcome
  . intro ticket hticket e hleft
    exact (mem_spawned_step hticket e).resolve_left hleft
  . intro ticket hticket e hleft
    exact (mem_queue_step hticket e).resolve_left hleft
  . intro ticket hticket e hleft
    exact (mem_running_step hticket e).resolve_left hleft
  . intro ticket hrunning
    have houtcome := outcome?_computationDeadline hvalid hrunning
    constructor
    . intro hresult
      rw [hresult] at houtcome
      exact ⟨houtcome, computationDeadline_of_working hrunning hresult⟩
    . intro hresult
      obtain ⟨outcome, hresult⟩ := Option.ne_none_iff_exists'.mp hresult
      rw [hresult] at houtcome ⊢
      exact ⟨houtcome, computationDeadline_of_result hrunning hresult⟩
  . intro e ticket hchanged
    exact cancelledAfter?_step hchanged

example :
    let d := (make 1 ⟨1000⟩ ⟨500⟩).run
      [.submit fun _ => none, .submit fun _ => none, .enter 0, .enter 1, .grant,
        .queueDeadline 1, .computationDeadline 0, .grant]
    d.pool.running = [1] ∧ d.cancelledAfter? 0 = some 0 ∧ d.cancelledAfter? 1 = none := by
  refine ⟨?_, ?_, ?_⟩ <;> rfl

end Sweep.Dispatch
