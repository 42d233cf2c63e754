import Sweep.Dispatch.Basic
import Sweep.Proofs.Tickets

/-!
This module contains what one step of a dispatch does to the pool and to each job, and the invariant
that follows from it.
-/

namespace Sweep.Dispatch

variable {d : Dispatch} {ticket : Nat}

def result? (d : Dispatch) (ticket : Nat) : Option Outcome :=
  d.jobs[ticket]?.bind Job.result

def cancelledAfter? (d : Dispatch) (ticket : Nat) : Option Nat :=
  d.jobs[ticket]?.bind Job.cancelledAfter

inductive Drives (d : Dispatch) : Event → Pool.Event Outcome → Prop
  | submit (work : Work) : Drives d (.submit work) .submit
  | enter (ticket : Nat) : Drives d (.enter ticket) (.enter ticket)
  | grant : Drives d .grant .start
  | conclude (ticket : Nat) {outcome : Outcome} (h : d.result? ticket = some outcome) :
    Drives d (.conclude ticket) (.finish ticket outcome)
  | takeResult (ticket : Nat) {outcome : Outcome} (h : d.result? ticket = some outcome) :
    Drives d (.computationDeadline ticket) (.finish ticket outcome)
  | cancel (ticket : Nat) (h : d.result? ticket = none) :
    Drives d (.computationDeadline ticket)
      (.finish ticket (.error (.computationTimeout d.computationTimeout)))
  | giveUp (ticket : Nat) (h : d.outcome? ticket = none) :
    Drives d (.queueDeadline ticket) (.detach ticket)
  | close : Drives d .close .close

theorem pool_step (d : Dispatch) (e : Event) :
    (d.step e).pool = d.pool ∨ ∃ e', d.Drives e e' ∧ (d.step e).pool = d.pool.step e' := by
  cases e with
  | submit work =>
    right
    exact ⟨_, .submit work, rfl⟩
  | enter ticket =>
    right
    exact ⟨_, .enter ticket, rfl⟩
  | grant =>
    right
    exact ⟨_, .grant, rfl⟩
  | poll ticket =>
    left
    rfl
  | finish ticket =>
    left
    simp only [step]
    split <;> rfl
  | conclude ticket =>
    simp only [step, conclude]
    split
    . next hresult =>
      right
      exact ⟨_, .conclude ticket hresult, rfl⟩
    . left
      rfl
  | computationDeadline ticket =>
    simp only [step, computationDeadline]
    split
    . split
      . next hresult =>
        right
        exact ⟨_, .takeResult ticket hresult, rfl⟩
      . next hresult =>
        right
        exact ⟨_, .cancel ticket hresult, rfl⟩
    . left
      rfl
  | queueDeadline ticket =>
    simp only [step, queueDeadline]
    split
    . left
      rfl
    . split
      . left
        rfl
      . next houtcome =>
        right
        exact ⟨_, .giveUp ticket houtcome, rfl⟩
  | deliver ticket =>
    left
    simp only [step, deliver]
    split <;> rfl
  | close =>
    right
    exact ⟨_, .close, rfl⟩

inductive Changes (d : Dispatch) (ticket : Nat) : Event → Job → Job → Prop
  | keep (e : Event) (j : Job) : Changes d ticket e j j
  | poll (j : Job) : Changes d ticket (.poll ticket) j { j with readings := j.readings + 1 }
  | finish (j : Job) (h : ticket ∈ d.pool.started) : Changes d ticket (.finish ticket) j j.finish
  | cancel (j : Job) (hrunning : ticket ∈ d.pool.running) (hresult : j.result = none) :
    Changes d ticket (.computationDeadline ticket) j { j with cancelledAfter := some j.readings }
  | deliver (j : Job) {outcome : Outcome} (h : d.outcome? ticket = some outcome) :
    Changes d ticket (.deliver ticket) j (j.tell outcome)
  | takeOutcome (j : Job) {outcome : Outcome} (h : d.outcome? ticket = some outcome) :
    Changes d ticket (.queueDeadline ticket) j (j.tell outcome)
  | giveUp (j : Job) (h : d.outcome? ticket = none) (hanswer : j.answer = none) :
    Changes d ticket (.queueDeadline ticket) j (j.tell (.error (.queueTimeout d.queueTimeout)))

theorem exists_modify {xs : List α} {i target : Nat} {x : α} {f : α → α} {R : α → α → Prop}
    (h : xs[i]? = some x) (hkeep : R x x) (hf : target = i → R x (f x)) :
    ∃ x', (xs.modify target f)[i]? = some x' ∧ R x x' := by
  rw [List.getElem?_modify, h]
  by_cases heq : target = i
  . refine ⟨f x, ?_, hf heq⟩
    simp [heq]
  . refine ⟨x, ?_, hkeep⟩
    simp [heq]

theorem changes_modify {e : Event} {j : Job} {target : Nat} {f : Job → Job}
    (h : d.jobs[ticket]? = some j) (hf : target = ticket → d.Changes ticket e j (f j)) :
    ∃ j', (d.jobs.modify target f)[ticket]? = some j' ∧ d.Changes ticket e j j' := by
  exact exists_modify h (.keep e j) hf

theorem job_step {j : Job} (h : d.jobs[ticket]? = some j) (e : Event) :
    ∃ j', (d.step e).jobs[ticket]? = some j' ∧ d.Changes ticket e j j' := by
  have hkeep : ∃ j', d.jobs[ticket]? = some j' ∧ d.Changes ticket e j j' := ⟨j, h, .keep e j⟩
  cases e with
  | submit work =>
    refine ⟨j, ?_, .keep _ j⟩
    simp only [step]
    rw [List.getElem?_append_left, h]
    exact (List.getElem?_eq_some_iff.mp h).1
  | enter | grant => exact hkeep
  | poll target =>
    apply changes_modify h
    rintro rfl
    apply Changes.poll
  | finish target =>
    simp only [step]
    split
    . next hstarted =>
      apply changes_modify h
      rintro rfl
      exact .finish j hstarted
    . exact hkeep
  | conclude target =>
    simp only [step, conclude]
    split <;> exact hkeep
  | computationDeadline target =>
    simp only [step, computationDeadline]
    split
    . next hrunning =>
      split
      . exact hkeep
      . next hresult =>
        apply changes_modify h
        rintro rfl
        rw [h] at hresult
        exact .cancel j hrunning hresult
    . exact hkeep
  | queueDeadline target =>
    simp only [step, queueDeadline]
    split
    . exact hkeep
    . next hanswer =>
      split
      . next outcome houtcome =>
        apply changes_modify h
        rintro rfl
        exact .takeOutcome j houtcome
      . next houtcome =>
        apply changes_modify h
        rintro rfl
        unfold answer? at hanswer
        rw [h] at hanswer
        refine .giveUp j houtcome ?_
        simpa using hanswer
  | deliver target =>
    simp only [step, deliver]
    split
    . next outcome houtcome =>
      apply changes_modify h
      rintro rfl
      exact .deliver j houtcome
    . exact hkeep
  | close => exact hkeep

theorem length_jobs_step (d : Dispatch) (e : Event) :
    (∃ work, e = .submit work) ∨ (d.step e).jobs.length = d.jobs.length := by
  cases e with
  | submit work =>
    left
    exact ⟨work, rfl⟩
  | enter | grant =>
    right
    rfl
  | poll ticket =>
    right
    simp [step, modifyJob]
  | finish ticket =>
    right
    simp only [step]
    split <;> simp [modifyJob]
  | conclude ticket =>
    right
    simp only [step, conclude]
    split <;> rfl
  | computationDeadline ticket =>
    right
    simp only [step, computationDeadline]
    split
    . split <;> simp [modifyJob]
    . rfl
  | queueDeadline ticket =>
    right
    simp only [step, queueDeadline]
    split
    . rfl
    . split <;> simp [modifyJob]
  | deliver ticket =>
    right
    simp only [step, deliver]
    split <;> simp [modifyJob]
  | close =>
    right
    rfl

theorem job_of_step {e : Event} {j' : Job} (h : (d.step e).jobs[ticket]? = some j') :
    (∃ j, d.jobs[ticket]? = some j ∧ d.Changes ticket e j j') ∨ ∃ work, j' = .ofWork work := by
  cases hj : d.jobs[ticket]? with
  | some j =>
    left
    obtain ⟨j'', hj'', hchanges⟩ := job_step hj e
    rw [h] at hj''
    cases hj''
    exact ⟨j, rfl, hchanges⟩
  | none =>
    right
    rw [List.getElem?_eq_none_iff] at hj
    rcases d.length_jobs_step e with ⟨work, rfl⟩ | hlength
    . refine ⟨work, ?_⟩
      simp only [step] at h
      rw [List.getElem?_append_right hj, List.getElem?_singleton] at h
      split at h
      . cases h
        rfl
      . contradiction
    . have := (List.getElem?_eq_some_iff.mp h).1
      omega

namespace Changes

variable {e : Event} {j j' : Job} {outcome : Outcome}

theorem answer (h : d.Changes ticket e j j') (hanswer : j.answer = some outcome) :
    j'.answer = some outcome := by
  cases h with
  | keep | poll | finish | cancel => exact hanswer
  | deliver | takeOutcome | giveUp =>
    unfold Job.tell
    rw [hanswer]
    rfl

theorem answer_cases (h : d.Changes ticket e j j') (hanswer : j'.answer = some outcome) :
    j.answer = some outcome ∨
      (e = .queueDeadline ticket ∧ j.answer = none ∧ d.outcome? ticket = none ∧
        outcome = .error (.queueTimeout d.queueTimeout)) ∨
      d.outcome? ticket = some outcome := by
  cases h with
  | keep | poll | finish | cancel =>
    left
    exact hanswer
  | deliver _ h | takeOutcome _ h =>
    unfold Job.tell at hanswer
    cases hold : j.answer with
    | some old =>
      left
      rw [hold] at hanswer
      exact hanswer
    | none =>
      right
      right
      rw [hold] at hanswer
      cases hanswer
      exact h
  | giveUp _ houtcome hnone =>
    right
    left
    unfold Job.tell at hanswer
    rw [hnone] at hanswer
    cases hanswer
    exact ⟨rfl, hnone, houtcome, rfl⟩

theorem cancelledAfter (h : d.Changes ticket e j j') :
    j'.cancelledAfter = j.cancelledAfter ∨
    (e = .computationDeadline ticket ∧ ticket ∈ d.pool.running ∧ j.result = none) := by
  cases h with
  | cancel _ hrunning hresult =>
    right
    exact ⟨rfl, hrunning, hresult⟩
  | keep | poll | finish | deliver | takeOutcome | giveUp =>
    left
    rfl

end Changes

/-! What the clients know stays as it is. -/

theorem pool_result?_step {result : Except PoolError Outcome}
    (h : d.pool.result? ticket = some result) (e : Event) :
    (d.step e).pool.result? ticket = some result := by
  rcases d.pool_step e with hpool | ⟨e', -, hpool⟩
  . rw [hpool, h]
  . rw [hpool]
    exact (d.pool.moves_step e').result? h

theorem outcome?_step {outcome : Outcome} (h : d.outcome? ticket = some outcome) (e : Event) :
    (d.step e).outcome? ticket = some outcome := by
  unfold outcome? at h ⊢
  cases hresult : d.pool.result? ticket with
  | none =>
    rw [hresult] at h
    contradiction
  | some result =>
    rw [pool_result?_step hresult e]
    rw [hresult] at h
    exact h

theorem answer?_step {outcome : Outcome} (h : d.answer? ticket = some outcome) (e : Event) :
    (d.step e).answer? ticket = some outcome := by
  unfold answer? at h ⊢
  obtain ⟨j, hj, hanswer⟩ := Option.bind_eq_some_iff.mp h
  obtain ⟨j', hj', hchanges⟩ := job_step hj e
  rw [hj']
  exact hchanges.answer hanswer

theorem answer?_run {outcome : Outcome} (h : d.answer? ticket = some outcome)
    (events : List Event) : (d.run events).answer? ticket = some outcome := by
  induction events generalizing d with
  | nil => exact h
  | cons e events ih =>
    apply ih
    exact answer?_step h e

/-! The settings of a dispatch. -/

theorem size_step (d : Dispatch) (e : Event) : (d.step e).pool.size = d.pool.size := by
  rcases d.pool_step e with hpool | ⟨e', -, hpool⟩
  . rw [hpool]
  . rw [hpool, (d.pool.moves_step e').size]

theorem timeouts_step (d : Dispatch) (e : Event) :
    (d.step e).computationTimeout = d.computationTimeout ∧
    (d.step e).queueTimeout = d.queueTimeout := by
  cases e with
  | submit | enter | grant | poll | close => exact ⟨rfl, rfl⟩
  | finish ticket =>
    simp only [step]
    split <;> exact ⟨rfl, rfl⟩
  | conclude ticket =>
    simp only [step, conclude]
    split <;> exact ⟨rfl, rfl⟩
  | computationDeadline ticket =>
    simp only [step, computationDeadline]
    split
    . split <;> exact ⟨rfl, rfl⟩
    . exact ⟨rfl, rfl⟩
  | queueDeadline ticket =>
    simp only [step, queueDeadline]
    split
    . exact ⟨rfl, rfl⟩
    . split <;> exact ⟨rfl, rfl⟩
  | deliver ticket =>
    simp only [step, deliver]
    split <;> exact ⟨rfl, rfl⟩

theorem settings_run (d : Dispatch) (events : List Event) :
    (d.run events).pool.size = d.pool.size ∧
    (d.run events).computationTimeout = d.computationTimeout ∧
    (d.run events).queueTimeout = d.queueTimeout := by
  induction events generalizing d with
  | nil => exact ⟨rfl, rfl, rfl⟩
  | cons e events ih =>
    have hsize := d.size_step e
    have htimeouts := d.timeouts_step e
    have hrest := ih (d.step e)
    rw [hsize, htimeouts.1, htimeouts.2] at hrest
    exact hrest

/-! The invariant. -/

theorem submitted_step (d : Dispatch) (e : Event) :
    (∃ work, e = .submit work) ∨ (d.step e).pool.submitted = d.pool.submitted := by
  rcases d.pool_step e with hpool | ⟨e', hdrives, hpool⟩
  . right
    rw [hpool]
  . rcases (d.pool.moves_step e').submitted with rfl | hsubmitted
    . left
      cases hdrives with
      | submit work => exact ⟨work, rfl⟩
    . right
      rw [hpool, hsubmitted]

structure Valid (d : Dispatch) : Prop where
  pool : d.pool.Valid
  length_jobs : d.jobs.length = d.pool.submitted
  answers : ∀ ticket outcome, d.answer? ticket = some outcome →
    outcome = .error (.queueTimeout d.queueTimeout) ∨ d.outcome? ticket = some outcome

theorem valid_make (size : Nat) (computationTimeout queueTimeout : Duration) :
    (make size computationTimeout queueTimeout).Valid := by
  constructor
  . exact Pool.valid_make size
  . rfl
  . exact nofun

namespace Valid

theorem pool_valid_step (h : d.Valid) (e : Event) : (d.step e).pool.Valid := by
  rcases d.pool_step e with hpool | ⟨e', -, hpool⟩
  . rw [hpool]
    exact h.pool
  . rw [hpool]
    exact h.pool.step e'

theorem length_jobs_step (h : d.Valid) (e : Event) :
    (d.step e).jobs.length = (d.step e).pool.submitted := by
  have hlength := h.length_jobs
  rcases d.length_jobs_step e with ⟨work, rfl⟩ | hjobs
  . simp [Dispatch.step, Pool.submit, hlength]
  . rcases d.submitted_step e with ⟨work, rfl⟩ | hsubmitted
    . simp [Dispatch.step, Pool.submit, hlength]
    . rw [hjobs, hsubmitted, hlength]

theorem answers_step (h : d.Valid) (e : Event) (ticket : Nat) (outcome : Outcome)
    (hanswer : (d.step e).answer? ticket = some outcome) :
    outcome = .error (.queueTimeout (d.step e).queueTimeout) ∨
    (d.step e).outcome? ticket = some outcome := by
  rw [(d.timeouts_step e).2]
  obtain ⟨j', hj', hanswer⟩ := Option.bind_eq_some_iff.mp hanswer
  rcases job_of_step hj' with ⟨j, hj, hchanges⟩ | ⟨work, rfl⟩
  . rcases hchanges.answer_cases hanswer with hold | ⟨-, -, -, htimeout⟩ | houtcome
    . have hanswer : d.answer? ticket = some outcome := by
        unfold answer?
        rw [hj]
        exact hold
      rcases h.answers ticket outcome hanswer with htimeout | houtcome
      . left
        exact htimeout
      . right
        exact outcome?_step houtcome e
    . left
      exact htimeout
    . right
      exact outcome?_step houtcome e
  . contradiction

theorem step (h : d.Valid) (e : Event) : (d.step e).Valid := by
  constructor
  . exact h.pool_valid_step e
  . exact h.length_jobs_step e
  . exact h.answers_step e

theorem run (h : d.Valid) (events : List Event) : (d.run events).Valid := by
  induction events generalizing d with
  | nil => exact h
  | cons e events ih =>
    apply ih
    exact h.step e

end Valid

end Sweep.Dispatch
