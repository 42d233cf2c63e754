import Sweep.Pool.Basic

/-!
This module contains what one step of a pool does and the invariant that follows from it. Every
ticket is in one place, and the permits that are left and the running jobs make up the size.
-/

namespace Sweep.Pool

variable {p p' : Pool α} {e : Event α} {ticket : Nat} {result : α}

/-! What a step does. -/

def Enabled (p : Pool α) : Event α → Prop
  | .submit => True
  | .enter ticket => ticket ∈ p.spawned
  | .start => p.canStart
  | .finish ticket _ => ticket ∈ p.running
  | .detach ticket => p.result? ticket = none
  | .close => True

inductive Moves (p : Pool α) : Event α → Pool α → Prop
  | submit :
    p.Moves .submit
      { p with submitted := p.submitted + 1, spawned := p.spawned ++ [p.submitted] }
  | refuse {ticket : Nat} (hspawned : ticket ∈ p.spawned) (hclosed : p.closed = true) :
    p.Moves (.enter ticket)
      {
        p with
        spawned := p.spawned.erase ticket
        results := p.results ++ [(ticket, .error .closed)]
      }
  | enter {ticket : Nat} (hspawned : ticket ∈ p.spawned) (hopen : p.closed = false) :
    p.Moves (.enter ticket)
      { p with spawned := p.spawned.erase ticket, queue := p.queue ++ [ticket] }
  | start {ticket : Nat} {queue : List Nat} (hqueue : p.queue = ticket :: queue)
    (hpermits : 0 < p.permits) :
    p.Moves .start
      {
        p with
        permits := p.permits - 1
        queue
        running := p.running ++ [ticket]
        started := p.started ++ [ticket]
      }
  | finish {ticket : Nat} (hrunning : ticket ∈ p.running) (result : α) :
    p.Moves (.finish ticket result)
      {
        p with
        permits := p.permits + 1
        running := p.running.erase ticket
        finished := p.finished ++ [ticket]
        results := p.results ++ [(ticket, .ok result)]
      }
  | detach {ticket : Nat} (hresult : p.result? ticket = none) :
    p.Moves (.detach ticket) { p with detached := ticket :: p.detached }
  | close :
    p.Moves .close
      {
        p with
        closed := true
        queue := []
        results := p.results ++ p.queue.map fun ticket => (ticket, .error .closed)
      }
  | keep {e : Event α} (h : ¬p.Enabled e) : p.Moves e p

theorem moves_step (p : Pool α) (e : Event α) : p.Moves e (p.step e) := by
  cases e with
  | submit => exact .submit
  | enter ticket =>
    simp only [step, enter]
    split
    . next hspawned =>
      split
      . next hclosed => exact .refuse hspawned hclosed
      . next hopen => exact .enter hspawned (eq_false_of_ne_true hopen)
    . next hspawned => exact .keep hspawned
  | start =>
    simp only [step, start]
    split
    . next hqueue =>
      apply Moves.keep
      simp [Enabled, canStart, hqueue]
    . next head queue hqueue =>
      split
      . next hpermits => exact .start hqueue hpermits
      . next hpermits =>
        apply Moves.keep
        simp [Enabled, canStart, hpermits]
  | finish ticket result =>
    simp only [step, finish]
    split
    . next hrunning => exact .finish hrunning result
    . next hrunning => exact .keep hrunning
  | detach ticket =>
    simp only [step, detach]
    split
    . next hresult =>
      apply Moves.keep
      exact Option.ne_none_iff_isSome.mpr hresult
    . next hresult => exact .detach (by simpa using hresult)
  | close => exact .close

/-! The invariant. -/

def tickets (p : Pool α) : List Nat :=
  p.spawned ++ p.queue ++ p.running ++ p.results.map Prod.fst

structure Valid (p : Pool α) : Prop where
  permits : p.permits + p.running.length = p.size
  tickets : p.tickets.Perm (List.range p.submitted)
  started : p.started.Perm (p.running ++ p.finished)
  finished : p.finished = (p.results.filter (·.2.toBool)).map Prod.fst
  closed : p.closed → p.queue = []

theorem valid_make (size : Nat) : (make size : Pool α).Valid := by
  constructor <;> simp [make, Pool.tickets]

namespace Moves

theorem permits (h : p.Moves e p') (hpermits : p.permits + p.running.length = p.size) :
    p'.permits + p'.running.length = p'.size := by
  cases h with
  | submit | refuse | enter | detach | close | keep => exact hpermits
  | start =>
    simp only [List.length_append, List.length_singleton]
    omega
  | finish hrunning =>
    have := List.length_erase_of_mem hrunning
    have := List.length_pos_of_mem hrunning
    dsimp only
    omega

theorem tickets (h : p.Moves e p') (htickets : p.tickets.Perm (List.range p.submitted)) :
    p'.tickets.Perm (List.range p'.submitted) := by
  rw [List.perm_iff_count] at htickets ⊢
  intro t
  have hcount := htickets t
  cases h with
  | submit =>
    simp only [Pool.tickets, List.range_succ, List.count_append] at hcount ⊢
    omega
  | refuse hspawned | enter hspawned =>
    have := (List.perm_cons_erase hspawned).count_eq t
    simp only [Pool.tickets, List.count_append, List.count_cons, List.count_nil, List.map_append,
      List.map_cons, List.map_nil] at *
    omega
  | start hqueue =>
    simp only [Pool.tickets, hqueue, List.count_append, List.count_cons,
      List.count_nil] at hcount ⊢
    omega
  | finish hrunning =>
    have := (List.perm_cons_erase hrunning).count_eq t
    simp only [Pool.tickets, List.count_append, List.count_cons, List.count_nil, List.map_append,
      List.map_cons, List.map_nil] at *
    omega
  | close =>
    simp only [Pool.tickets, List.map_append, List.map_map, Function.comp_def, List.map_id',
      List.count_append, List.count_nil] at hcount ⊢
    omega
  | detach | keep => exact hcount

theorem started (h : p.Moves e p') (hstarted : p.started.Perm (p.running ++ p.finished)) :
    p'.started.Perm (p'.running ++ p'.finished) := by
  cases h with
  | submit | refuse | enter | detach | close | keep => exact hstarted
  | start =>
    refine (hstarted.append_right _).trans ?_
    rw [List.append_assoc, List.append_assoc]
    exact List.perm_append_comm.append_left _
  | finish hrunning =>
    rw [List.perm_iff_count] at hstarted ⊢
    intro t
    have := hstarted t
    have := (List.perm_cons_erase hrunning).count_eq t
    simp only [List.count_append, List.count_cons, List.count_nil] at *
    omega

theorem finished (h : p.Moves e p')
    (hfinished : p.finished = (p.results.filter (·.2.toBool)).map Prod.fst) :
    p'.finished = (p'.results.filter (·.2.toBool)).map Prod.fst := by
  cases h with
  | submit | enter | start | detach | keep => exact hfinished
  | refuse | finish | close => simp [Except.toBool, hfinished]

theorem closed (h : p.Moves e p') (hclosed : p.closed → p.queue = []) :
    p'.closed → p'.queue = [] := by
  cases h with
  | submit | refuse | finish | detach | keep => exact hclosed
  | enter _ hopen =>
    intro hclosed'
    rw [hopen] at hclosed'
    contradiction
  | start hqueue =>
    intro hclosed'
    rw [hclosed hclosed'] at hqueue
    contradiction
  | close =>
    intro _
    rfl

end Moves

namespace Valid

theorem step (h : p.Valid) (e : Event α) : (p.step e).Valid := by
  have hmoves := p.moves_step e
  constructor
  . exact hmoves.permits h.permits
  . exact hmoves.tickets h.tickets
  . exact hmoves.started h.started
  . exact hmoves.finished h.finished
  . exact hmoves.closed h.closed

theorem run (h : p.Valid) (events : List (Event α)) : (p.run events).Valid := by
  induction events generalizing p with
  | nil => exact h
  | cons e events ih =>
    apply ih
    exact h.step e

theorem lt_submitted (h : p.Valid) (hticket : ticket ∈ p.tickets) : ticket < p.submitted := by
  rw [h.tickets.mem_iff] at hticket
  exact List.mem_range.mp hticket

theorem mem_results_of_mem_finished (h : p.Valid) (hticket : ticket ∈ p.finished) :
    ticket ∈ p.results.map Prod.fst := by
  rw [h.finished] at hticket
  simp only [List.mem_map, List.mem_filter] at hticket ⊢
  obtain ⟨entry, ⟨hentry, -⟩, heq⟩ := hticket
  exact ⟨entry, hentry, heq⟩

theorem mem_running_or_results_of_mem_started (h : p.Valid) (hticket : ticket ∈ p.started) :
    ticket ∈ p.running ∨ ticket ∈ p.results.map Prod.fst := by
  rw [h.started.mem_iff, List.mem_append] at hticket
  rcases hticket with hrunning | hfinished
  . left
    exact hrunning
  . right
    exact h.mem_results_of_mem_finished hfinished

theorem lt_submitted_of_mem_started (h : p.Valid) (hticket : ticket ∈ p.started) :
    ticket < p.submitted := by
  apply h.lt_submitted
  unfold Pool.tickets
  rcases h.mem_running_or_results_of_mem_started hticket with hrunning | hended
  . simp [hrunning]
  . simp [hended]

theorem nodup_tickets (h : p.Valid) : p.tickets.Nodup := by
  rw [h.tickets.nodup_iff]
  exact List.nodup_range

theorem lt_submitted_of_mem_spawned (h : p.Valid) (hticket : ticket ∈ p.spawned) :
    ticket < p.submitted := by
  apply h.lt_submitted
  simp [Pool.tickets, hticket]

theorem nodup_spawned (h : p.Valid) : p.spawned.Nodup := by
  have hnodup := h.nodup_tickets
  unfold Pool.tickets at hnodup
  rw [List.append_assoc, List.append_assoc] at hnodup
  exact (List.nodup_append.mp hnodup).1

theorem nodup_results (h : p.Valid) : (p.results.map Prod.fst).Nodup := by
  exact (List.nodup_append.mp h.nodup_tickets).2.1

theorem nodup_started (h : p.Valid) : p.started.Nodup := by
  rw [h.started.nodup_iff, h.finished]
  have hended : ((p.results.filter (·.2.toBool)).map Prod.fst).Sublist (p.results.map Prod.fst) :=
    List.filter_sublist.map _
  apply (hended.append_left p.running).nodup
  have hnodup := h.nodup_tickets
  unfold Pool.tickets at hnodup
  rw [List.append_assoc] at hnodup
  exact (List.nodup_append.mp hnodup).2.1

theorem not_mem_results_of_mem_running (h : p.Valid) (hrunning : ticket ∈ p.running) :
    ticket ∉ p.results.map Prod.fst := by
  intro hended
  have hnodup := h.nodup_tickets
  unfold Pool.tickets at hnodup
  rw [List.nodup_append] at hnodup
  apply hnodup.2.2 ticket _ ticket hended rfl
  simp [hrunning]

theorem not_mem_finished_of_mem_running (h : p.Valid) (hrunning : ticket ∈ p.running) :
    ticket ∉ p.finished := by
  intro hfinished
  apply h.not_mem_results_of_mem_running hrunning
  exact h.mem_results_of_mem_finished hfinished

theorem permits_add_unfinished (h : p.Valid) :
    p.permits + (p.started.filter (· ∉ p.finished)).length = p.size := by
  -- of the jobs that were started, those that run are the ones that did not finish
  have hstarted := h.started.filter (· ∉ p.finished)
  have hrunning : p.running.filter (· ∉ p.finished) = p.running := by
    rw [List.filter_eq_self]
    intro ticket hticket
    simpa using h.not_mem_finished_of_mem_running hticket
  have hfinished : p.finished.filter (· ∉ p.finished) = [] := by
    rw [List.filter_eq_nil_iff]
    intro ticket hticket
    simpa using hticket
  rw [List.filter_append, hrunning, hfinished, List.append_nil] at hstarted
  rw [hstarted.length_eq]
  exact h.permits

end Valid

/-! What a step leaves as it is. -/

namespace Moves

theorem submitted (h : p.Moves e p') : e = .submit ∨ p'.submitted = p.submitted := by
  cases h with
  | submit =>
    left
    rfl
  | refuse | enter | start | finish | detach | close | keep =>
    right
    rfl

theorem size (h : p.Moves e p') : p'.size = p.size := by
  cases h <;> rfl

theorem results (h : p.Moves e p') : p.results <+: p'.results := by
  cases h with
  | submit | enter | start | detach | keep => apply List.prefix_refl
  | refuse | finish | close => apply List.prefix_append

theorem result? (h : p.Moves e p') {outcome : Except PoolError α}
    (houtcome : p.result? ticket = some outcome) : p'.result? ticket = some outcome := by
  obtain ⟨later, hlater⟩ := h.results
  unfold Pool.result? at houtcome ⊢
  rw [Option.map_eq_some_iff] at houtcome ⊢
  obtain ⟨entry, hentry, heq⟩ := houtcome
  refine ⟨entry, ?_, heq⟩
  rw [← hlater, List.find?_append, hentry]
  rfl

theorem spawned_of_mem (h : p.Moves e p') (hticket : ticket ∈ p.spawned) :
    ticket ∈ p'.spawned ∨ e = .enter ticket := by
  cases h with
  | submit =>
    left
    exact List.mem_append_left _ hticket
  | @refuse ticket' | @enter ticket' =>
    by_cases heq : ticket = ticket'
    . right
      rw [heq]
    . left
      exact (List.mem_erase_of_ne heq).mpr hticket
  | start | finish | detach | close | keep =>
    left
    exact hticket

theorem mem_queue (h : p.Moves e p') (hticket : ticket ∈ p.queue) :
    ticket ∈ p'.queue ∨ (e = .start ∧ ticket ∈ p'.running) ∨ e = .close := by
  cases h with
  | submit | refuse | finish | detach | keep =>
    left
    exact hticket
  | enter =>
    left
    exact List.mem_append_left _ hticket
  | start hqueue =>
    rw [hqueue, List.mem_cons] at hticket
    rcases hticket with rfl | hlater
    . right
      left
      simp
    . left
      exact hlater
  | close =>
    right
    right
    rfl

theorem mem_running (h : p.Moves e p') (hticket : ticket ∈ p.running) :
    ticket ∈ p'.running ∨ ∃ result, e = .finish ticket result := by
  cases h with
  | submit | refuse | enter | detach | close | keep =>
    left
    exact hticket
  | start =>
    left
    exact List.mem_append_left _ hticket
  | @finish ticket' _ result =>
    by_cases heq : ticket = ticket'
    . right
      exact ⟨result, by rw [heq]⟩
    . left
      exact (List.mem_erase_of_ne heq).mpr hticket

theorem mem_started (h : p.Moves e p') (hticket : ticket ∈ p.started) : ticket ∈ p'.started := by
  cases h with
  | submit | refuse | enter | finish | detach | close | keep => exact hticket
  | start => exact List.mem_append_left _ hticket

end Moves

theorem closed_or_mem_queue_enter (h : ticket ∈ p.spawned) :
    p.closed ∨ ticket ∈ (p.step (.enter ticket)).queue := by
  simp only [step, enter]
  rw [if_pos h]
  split
  . next hclosed => exact .inl hclosed
  . exact .inr List.mem_concat_self

theorem result?_finish (h : p.Valid) (hrunning : ticket ∈ p.running) (result : α) :
    (p.finish ticket result).result? ticket = some (.ok result) := by
  have hended : p.results.find? (·.1 == ticket) = none := by
    rw [List.find?_eq_none]
    intro entry hentry heq
    apply h.not_mem_results_of_mem_running hrunning
    rw [← beq_iff_eq.mp heq]
    exact List.mem_map_of_mem hentry
  unfold finish result?
  rw [if_pos hrunning]
  dsimp only
  rw [List.find?_append, hended]
  simp

end Sweep.Pool
