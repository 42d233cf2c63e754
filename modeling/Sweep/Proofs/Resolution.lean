import Sweep.Proofs.Tickets

/-!
This module contains the order in which the jobs of a pool start and how they end. Jobs start in the
order in which they got in line. A job that was started ends with its own result, and the other jobs
are refused once the pool is closed. Whether a handle is kept makes no difference to any job.
-/

namespace Sweep.Pool

variable {p p' : Pool α} {e : Event α} {events : List (Event α)} {ticket : Nat}
  {outcome : Except PoolError α}

@[simp]
theorem run_nil (p : Pool α) : p.run [] = p := by
  rfl

@[simp]
theorem run_cons (p : Pool α) (e : Event α) (events : List (Event α)) :
    p.run (e :: events) = (p.step e).run events := by
  rfl

theorem size_run (p : Pool α) (events : List (Event α)) : (p.run events).size = p.size := by
  induction events generalizing p with
  | nil => rfl
  | cons e events ih => rw [run_cons, ih, (p.moves_step e).size]

/-! How many jobs were submitted, and whether the pool was closed. -/

theorem Moves.length_submit (h : p.Moves e p') :
    p'.submitted = p.submitted + ([e].filter (· matches .submit)).length := by
  cases h with
  | submit | refuse | enter | start | finish | detach | close => rfl
  | @keep e h =>
    cases e with
    | submit => exact absurd trivial h
    | enter | start | finish | detach | close => rfl

theorem submitted_run (p : Pool α) (events : List (Event α)) :
    (p.run events).submitted = p.submitted + (events.filter (· matches .submit)).length := by
  induction events generalizing p with
  | nil => rfl
  | cons e events ih =>
    rw [run_cons, ih, (p.moves_step e).length_submit, Nat.add_assoc, ← List.length_append,
      ← List.filter_append, List.singleton_append]

theorem Moves.closed_iff (h : p.Moves e p') : p'.closed ↔ p.closed ∨ e = .close := by
  cases h with
  | submit | refuse | enter | start | finish | detach | close => simp
  | @keep e h =>
    cases e with
    | close => exact absurd trivial h
    | submit | enter | start | finish | detach => simp

theorem closed_run (p : Pool α) (events : List (Event α)) :
    (p.run events).closed ↔ p.closed ∨ .close ∈ events := by
  induction events generalizing p with
  | nil => simp
  | cons e events ih =>
    rw [run_cons, ih, (p.moves_step e).closed_iff, List.mem_cons, or_assoc]
    simp only [eq_comm]

theorem Moves.started_of_closed (h : p.Moves e p') (hvalid : p.Valid) (hclosed : p.closed) :
    p'.started = p.started := by
  cases h with
  | submit | refuse | enter | finish | detach | close | keep => rfl
  | start hqueue =>
    rw [hvalid.closed hclosed] at hqueue
    contradiction

theorem started_run_of_closed (h : p.Valid) (hclosed : p.closed) (events : List (Event α)) :
    (p.run events).started = p.started := by
  induction events generalizing p with
  | nil => rfl
  | cons e events ih =>
    have hmoves := p.moves_step e
    rw [run_cons, ih (h.step e) (hmoves.closed_iff.mpr (.inl hclosed)),
      hmoves.started_of_closed h hclosed]

/-! The order in which jobs get in line. -/

def arrival? (p : Pool α) : Event α → Option Nat
  | .enter ticket => if ticket ∈ p.spawned then some ticket else none
  | _ => none

def entered (p : Pool α) : List (Event α) → List Nat
  | [] => []
  | e :: events => (p.arrival? e).toList ++ (p.step e).entered events

/--
Tasks come to run for the first time in the order in which they were spawned. A runtime with one
thread keeps that order, while one with several threads need not.
-/
def TakesTurns (p : Pool α) : List (Event α) → Prop
  | [] => True
  | e :: events =>
    (∀ ticket, p.arrival? e = some ticket → p.spawned.head? = some ticket) ∧
    (p.step e).TakesTurns events

def InLine (p : Pool α) (arrivals : List Nat) : Prop :=
  p.started ++ p.queue <+: arrivals ∧ (p.closed = false → p.started ++ p.queue = arrivals)

theorem Moves.inLine (h : p.Moves e p') {arrivals : List Nat} (hline : p.InLine arrivals) :
    p'.InLine (arrivals ++ (p.arrival? e).toList) := by
  obtain ⟨harrived, hall⟩ := hline
  cases h with
  | submit | finish | detach =>
    show InLine _ (arrivals ++ [])
    rw [List.append_nil]
    exact ⟨harrived, hall⟩
  | refuse hspawned hclosed =>
    refine ⟨harrived.trans (List.prefix_append _ _), ?_⟩
    intro hopen
    dsimp only at hopen
    rw [hclosed] at hopen
    contradiction
  | enter hspawned hopen =>
    rw [arrival?, if_pos hspawned, ← hall hopen, Option.toList_some, List.append_assoc]
    exact ⟨List.prefix_rfl, fun _ => rfl⟩
  | start hqueue =>
    show InLine _ (arrivals ++ [])
    rw [List.append_nil]
    rw [hqueue] at harrived hall
    simpa [InLine] using And.intro harrived hall
  | close =>
    show InLine _ (arrivals ++ [])
    rw [List.append_nil]
    refine ⟨?_, nofun⟩
    dsimp only
    rw [List.append_nil]
    exact (List.prefix_append _ _).trans harrived
  | @keep e h =>
    have hnone : p.arrival? e = none := by
      cases e with
      | enter => exact if_neg h
      | submit | start | finish | detach | close => rfl
    rw [hnone, Option.toList_none, List.append_nil]
    exact ⟨harrived, hall⟩

theorem inLine_run {arrivals : List Nat} (h : p.InLine arrivals) (events : List (Event α)) :
    (p.run events).InLine (arrivals ++ p.entered events) := by
  induction events generalizing p arrivals with
  | nil =>
    rw [entered, List.append_nil]
    exact h
  | cons e events ih =>
    rw [run_cons, entered, ← List.append_assoc]
    exact ih ((p.moves_step e).inLine h)

theorem arrival?_eq_some_iff :
    p.arrival? e = some ticket ↔ e = .enter ticket ∧ ticket ∈ p.spawned := by
  unfold arrival?
  split
  . next target =>
    rw [Option.ite_none_right_eq_some]
    constructor
    . rintro ⟨h, heq⟩
      cases heq
      exact ⟨rfl, h⟩
    . rintro ⟨heq, h⟩
      cases heq
      exact ⟨h, rfl⟩
  . next hne =>
    constructor
    . intro h
      contradiction
    . rintro ⟨rfl, -⟩
      exact absurd rfl (hne ticket)

theorem Moves.mem_spawned (h : p.Moves e p') (hticket : ticket ∈ p'.spawned) :
    ticket ∈ p.spawned ∨ ticket = p.submitted := by
  cases h with
  | submit =>
    rw [List.mem_append, List.mem_singleton] at hticket
    exact hticket
  | refuse | enter => exact .inl (List.mem_of_mem_erase hticket)
  | start | finish | detach | close | keep => exact .inl hticket

theorem mem_of_mem_entered (h : ticket ∈ p.entered events) :
    ticket ∈ p.spawned ∨ p.submitted ≤ ticket := by
  induction events generalizing p with
  | nil => contradiction
  | cons e events ih =>
    rw [entered, List.mem_append, Option.mem_toList] at h
    have hmoves := p.moves_step e
    rcases h with h | h
    . exact .inl (arrival?_eq_some_iff.mp h).2
    . rcases ih h with hspawned | hle
      . rcases hmoves.mem_spawned hspawned with hold | hnew
        . exact .inl hold
        . exact .inr (Nat.le_of_eq hnew.symm)
      . have := hmoves.length_submit
        omega

theorem spawned_step_enter (h : ticket ∈ p.spawned) :
    (p.step (.enter ticket)).spawned = p.spawned.erase ticket := by
  simp only [step, enter]
  rw [if_pos h]
  split <;> rfl

theorem submitted_step_enter (p : Pool α) (ticket : Nat) :
    (p.step (.enter ticket)).submitted = p.submitted := by
  simp only [step, enter]
  split
  . split <;> rfl
  . rfl

theorem nodup_entered (h : p.Valid) (events : List (Event α)) : (p.entered events).Nodup := by
  induction events generalizing p with
  | nil => exact List.nodup_nil
  | cons e events ih =>
    rw [entered]
    cases hentry : p.arrival? e with
    | none => exact ih (h.step e)
    | some ticket =>
      obtain ⟨rfl, hspawned⟩ := arrival?_eq_some_iff.mp hentry
      refine List.nodup_cons.mpr ⟨?_, ih (h.step _)⟩
      intro hmem
      have hmem' := mem_of_mem_entered hmem
      have hgone : ticket ∉ (p.step (.enter ticket)).spawned := by
        rw [spawned_step_enter hspawned]
        exact h.nodup_spawned.not_mem_erase
      have hlt := h.lt_submitted_of_mem_spawned hspawned
      rw [submitted_step_enter] at hmem'
      rcases hmem' with hmem' | hle
      . contradiction
      . omega

theorem Moves.spawned_ordered (h : p.Moves e p')
    (hordered : (p.spawned ++ [p.submitted]).Pairwise (· < ·)) :
    (p'.spawned ++ [p'.submitted]).Pairwise (· < ·) := by
  cases h with
  | submit =>
    refine List.pairwise_append.mpr ⟨hordered, List.pairwise_singleton _ _, ?_⟩
    intro ticket hticket later hlater
    rw [List.mem_singleton] at hlater
    rw [List.mem_append, List.mem_singleton] at hticket
    subst hlater
    rcases hticket with hspawned | rfl
    . have hlt := (List.pairwise_append.mp hordered).2.2 ticket hspawned _
        (List.mem_singleton_self _)
      exact Nat.lt_succ_of_lt hlt
    . exact Nat.lt_succ_self _
  | refuse | enter => exact hordered.sublist (List.erase_sublist.append_right _)
  | start | finish | detach | close | keep => exact hordered

theorem TakesTurns.entered_ordered (h : p.TakesTurns events)
    (hordered : (p.spawned ++ [p.submitted]).Pairwise (· < ·)) :
    (p.entered events).Pairwise (· < ·) := by
  induction events generalizing p with
  | nil => exact List.Pairwise.nil
  | cons e events ih =>
    have hlater := ih h.2 ((p.moves_step e).spawned_ordered hordered)
    rw [entered]
    cases hentry : p.arrival? e with
    | none => exact hlater
    | some ticket =>
      obtain ⟨rfl, hspawned⟩ := arrival?_eq_some_iff.mp hentry
      obtain ⟨spawned, hhead⟩ := List.head?_eq_some_iff.mp (h.1 ticket hentry)
      rw [hhead, List.cons_append, List.pairwise_cons] at hordered
      refine List.pairwise_cons.mpr ⟨?_, hlater⟩
      intro later hmem
      -- what gets in line later was spawned behind the head or is submitted only then
      rcases mem_of_mem_entered hmem with hmem | hle
      . rw [spawned_step_enter hspawned, hhead, List.erase_cons_head] at hmem
        exact hordered.1 later (List.mem_append_left _ hmem)
      . have := hordered.1 p.submitted (by simp)
        rw [submitted_step_enter] at hle
        omega

/-! The outcomes of jobs. -/

theorem Moves.mem_results_iff (h : p.Moves e p') :
    (ticket, outcome) ∈ p'.results ↔
      (ticket, outcome) ∈ p.results ∨
      (∃ result, e = .finish ticket result ∧ ticket ∈ p.running ∧ outcome = .ok result) ∨
      (e = .enter ticket ∧ ticket ∈ p.spawned ∧ p.closed ∧ outcome = .error .closed) ∨
      (e = .close ∧ ticket ∈ p.queue ∧ outcome = .error .closed) := by
  cases h with
  | submit | start | detach => simp
  | refuse hspawned hclosed =>
    simp only [List.mem_append, List.mem_singleton, Prod.mk.injEq]
    constructor
    . rintro (hold | ⟨rfl, rfl⟩)
      . exact .inl hold
      . exact .inr (.inr (.inl ⟨rfl, hspawned, hclosed, rfl⟩))
    . rintro (hold | ⟨_, heq, _⟩ | ⟨heq, _, _, rfl⟩ | ⟨heq, _⟩)
      . exact .inl hold
      . contradiction
      . cases heq
        exact .inr ⟨rfl, rfl⟩
      . contradiction
  | enter _ hopen => simp [hopen]
  | finish hrunning result =>
    simp only [List.mem_append, List.mem_singleton, Prod.mk.injEq]
    constructor
    . rintro (hold | ⟨rfl, rfl⟩)
      . exact .inl hold
      . exact .inr (.inl ⟨result, rfl, hrunning, rfl⟩)
    . rintro (hold | ⟨_, heq, _, rfl⟩ | ⟨heq, _⟩ | ⟨heq, _⟩)
      . exact .inl hold
      . cases heq
        exact .inr ⟨rfl, rfl⟩
      . contradiction
      . contradiction
  | close =>
    simp only [List.mem_append, List.mem_map, Prod.mk.injEq]
    constructor
    . rintro (hold | ⟨_, hqueue, rfl, rfl⟩)
      . exact .inl hold
      . exact .inr (.inr (.inr ⟨trivial, hqueue, rfl⟩))
    . rintro (hold | ⟨_, heq, _⟩ | ⟨heq, _⟩ | ⟨_, hqueue, rfl⟩)
      . exact .inl hold
      . contradiction
      . contradiction
      . exact .inr ⟨ticket, hqueue, rfl, rfl⟩
  | keep h =>
    constructor
    . exact .inl
    . rintro (hold | ⟨result, rfl, hrunning, -⟩ | ⟨rfl, hspawned, -⟩ | ⟨rfl, -⟩)
      . exact hold
      . exact absurd hrunning h
      . exact absurd hspawned h
      . exact absurd trivial h

theorem Valid.result?_eq_some_iff (h : p.Valid) :
    p.result? ticket = some outcome ↔ (ticket, outcome) ∈ p.results := by
  have hnodup := h.nodup_results
  unfold result?
  generalize p.results = results at hnodup
  induction results with
  | nil => simp
  | cons entry results ih =>
    obtain ⟨t, r⟩ := entry
    simp only [List.map_cons, List.nodup_cons] at hnodup
    by_cases heq : t = ticket
    . subst heq
      have hfresh : (t, outcome) ∉ results := by
        intro hmem
        apply hnodup.1
        exact List.mem_map_of_mem hmem
      simp [hfresh, eq_comm]
    . have heq' : ¬ticket = t := by
        intro h
        exact heq h.symm
      simp [heq, heq', ih hnodup.2]

theorem ok_step (h : p.Valid) (e : Event α) (result : α) :
    (p.step e).result? ticket = some (.ok result) ↔
      p.result? ticket = some (.ok result) ∨ (e = .finish ticket result ∧ ticket ∈ p.running) := by
  rw [(h.step e).result?_eq_some_iff, h.result?_eq_some_iff, (p.moves_step e).mem_results_iff]
  simp only [Except.ok.injEq, reduceCtorEq, and_false, or_false]
  constructor
  . rintro (hold | ⟨_, heq, hrunning, rfl⟩)
    . exact .inl hold
    . exact .inr ⟨heq, hrunning⟩
  . rintro (hold | ⟨heq, hrunning⟩)
    . exact .inl hold
    . exact .inr ⟨result, heq, hrunning, rfl⟩

theorem ok_run (h : p.Valid) (events : List (Event α)) (result : α) :
    (p.run events).result? ticket = some (.ok result) ↔
      p.result? ticket = some (.ok result) ∨
      ∃ before after, events = before ++ .finish ticket result :: after ∧
        ticket ∈ (p.run before).running := by
  induction events generalizing p with
  | nil => simp
  | cons e events ih =>
    rw [run_cons, ih (h.step e), ok_step h, or_assoc]
    apply or_congr_right
    constructor
    . rintro (⟨rfl, hrunning⟩ | ⟨before, after, rfl, hrunning⟩)
      . exact ⟨[], events, rfl, hrunning⟩
      . exact ⟨e :: before, after, rfl, hrunning⟩
    . rintro ⟨before, after, heq, hrunning⟩
      cases before with
      | nil =>
        cases heq
        exact .inl ⟨rfl, hrunning⟩
      | cons e' before =>
        cases heq
        exact .inr ⟨before, after, rfl, hrunning⟩

theorem closed_of_refused (size : Nat) (events : List (Event α)) :
    let p : Pool α := (make size).run events
    ∀ ticket, (ticket, .error .closed) ∈ p.results → p.closed := by
  suffices h : ∀ p : Pool α, (∀ ticket, (ticket, .error .closed) ∈ p.results → p.closed) →
      ∀ ticket, (ticket, .error .closed) ∈ (p.run events).results → (p.run events).closed by
    apply h
    intro ticket hmem
    cases hmem
  intro p hrefused
  induction events generalizing p with
  | nil => exact hrefused
  | cons e events ih =>
    apply ih
    intro ticket hmem
    have hmoves := p.moves_step e
    rw [hmoves.closed_iff]
    rcases hmoves.mem_results_iff.mp hmem with hold | ⟨_, _, _, hok⟩ | ⟨_, _, hclosed, _⟩ | ⟨heq, _⟩
    . exact .inl (hrefused ticket hold)
    . contradiction
    . exact .inl hclosed
    . exact .inr heq

namespace Valid

theorem mem_started_iff (h : p.Valid) :
    ticket ∈ p.started ↔ ticket ∈ p.running ∨ ∃ result, (ticket, .ok result) ∈ p.results := by
  rw [h.started.mem_iff, List.mem_append, h.finished]
  apply or_congr_right
  simp only [List.mem_map, List.mem_filter]
  constructor
  . rintro ⟨⟨_, outcome⟩, ⟨hmem, hok⟩, rfl⟩
    cases outcome with
    | ok result => exact ⟨result, hmem⟩
    | error e => contradiction
  . rintro ⟨result, hmem⟩
    exact ⟨_, ⟨hmem, rfl⟩, rfl⟩

theorem not_mem_started_of_refused (h : p.Valid) (hmem : (ticket, .error .closed) ∈ p.results) :
    ticket ∉ p.started := by
  rw [h.mem_started_iff]
  rintro (hrunning | ⟨result, hok⟩)
  . apply h.not_mem_results_of_mem_running hrunning
    exact List.mem_map_of_mem hmem
  . rw [← h.result?_eq_some_iff] at hmem hok
    rw [hmem] at hok
    cases hok

theorem refused_of_closed (h : p.Valid) (hclosed : p.closed) (hticket : ticket < p.submitted)
    (hstarted : ticket ∉ p.started) (hspawned : ticket ∉ p.spawned) :
    (ticket, .error .closed) ∈ p.results := by
  rw [h.mem_started_iff] at hstarted
  have hmem : ticket ∈ p.tickets := h.tickets.mem_iff.mpr (List.mem_range.mpr hticket)
  unfold Pool.tickets at hmem
  rw [h.closed hclosed, List.append_nil, List.mem_append, List.mem_append] at hmem
  rcases hmem with (hwaits | hrunning) | hended
  . contradiction
  . exact absurd (.inl hrunning) hstarted
  . obtain ⟨⟨_, outcome⟩, hmem, rfl⟩ := List.mem_map.mp hended
    cases outcome with
    | ok result => exact absurd (.inr ⟨result, hmem⟩) hstarted
    | error e =>
      cases e
      exact hmem

theorem not_mem_spawned_of_mem_results (h : p.Valid) (hended : ticket ∈ p.results.map Prod.fst) :
    ticket ∉ p.spawned := by
  intro hspawned
  have hnodup := h.nodup_tickets
  unfold Pool.tickets at hnodup
  apply (List.nodup_append.mp hnodup).2.2 ticket _ ticket hended rfl
  simp [hspawned]

end Valid

theorem result?_enter_of_closed (h : p.Valid) (hclosed : p.closed) (hspawned : ticket ∈ p.spawned) :
    (p.step (.enter ticket)).result? ticket = some (.error .closed) := by
  rw [(h.step _).result?_eq_some_iff, (p.moves_step _).mem_results_iff]
  exact .inr (.inr (.inl ⟨rfl, hspawned, hclosed, rfl⟩))

/-! Handles. -/

theorem Moves.detached (h : p.Moves e p') :
    p'.detached = p.detached ∨
      ∃ ticket, e = .detach ticket ∧ p.result? ticket = none ∧
        p'.detached = ticket :: p.detached := by
  cases h with
  | submit | refuse | enter | start | finish | close | keep =>
    left
    rfl
  | detach hresult =>
    right
    exact ⟨_, rfl, hresult, rfl⟩

theorem detached_run (p : Pool α) (events : List (Event α)) (h : ticket ∈ (p.run events).detached) :
    ticket ∈ p.detached ∨ .detach ticket ∈ events := by
  induction events generalizing p with
  | nil => exact .inl h
  | cons e events ih =>
    rw [List.mem_cons]
    rcases ih (p.step e) h with hmem | hmem
    . rcases (p.moves_step e).detached with hsame | ⟨target, rfl, -, hdetached⟩
      . rw [hsame] at hmem
        exact .inl hmem
      . rw [hdetached, List.mem_cons] at hmem
        rcases hmem with rfl | hmem
        . exact .inr (.inl rfl)
        . exact .inl hmem
    . exact .inr (.inr hmem)

theorem handle?_step (h : p.handle? ticket = some outcome) (e : Event α) :
    (p.step e).handle? ticket = some outcome := by
  unfold handle? at h ⊢
  split at h
  . contradiction
  . next hkept =>
    rw [if_neg, (p.moves_step e).result? h]
    rcases (p.moves_step e).detached with hsame | ⟨target, rfl, hnone, hdetached⟩
    . rw [hsame]
      exact hkept
    . rw [hdetached, List.mem_cons]
      rintro (rfl | hmem)
      . rw [hnone] at h
        contradiction
      . contradiction

theorem handle?_run (h : p.handle? ticket = some outcome) (events : List (Event α)) :
    (p.run events).handle? ticket = some outcome := by
  induction events generalizing p with
  | nil => exact h
  | cons e events ih => exact ih (handle?_step h e)

theorem step_detach (p : Pool α) (ticket : Nat) :
    p.step (.detach ticket) = { p with detached := (p.step (.detach ticket)).detached } := by
  simp only [step, detach]
  split <;> rfl

theorem step_of_detached (p : Pool α) (detached : List Nat) (e : Event α) :
    ∃ detached', { p with detached }.step e = { p.step e with detached := detached' } := by
  cases e with
  | submit | close => exact ⟨detached, rfl⟩
  | enter ticket =>
    refine ⟨detached, ?_⟩
    simp only [step, enter]
    split
    . split <;> rfl
    . rfl
  | start =>
    refine ⟨detached, ?_⟩
    simp only [step, start]
    split
    . rfl
    . split <;> rfl
  | finish ticket result =>
    refine ⟨detached, ?_⟩
    simp only [step, finish]
    split <;> rfl
  | detach ticket =>
    refine ⟨({ p with detached }.step (.detach ticket)).detached, ?_⟩
    rw [step_detach { p with detached }, step_detach p]

theorem run_of_detached (p : Pool α) (detached : List Nat) (events : List (Event α)) :
    ∃ detached', { p with detached }.run events = { p.run events with detached := detached' } := by
  induction events generalizing p detached with
  | nil => exact ⟨detached, rfl⟩
  | cons e events ih =>
    obtain ⟨detached', hstep⟩ := p.step_of_detached detached e
    rw [run_cons, hstep]
    apply ih

/-! The pools that can be reached. -/

/--
What holds of the pool `p` that is reached from a new one of a given size by a list of events.
-/
structure WithinPermits (size : Nat) (events : List (Event α)) (p : Pool α) : Prop where
  permits : p.permits + p.running.length = max 1 size
  submitted : p.submitted = (events.filter (· matches .submit)).length
  -- every ticket is in one place
  tickets :
    (p.spawned ++ p.queue ++ p.running ++ p.results.map Prod.fst).Perm (List.range p.submitted)
  -- jobs start in the order in which they got in line, without gaps, and none of them twice
  started : p.started <+: (make size).entered events
  waiting : p.closed = false → p.started ++ p.queue = (make size).entered events
  once : ((make size).entered events).Nodup
  -- that is the order of submission if tasks take turns
  ordered : (make size).TakesTurns events → (p.started ++ p.queue).Pairwise (· < ·)
  -- nothing waits or starts in a closed pool
  closed_iff : p.closed ↔ .close ∈ events
  closed : p.closed → p.queue = [] ∧ ∀ later, (p.run later).started = p.started
  -- a running job, in a closed pool too, runs until it finishes and then gives its permit back
  running : ∀ ticket ∈ p.running, ∀ e, ticket ∉ (p.step e).running →
    ∃ result, e = .finish ticket result
  finish : ∀ ticket ∈ p.running, ∀ result,
    (p.step (.finish ticket result)).permits = p.permits + 1 ∧
    (p.step (.finish ticket result)).running = p.running.erase ticket ∧
    (p.step (.finish ticket result)).result? ticket = some (.ok result)
  -- a kept handle gives the result of its own job, or the refusal of a job that did not start
  ok_iff : ∀ ticket ∉ p.detached, ∀ result,
    p.handle? ticket = some (.ok result) ↔
      ∃ before after, events = before ++ .finish ticket result :: after ∧
        ticket ∈ ((make size).run before).running
  refused_iff : ∀ ticket ∉ p.detached,
    p.handle? ticket = some (.error .closed) ↔
      ticket < p.submitted ∧ p.closed ∧ ticket ∉ p.started ∧ ticket ∉ p.spawned
  -- a job that was spawned gets in line or is refused, and nothing else can become of it
  spawned : ∀ ticket ∈ p.spawned, ∀ e, ticket ∉ (p.step e).spawned → e = .enter ticket
  refused : p.closed → ∀ ticket ∈ p.spawned,
    (p.step (.enter ticket)).result? ticket = some (.error .closed)
  -- what a handle gives stays
  stays : ∀ ticket outcome, p.handle? ticket = some outcome →
    ∀ later, (p.run later).handle? ticket = some outcome
  detached : ∀ ticket ∈ p.detached, .detach ticket ∈ events
  -- all else is now and later as it would be with the handle
  unaffected : ∀ ticket later, ∃ detached,
    (p.step (.detach ticket)).run later = { p.run later with detached }

example :
    ((make 1 : Pool Nat).run [.submit, .submit, .enter 1, .enter 0, .start]).started = [1] := by
  rfl

end Sweep.Pool
