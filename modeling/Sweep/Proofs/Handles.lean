import Sweep.Cancel.Handles
import Sweep.Proofs.Privacy

/-!
This module contains the handles that a dispatch of computations has on its cancel flags. A job that
starts makes a flag and a second handle on it for its worker, so that the deadline of one job cannot
set the flag of another.
-/

namespace Sweep

namespace FlagHandles

variable {s : FlagHandles} {i flag : Nat}

theorem getElem?_readings_cancel (hi : s.handles[i]? = some flag) (hflag : flag < s.flags.length)
    (j : Nat) :
    (s.cancel i).readings[j]?
      =
    if s.handles[j]? = some flag then some true else s.readings[j]? := by
  unfold cancel readings
  rw [hi]
  dsimp only
  rw [List.getElem?_map, List.getElem?_map]
  cases hj : s.handles[j]? with
  | none => simp
  | some other =>
    by_cases heq : flag = other
    . subst heq
      simp [hflag]
    . simp [heq, Ne.symm heq]

theorem clone_new (s : FlagHandles) :
    s.new.clone s.handles.length
      =
    {
      flags := s.flags ++ [false]
      handles := s.handles ++ [s.flags.length, s.flags.length]
    } := by
  unfold new clone
  simp

def pairs (n : Nat) : List Nat :=
  (List.range n).flatMap fun flag => [flag, flag]

theorem pairs_succ (n : Nat) : pairs (n + 1) = pairs n ++ [n, n] := by
  unfold pairs
  rw [List.range_succ, List.flatMap_append]
  rfl

theorem length_pairs (n : Nat) : (pairs n).length = 2 * n := by
  induction n with
  | zero => rfl
  | succ n ih =>
    rw [pairs_succ, List.length_append, ih]
    rfl

theorem getElem?_pairs {n : Nat} (h : flag < n) : (pairs n)[2 * flag]? = some flag := by
  induction n with
  | zero => contradiction
  | succ n ih =>
    rw [pairs_succ]
    by_cases hlt : flag < n
    . rw [List.getElem?_append_left (by rw [length_pairs]; omega), ih hlt]
    . obtain rfl : flag = n := by
        omega
      rw [List.getElem?_append_right (Nat.le_of_eq (length_pairs flag)), length_pairs, Nat.sub_self]
      rfl

theorem readings_pairs (h : s.handles = pairs s.flags.length) :
    s.readings = s.flags.flatMap fun set => [set, set] := by
  have hflags : (List.range s.flags.length).map (fun flag => s.flags[flag]?.getD false)
      = s.flags := by
    apply List.ext_getElem
    . simp
    . intro flag hflag hlength
      simp [hlength]
  unfold readings
  rw [h, pairs, List.map_flatMap]
  conv =>
    rhs
    rw [← hflags, List.flatMap_map]
  rfl

end FlagHandles

namespace Pool

theorem started_step (p : Pool α) {e : Event α} (h : e ≠ .start) :
    (p.step e).started = p.started := by
  have hmoves := p.moves_step e
  generalize p.step e = p' at hmoves
  cases hmoves with
  | submit | refuse | enter | finish | detach | close | keep => rfl
  | start => contradiction

theorem started_start (p : Pool α) (h : p.canStart = true) :
    ∃ ticket, (p.step .start).started = p.started ++ [ticket] := by
  have hmoves := p.moves_step .start
  generalize p.step .start = p' at hmoves
  cases hmoves with
  | keep hkeep => exact absurd h hkeep
  | @start ticket => exact ⟨ticket, rfl⟩

theorem start_eq_self (p : Pool α) (h : p.canStart = false) : p.step .start = p := by
  have hmoves := p.moves_step .start
  generalize p.step .start = p' at hmoves
  cases hmoves with
  | keep => rfl
  | start hqueue hpermits => simp [canStart, hqueue, hpermits] at h

end Pool

namespace Dispatch

variable {d : Dispatch} {ticket : Nat} {s : FlagHandles} {e : Event}

def stepHandles (d : Dispatch) (s : FlagHandles) : Event → FlagHandles
  | .grant => if d.pool.canStart then s.new.clone s.handles.length else s
  | .computationDeadline ticket =>
    if ticket ∈ d.pool.running ∧ d.result? ticket = none then
      s.cancel (2 * d.pool.started.idxOf ticket)
    else
      s
  | _ => s

def runHandles (d : Dispatch) (s : FlagHandles) : List Event → FlagHandles
  | [] => s
  | e :: events => (d.step e).runHandles (d.stepHandles s e) events

def isSet (d : Dispatch) (ticket : Nat) : Bool :=
  (d.cancelledAfter? ticket).isSome

structure Holds (d : Dispatch) (s : FlagHandles) : Prop where
  flags : s.flags = d.pool.started.map d.isSet
  handles : s.handles = FlagHandles.pairs d.pool.started.length
  started : ∀ ticket, d.isSet ticket = true → ticket ∈ d.pool.started
  readings : ∀ (ticket : Nat) (j : Job), d.jobs[ticket]? = some j →
    ∀ n, j.cancelledAfter = some n → n ≤ j.readings

theorem isSet_step (d : Dispatch) (e : Event) (ticket : Nat) :
    (d.step e).isSet ticket = d.isSet ticket ∨ d.CutsOff ticket e := by
  by_cases hsame : (d.step e).cancelledAfter? ticket = d.cancelledAfter? ticket
  . left
    unfold isSet
    rw [hsame]
  . exact .inr (cancelledAfter?_step hsame)

theorem isSet_of_cutsOff (h : d.CutsOff ticket e) (hvalid : d.Valid) :
    (d.step e).isSet ticket = true := by
  obtain ⟨rfl, hrunning, hresult⟩ := h
  have hstarted := hvalid.pool.mem_started_iff.mpr (.inl hrunning)
  have hticket := hvalid.pool.lt_submitted_of_mem_started hstarted
  rw [← hvalid.length_jobs] at hticket
  have hj := List.getElem?_eq_getElem hticket
  unfold result? at hresult
  rw [hj] at hresult
  unfold isSet cancelledAfter?
  rw [(job_computationDeadline hvalid hj hrunning hresult).1]
  rfl

theorem started_step (d : Dispatch) {e : Event} (h : e ≠ .grant) :
    (d.step e).pool.started = d.pool.started := by
  rcases d.pool_step e with heq | ⟨e', hdrives, heq⟩
  . rw [heq]
  . rw [heq]
    apply Pool.started_step
    rintro rfl
    cases hdrives
    contradiction

inductive Flags (d : Dispatch) (s : FlagHandles) (e : Event) : Prop
  | grant (ticket : Nat) (started : (d.step e).pool.started = d.pool.started ++ [ticket])
    (isSet : (d.step e).isSet = d.isSet)
    (handles : d.stepHandles s e = s.new.clone s.handles.length)
  | cancel (ticket : Nat) (started : (d.step e).pool.started = d.pool.started)
    (mem : ticket ∈ d.pool.started)
    (isSet : (d.step e).isSet = fun other => if other = ticket then true else d.isSet other)
    (handles : d.stepHandles s e = s.cancel (2 * d.pool.started.idxOf ticket))
  | keep (started : (d.step e).pool.started = d.pool.started)
    (isSet : (d.step e).isSet = d.isSet) (handles : d.stepHandles s e = s)

theorem isSet_step_of_not_cutsOff (h : ∀ ticket, ¬d.CutsOff ticket e) :
    (d.step e).isSet = d.isSet := by
  funext ticket
  exact (d.isSet_step e ticket).resolve_right (h ticket)

theorem flags_step (h : d.Valid) (s : FlagHandles) (e : Event) : d.Flags s e := by
  by_cases hcut : ∃ ticket, d.CutsOff ticket e
  . obtain ⟨ticket, hcut⟩ := hcut
    have hset := isSet_of_cutsOff hcut h
    obtain ⟨rfl, hrunning, hresult⟩ := hcut
    apply Flags.cancel ticket
    . exact d.started_step nofun
    . exact h.pool.mem_started_iff.mpr (.inl hrunning)
    . funext other
      split
      . next heq => rw [heq, hset]
      . next hne =>
        apply (d.isSet_step _ other).resolve_right
        rintro ⟨heq, -⟩
        cases heq
        contradiction
    . exact if_pos ⟨hrunning, hresult⟩
  . rw [not_exists] at hcut
    have hset := isSet_step_of_not_cutsOff hcut
    cases e with
    | grant =>
      cases hstart : d.pool.canStart with
      | true =>
        obtain ⟨ticket, hstarted⟩ := d.pool.started_start hstart
        exact .grant ticket hstarted hset (if_pos hstart)
      | false =>
        have hpool := d.pool.start_eq_self hstart
        exact .keep (congrArg Pool.started hpool) hset (if_neg (by simp [hstart]))
    | computationDeadline ticket =>
      refine .keep (d.started_step nofun) hset (if_neg ?_)
      rintro ⟨hrunning, hresult⟩
      exact hcut ticket ⟨rfl, hrunning, hresult⟩
    | submit | enter | poll | finish | conclude | queueDeadline | deliver | close =>
      exact .keep (d.started_step nofun) hset rfl

theorem set_map_idxOf {xs : List Nat} (hnodup : xs.Nodup) {x : Nat} (hx : x ∈ xs)
    (f : Nat → Bool) :
    (xs.map f).set (xs.idxOf x) true = xs.map fun y => if y = x then true else f y := by
  apply List.ext_getElem
  . simp
  . intro i _ hmap
    have hlength : i < xs.length := by
      rwa [List.length_map] at hmap
    have heq : xs[i] = x ↔ xs.idxOf x = i := by
      constructor
      . rintro rfl
        exact hnodup.idxOf_getElem i hlength
      . rintro rfl
        exact List.getElem_idxOf hlength
    simp [List.getElem_set, heq]

namespace Holds

theorem readings_step (h : d.Holds s) {j' : Job} (hj' : (d.step e).jobs[ticket]? = some j') :
    ∀ n, j'.cancelledAfter = some n → n ≤ j'.readings := by
  rcases job_of_step hj' with ⟨j, hj, hchanges⟩ | ⟨work, rfl⟩
  . exact hchanges.readings (h.readings ticket j hj)
  . exact nofun

theorem step (h : d.Holds s) (hvalid : d.Valid) (e : Event) :
    (d.step e).Holds (d.stepHandles s e) := by
  have hlength : s.flags.length = d.pool.started.length := by
    rw [h.flags, List.length_map]
  cases flags_step hvalid s e with
  | grant ticket hstarted hset hhandles =>
    have hnodup := (hvalid.step e).pool.nodup_started
    rw [hstarted] at hnodup
    have hfresh : d.isSet ticket = false := by
      rw [Bool.eq_false_iff]
      intro hticket
      have hmem := List.mem_singleton_self ticket
      exact (List.nodup_append.mp hnodup).2.2 ticket (h.started ticket hticket) ticket hmem rfl
    rw [hhandles, s.clone_new]
    constructor
    . rw [hstarted, hset, List.map_append, ← h.flags, List.map_singleton, hfresh]
    . rw [hstarted, List.length_append, List.length_singleton, FlagHandles.pairs_succ, ← h.handles,
        hlength]
    . intro ticket' hticket'
      rw [hset] at hticket'
      rw [hstarted]
      exact List.mem_append_left _ (h.started ticket' hticket')
    . exact fun _ _ => h.readings_step
  | cancel ticket hstarted hmem hset hhandles =>
    have hindex : d.pool.started.idxOf ticket < d.pool.started.length :=
      List.idxOf_lt_length_iff.mpr hmem
    have hcancel : s.cancel (2 * d.pool.started.idxOf ticket)
        = { s with flags := s.flags.set (d.pool.started.idxOf ticket) true } := by
      unfold FlagHandles.cancel
      rw [h.handles, FlagHandles.getElem?_pairs hindex]
    rw [hhandles, hcancel]
    constructor
    . rw [hstarted, hset, ← set_map_idxOf hvalid.pool.nodup_started hmem, ← h.flags]
    . rw [hstarted]
      exact h.handles
    . intro ticket' hticket'
      rw [hset] at hticket'
      rw [hstarted]
      dsimp only at hticket'
      split at hticket'
      . next heq => rwa [heq]
      . exact h.started ticket' hticket'
    . exact fun _ _ => h.readings_step
  | keep hstarted hset hhandles =>
    rw [hhandles]
    constructor
    . rw [hstarted, hset]
      exact h.flags
    . rw [hstarted]
      exact h.handles
    . rw [hstarted, hset]
      exact h.started
    . exact fun _ _ => h.readings_step

theorem run (h : d.Holds s) (hvalid : d.Valid) (events : List Event) :
    (d.run events).Holds (d.runHandles s events) := by
  induction events generalizing d s with
  | nil => exact h
  | cons e events ih => exact ih (h.step hvalid e) (hvalid.step e)

theorem reading?_eq (h : d.Holds s) (hvalid : d.Valid) (hticket : ticket ∈ d.pool.started) :
    d.reading? ticket = some (d.isSet ticket) := by
  have hlt := hvalid.pool.lt_submitted_of_mem_started hticket
  rw [← hvalid.length_jobs] at hlt
  have hj := List.getElem?_eq_getElem hlt
  have hreadings := h.readings ticket _ hj
  unfold reading? isSet cancelledAfter?
  rw [hj, Option.map_some, Option.bind_some, Job.flag]
  cases hflag : d.jobs[ticket].cancelledAfter with
  | none => simp [CancelFlag.reading_never]
  | some n => simp [CancelFlag.reading_after (hreadings n hflag)]

end Holds

theorem holds_make (size : Nat) (computationTimeout queueTimeout : Duration) :
    (make size computationTimeout queueTimeout).Holds .empty := by
  refine ⟨rfl, rfl, ?_, ?_⟩
  . intro ticket hset
    contradiction
  . intro ticket j hj
    contradiction

/--
Both handles on the flag of a job that was started read what the worker of this job reads, whatever
happens to other jobs.
-/
theorem readings_runHandles (size : Nat) (computationTimeout queueTimeout : Duration)
    (events : List Event) :
    let start := make size computationTimeout queueTimeout
    let d := start.run events
    (start.runHandles .empty events).readings.map some
      =
    d.pool.started.flatMap fun ticket => [d.reading? ticket, d.reading? ticket] := by
  intro start d
  have hvalid := valid_make size computationTimeout queueTimeout
  have hholds := (holds_make size computationTimeout queueTimeout).run hvalid events
  have hlength : (start.runHandles .empty events).flags.length = d.pool.started.length := by
    rw [hholds.flags, List.length_map]
  rw [FlagHandles.readings_pairs (by rw [hlength]; exact hholds.handles), hholds.flags,
    List.flatMap_map, List.map_flatMap]
  apply List.flatMap_congr
  intro ticket hticket
  rw [hholds.reading?_eq (hvalid.run events) hticket]
  rfl

end Dispatch

end Sweep
