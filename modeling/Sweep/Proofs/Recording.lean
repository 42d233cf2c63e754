import Mathlib.Algebra.BigOperators.Group.Multiset.Defs
import Mathlib.Algebra.Group.Nat.Defs
import Mathlib.Data.Multiset.Lattice
import Mathlib.Order.Lattice.Nat
import Sweep.Proofs.Calls

/-!
This module contains what the calls of a server leave in its statistics. A call is recorded once,
after its response is fixed, and the order in which calls are recorded does not matter.
-/

namespace Sweep

namespace Stats

def ofTimes (times : Multiset Duration) : Stats :=
  {
    total := times.card
    totalTime := { nanos := (times.map Duration.nanos).sum }
    maxTime := { nanos := (times.map Duration.nanos).sup }
  }

theorem ofTimes_zero : ofTimes 0 = empty := by
  rfl

theorem record_ofTimes (times : Multiset Duration) (elapsed : Duration) :
    (ofTimes times).record elapsed = ofTimes (elapsed ::ₘ times) := by
  simp [record, ofTimes, Duration.add, Duration.max, Nat.add_comm, Nat.max_comm]

end Stats

/-! What is chosen from the elements of a list of which one is modified. -/

theorem filterMap_modify_of_eq {f : α → α} {g : α → Option β} (h : ∀ x, g (f x) = g x)
    (xs : List α) (i : Nat) : (xs.modify i f).filterMap g = xs.filterMap g := by
  induction xs generalizing i with
  | nil => simp
  | cons x xs ih =>
    cases i with
    | zero => simp [List.filterMap_cons, h]
    | succ i => simp [List.filterMap_cons, ih]

theorem filterMap_modify_perm {f : α → α} {g : α → Option β} {xs : List α} {i : Nat} {x : α} {y : β}
    (hx : xs[i]? = some x) (hbefore : g x = none) (hafter : g (f x) = some y) :
    ((xs.modify i f).filterMap g).Perm (y :: xs.filterMap g) := by
  obtain ⟨hi, rfl⟩ := List.getElem?_eq_some_iff.mp hx
  rw [List.modify_eq_take_cons_drop hi, List.filterMap_append,
    List.filterMap_cons_some hafter]
  conv =>
    rhs
    rw [← List.take_append_drop i xs, List.drop_eq_getElem_cons hi, List.filterMap_append,
      List.filterMap_cons_none hbefore]
  exact List.perm_middle

namespace Server

variable {s : Server} {call : Nat} {elapsed : Duration} {e : Event} {events : List Event}

def recorded? (s : Server) (call : Nat) : Option Duration :=
  s.calls[call]?.bind Call.recorded

def recordedTimes (s : Server) : Multiset Duration :=
  s.calls.filterMap Call.recorded

def entry? (s : Server) : Event → Option (Nat × Duration)
  | .record call elapsed =>
    if s.response? call ≠ none ∧ s.recorded? call = none then some (call, elapsed) else none
  | _ => none

def log (s : Server) : List Event → List (Nat × Duration)
  | [] => []
  | e :: events => (s.entry? e).toList ++ (s.step e).log events

theorem entry?_eq_some_iff :
    s.entry? e = some (call, elapsed) ↔
      e = .record call elapsed ∧ s.response? call ≠ none ∧ s.recorded? call = none := by
  unfold entry?
  split
  . next target time =>
    rw [Option.ite_none_right_eq_some]
    constructor
    . rintro ⟨h, heq⟩
      cases heq
      exact ⟨rfl, h⟩
    . rintro ⟨heq, h⟩
      cases heq
      exact ⟨h, rfl⟩
  . next hne =>
    constructor
    . intro h
      contradiction
    . rintro ⟨rfl, -⟩
      exact absurd rfl (hne call elapsed)

inductive Records (s : Server) : Event → Server → Prop
  | keep {e : Event} {s' : Server} (hentry : s.entry? e = none) (hstats : s'.stats = s.stats)
    (hrecorded : ∀ call, s'.recorded? call = s.recorded? call)
    (htimes : s'.recordedTimes = s.recordedTimes) : Records s e s'
  | record {call : Nat} {elapsed : Duration} {s' : Server}
    (hentry : s.entry? (.record call elapsed) = some (call, elapsed))
    (hstats : s'.stats = s.stats.record elapsed)
    (hrecorded : ∀ other,
      s'.recorded? other = if call = other then some elapsed else s.recorded? other)
    (htimes : s'.recordedTimes = elapsed ::ₘ s.recordedTimes) :
    Records s (.record call elapsed) s'

theorem records_append {s' : Server} {new : Call} (hentry : s.entry? e = none)
    (hstats : s'.stats = s.stats) (hcalls : s'.calls = s.calls ++ [new])
    (hnew : new.recorded = none) : s.Records e s' := by
  apply Records.keep hentry hstats
  . intro call
    unfold recorded?
    rw [hcalls, List.getElem?_append]
    split
    . rfl
    . next hlength =>
      rw [List.getElem?_eq_none (by omega : s.calls.length ≤ call)]
      cases call - s.calls.length with
      | zero => exact hnew
      | succ => rfl
  . unfold recordedTimes
    simp [hcalls, hnew]

theorem records_modifyCall {f : Call → Call} (hentry : s.entry? e = none)
    (hf : ∀ c, (f c).recorded = c.recorded) (target : Nat) :
    s.Records e (s.modifyCall target f) := by
  refine .keep hentry rfl ?_ ?_
  . intro call
    simp only [recorded?, modifyCall, List.getElem?_modify]
    cases s.calls[call]? with
    | none => rfl
    | some c =>
      show (if target = call then f c else c).recorded = c.recorded
      split
      . exact hf c
      . rfl
  . unfold recordedTimes modifyCall
    rw [filterMap_modify_of_eq hf]

theorem records_record (hentry : s.entry? (.record call elapsed) = some (call, elapsed)) :
    s.Records (.record call elapsed) (s.step (.record call elapsed)) := by
  obtain ⟨-, hresponse, hnone⟩ := entry?_eq_some_iff.mp hentry
  obtain ⟨r, hr⟩ := Option.ne_none_iff_exists'.mp hresponse
  obtain ⟨c, hc, hr⟩ := Option.bind_eq_some_iff.mp hr
  unfold recorded? at hnone
  rw [hc, Option.bind_some] at hnone
  have hstep : s.step (.record call elapsed) = {
      s.modifyCall call fun c => { c with recorded := some elapsed } with
      stats := s.stats.record elapsed } := by
    obtain ⟨request, ticket, response, recorded⟩ := c
    cases hr
    cases hnone
    simp only [step, record]
    rw [hc]
  apply Records.record hentry
  . rw [hstep]
  . intro other
    rw [hstep]
    simp only [recorded?, modifyCall, List.getElem?_modify]
    by_cases heq : call = other
    . rw [if_pos heq, ← heq, hc]
      simp
    . simp [heq]
  . rw [hstep]
    exact Multiset.coe_eq_coe.mpr (filterMap_modify_perm hc hnone rfl)

theorem records_step (s : Server) (e : Event) : s.Records e (s.step e) := by
  cases e with
  | arrive line =>
    simp only [step, arrive]
    split <;> exact records_append rfl rfl rfl rfl
  | readStats target elapsed | respond target elapsed =>
    apply records_modifyCall rfl
    intro c
    split <;> rfl
  | record target elapsed =>
    cases hentry : s.entry? (.record target elapsed) with
    | some entry =>
      obtain ⟨call, time⟩ := entry
      obtain ⟨heq, -⟩ := entry?_eq_some_iff.mp hentry
      cases heq
      exact records_record hentry
    | none =>
      have hstep : s.step (.record target elapsed) = s := by
        unfold step record
        dsimp only
        split
        . next r hc =>
          unfold entry? response? recorded? at hentry
          simp [hc] at hentry
        . rfl
      rw [hstep]
      exact .keep hentry rfl (fun _ => rfl) rfl
  | dispatch e => exact .keep rfl rfl (fun _ => rfl) rfl

theorem recorded?_step_iff :
    (s.step e).recorded? call = some elapsed ↔
      s.recorded? call = some elapsed ∨ s.entry? e = some (call, elapsed) := by
  cases s.records_step e with
  | keep hentry _ hrecorded => simp [hentry, hrecorded]
  | @record target time _ hentry _ hrecorded =>
    obtain ⟨-, -, hnone⟩ := entry?_eq_some_iff.mp hentry
    rw [hrecorded, hentry]
    by_cases heq : target = call
    . simp [heq] at hnone ⊢
      simp [hnone]
    . simp [heq]

theorem recorded?_record (hresponse : s.response? call ≠ none) (hnone : s.recorded? call = none)
    (elapsed : Duration) : (s.step (.record call elapsed)).recorded? call = some elapsed := by
  rw [recorded?_step_iff]
  exact .inr (entry?_eq_some_iff.mpr ⟨rfl, hresponse, hnone⟩)

theorem stats_record (hresponse : s.response? call ≠ none) (hnone : s.recorded? call = none)
    (elapsed : Duration) : (s.step (.record call elapsed)).stats = s.stats.record elapsed := by
  have hentry : s.entry? (.record call elapsed) = some (call, elapsed) :=
    entry?_eq_some_iff.mpr ⟨rfl, hresponse, hnone⟩
  cases s.records_step (.record call elapsed) with
  | keep hentry' =>
    rw [hentry] at hentry'
    contradiction
  | record _ hstats => exact hstats

theorem stats_step (h : s.entry? e = none) : (s.step e).stats = s.stats := by
  cases s.records_step e with
  | keep _ hstats => exact hstats
  | record hentry =>
    rw [h] at hentry
    contradiction

theorem card_recordedTimes (s : Server) :
    s.recordedTimes.card = s.calls.countP (·.recorded.isSome) := by
  exact List.length_filterMap_eq_countP

/-! Runs. -/

theorem run_nil (s : Server) : s.run [] = s := by
  rfl

theorem log_append (s : Server) (first rest : List Event) :
    s.log (first ++ rest) = s.log first ++ (s.run first).log rest := by
  induction first generalizing s with
  | nil => rfl
  | cons e first ih => simp [log, ih, run_cons]

theorem isPrefix_log (s : Server) (first rest : List Event) :
    s.log first <+: s.log (first ++ rest) := by
  rw [log_append]
  apply List.prefix_append

theorem recorded?_run_iff :
    (s.run events).recorded? call = some elapsed ↔
      s.recorded? call = some elapsed ∨ (call, elapsed) ∈ s.log events := by
  induction events generalizing s with
  | nil => simp [run_nil, log]
  | cons e events ih =>
    rw [run_cons, ih, recorded?_step_iff, or_assoc, log, List.mem_append, Option.mem_toList]

theorem recorded?_run (h : s.recorded? call ≠ none) (events : List Event) :
    (s.run events).recorded? call ≠ none := by
  obtain ⟨elapsed, helapsed⟩ := Option.ne_none_iff_exists'.mp h
  rw [recorded?_run_iff.mpr (.inl helapsed)]
  nofun

theorem recorded?_eq_none_of_mem_log (h : call ∈ (s.log events).map Prod.fst) :
    s.recorded? call = none := by
  induction events generalizing s with
  | nil => contradiction
  | cons e events ih =>
    rw [log, List.map_append, List.mem_append] at h
    rcases h with h | h
    . obtain ⟨⟨call, elapsed⟩, hentry, rfl⟩ := List.mem_map.mp h
      exact (entry?_eq_some_iff.mp (Option.mem_toList.mp hentry)).2.2
    . by_contra hsome
      exact recorded?_run hsome [e] (ih h)

theorem nodup_log (s : Server) (events : List Event) : ((s.log events).map Prod.fst).Nodup := by
  induction events generalizing s with
  | nil => exact List.nodup_nil
  | cons e events ih =>
    rw [log]
    cases hentry : s.entry? e with
    | none => exact ih (s.step e)
    | some entry =>
      obtain ⟨call, elapsed⟩ := entry
      refine List.nodup_cons.mpr ⟨?_, ih (s.step e)⟩
      intro hmem
      have hrecorded := recorded?_step_iff.mpr (.inr hentry)
      rw [recorded?_eq_none_of_mem_log hmem] at hrecorded
      contradiction

theorem exists_of_mem_log (h : (call, elapsed) ∈ s.log events) :
    ∃ before after, events = before ++ .record call elapsed :: after ∧
      (s.run before).response? call ≠ none ∧ (s.run before).recorded? call = none := by
  induction events generalizing s with
  | nil => contradiction
  | cons e events ih =>
    rw [log, List.mem_append, Option.mem_toList] at h
    rcases h with h | h
    . obtain ⟨rfl, hcall⟩ := entry?_eq_some_iff.mp h
      exact ⟨[], events, rfl, hcall⟩
    . obtain ⟨before, after, rfl, hcall⟩ := ih h
      exact ⟨e :: before, after, rfl, hcall⟩

theorem stats_run {times : Multiset Duration} (h : s.stats = .ofTimes times)
    (events : List Event) :
    (s.run events).stats = .ofTimes (times + ((s.log events).map Prod.snd : List Duration)) := by
  induction events generalizing s times with
  | nil => simpa [run_nil, log] using h
  | cons e events ih =>
    rw [run_cons, log]
    cases s.records_step e with
    | keep hentry hstats =>
      rw [hentry]
      exact ih (hstats.trans h)
    | record hentry hstats =>
      rw [h, Stats.record_ofTimes] at hstats
      rw [hentry, ih hstats]
      congr 1
      simp [← Multiset.cons_coe]

theorem recordedTimes_run (s : Server) (events : List Event) :
    (s.run events).recordedTimes
      = s.recordedTimes + ((s.log events).map Prod.snd : List Duration) := by
  induction events generalizing s with
  | nil => simp [run_nil, log]
  | cons e events ih =>
    rw [run_cons, log, ih]
    cases s.records_step e with
    | keep hentry _ _ htimes => simp [hentry, htimes]
    | record hentry _ _ htimes => simp [hentry, htimes, ← Multiset.cons_coe]

end Server

end Sweep
