import Sweep.Proofs.Dispatching
import Sweep.Server.Basic

/-!
This module contains what a step of a server does to a call and to the dispatch of computations.
Calls only gain things: a response, once it is there, stays.
-/

namespace Sweep

namespace Server

variable {s : Server} {call : Nat}

inductive Changes (s : Server) (call : Nat) : Event → Call → Call → Prop
  | keep (e : Event) (c : Call) : Changes s call e c c
  | readStats (c : Call) (elapsed : Duration) {kind : StatKind}
    (hrequest : c.request = .ok (.stat kind)) (hresponse : c.response = none) :
    Changes s call (.readStats call elapsed) c
      { c with response := some (.ok elapsed (kind.value s.stats)) }
  | respond (c : Call) (elapsed : Duration) {outcome : Outcome}
    (hanswer : c.ticket.bind s.dispatch.answer? = some outcome) (hresponse : c.response = none) :
    Changes s call (.respond call elapsed) c { c with response := some (.ofResult elapsed outcome) }
  | record (c : Call) (elapsed : Duration) :
    Changes s call (.record call elapsed) c { c with recorded := some elapsed }

theorem changes_modify {e : Event} {c : Call} {target : Nat} {f : Call → Call}
    (h : s.calls[call]? = some c) (hf : target = call → s.Changes call e c (f c)) :
    ∃ c', (s.calls.modify target f)[call]? = some c' ∧ s.Changes call e c c' := by
  exact Dispatch.exists_modify h (.keep e c) hf

theorem call_step {c : Call} (h : s.calls[call]? = some c) (e : Event) :
    ∃ c', (s.step e).calls[call]? = some c' ∧ s.Changes call e c c' := by
  have hkeep : ∃ c', s.calls[call]? = some c' ∧ s.Changes call e c c' := ⟨c, h, .keep e c⟩
  cases e with
  | arrive line =>
    have happend : ∀ new : Call, (s.calls ++ [new])[call]? = some c := by
      intro new
      rw [List.getElem?_append_left, h]
      exact (List.getElem?_eq_some_iff.mp h).1
    refine ⟨c, ?_, .keep _ c⟩
    simp only [step, arrive]
    split <;> apply happend
  | readStats target elapsed =>
    apply changes_modify h
    rintro rfl
    split
    . next kind hrequest hresponse => exact .readStats c elapsed hrequest hresponse
    . apply Changes.keep
  | respond target elapsed =>
    apply changes_modify h
    rintro rfl
    split
    . next outcome hanswer hresponse => exact .respond c elapsed hanswer hresponse
    . apply Changes.keep
  | record target elapsed =>
    simp only [step, record]
    split
    . apply changes_modify h
      rintro rfl
      apply Changes.record
    . exact hkeep
  | dispatch e => exact hkeep

theorem response?_respond {c : Call} {ticket : Nat} {outcome : Outcome}
    (hc : s.calls[call]? = some c) (hticket : c.ticket = some ticket)
    (hanswer : s.dispatch.answer? ticket = some outcome) (hnone : c.response = none)
    (elapsed : Duration) :
    (s.step (.respond call elapsed)).response? call = some (.ofResult elapsed outcome) := by
  simp [response?, step, respond, modifyCall, hc, hticket, hanswer, hnone]

inductive Drives (s : Server) : Event → Dispatch.Event → Prop
  | submit (line : String) (work : Work) : Drives s (.arrive line) (.submit work)
  | dispatch (e : Dispatch.Event) : Drives s (.dispatch e) e

theorem dispatch_step (s : Server) (e : Event) :
    ((∀ e', e ≠ .dispatch e') ∧ (s.step e).dispatch = s.dispatch) ∨
      ∃ e', s.Drives e e' ∧ (s.step e).dispatch = s.dispatch.step e' := by
  cases e with
  | arrive line =>
    simp only [step, arrive]
    split
    . left
      exact ⟨nofun, rfl⟩
    . left
      exact ⟨nofun, rfl⟩
    . next c _ =>
      right
      exact ⟨_, .submit line (s.work c), rfl⟩
  | readStats | respond =>
    left
    exact ⟨nofun, rfl⟩
  | record call elapsed =>
    left
    simp only [step, record]
    split <;> exact ⟨nofun, rfl⟩
  | dispatch e =>
    right
    exact ⟨e, .dispatch e, rfl⟩

theorem maxDomainLength_step (s : Server) (e : Event) :
    (s.step e).maxDomainLength = s.maxDomainLength := by
  cases e with
  | arrive line =>
    simp only [step, arrive]
    split <;> rfl
  | readStats | respond | dispatch => rfl
  | record call elapsed =>
    simp only [step, record]
    split <;> rfl

/-! Runs. -/

theorem run_cons (s : Server) (e : Event) (events : List Event) :
    s.run (e :: events) = (s.step e).run events := by
  rfl

theorem run_append (s : Server) (first rest : List Event) :
    s.run (first ++ rest) = (s.run first).run rest := by
  exact List.foldl_append

theorem dispatch_run {P : Dispatch → Prop} (hstep : ∀ d e, P d → P (d.step e)) (h : P s.dispatch)
    (events : List Event) : P (s.run events).dispatch := by
  induction events generalizing s with
  | nil => exact h
  | cons e events ih =>
    apply ih
    rcases s.dispatch_step e with ⟨-, heq⟩ | ⟨e', -, heq⟩
    . rwa [heq]
    . rw [heq]
      exact hstep s.dispatch e' h

theorem valid_run (h : s.dispatch.Valid) (events : List Event) :
    (s.run events).dispatch.Valid := by
  exact dispatch_run (fun _ e hd => hd.step e) h events

theorem dispatch_run_map (s : Server) (events : List Dispatch.Event) :
    (s.run (events.map .dispatch)).dispatch = s.dispatch.run events := by
  induction events generalizing s with
  | nil => rfl
  | cons e events ih => exact ih (s.step (.dispatch e))

theorem call_run {c : Call} (h : s.calls[call]? = some c) (events : List Event) :
    ∃ c', (s.run events).calls[call]? = some c' ∧ c'.ticket = c.ticket ∧
      ∀ r, c.response = some r → c'.response = some r := by
  induction events generalizing s c with
  | nil => exact ⟨c, h, rfl, fun _ hr => hr⟩
  | cons e events ih =>
    obtain ⟨c₁, hc₁, hchanges⟩ := call_step h e
    obtain ⟨c', hc', hticket, hresponse⟩ := ih hc₁
    rw [run_cons]
    cases hchanges with
    | keep | record => exact ⟨c', hc', hticket, hresponse⟩
    | readStats _ _ _ hnone | respond _ _ _ hnone =>
      refine ⟨c', hc', hticket, ?_⟩
      intro r hr
      rw [hnone] at hr
      contradiction

theorem response?_run {r : Response} (h : s.response? call = some r) (events : List Event) :
    (s.run events).response? call = some r := by
  obtain ⟨c, hc, hresponse⟩ := Option.bind_eq_some_iff.mp h
  obtain ⟨c', hc', -, hkept⟩ := call_run hc events
  unfold response?
  rw [hc']
  exact hkept r hresponse

theorem length_jobs_run (s : Server) (events : List Event) :
    s.dispatch.jobs.length ≤ (s.run events).dispatch.jobs.length := by
  apply dispatch_run (P := fun d => s.dispatch.jobs.length ≤ d.jobs.length) _ (Nat.le_refl _)
  intro d e hle
  rcases d.length_jobs_step e with ⟨work, rfl⟩ | hlength
  . simp only [Dispatch.step, List.length_append]
    omega
  . omega

end Server

end Sweep
