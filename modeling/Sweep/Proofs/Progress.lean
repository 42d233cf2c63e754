import Mathlib.Data.List.Perm.Subperm
import Sweep.Proofs.Calls
import Sweep.Proofs.Deadlines
import Sweep.Server.Clock

/-!
This module contains the progress of a server by its clock. Whatever happens next brings the jobs
closer to their ends, so that the steps that are allowed for suffice and every line has a response.
-/

namespace Sweep

def Pool.remaining (p : Pool α) : Nat :=
  2 * (p.spawned.length + p.queue.length) + p.running.length

theorem Pool.Moves.remaining_le {p p' : Pool α} {e : Pool.Event α} (h : p.Moves e p')
    (hsubmit : e ≠ .submit) : p'.remaining ≤ p.remaining := by
  unfold Pool.remaining
  cases h with
  | submit => contradiction
  | refuse hspawned | enter hspawned =>
    have := List.length_erase_of_mem hspawned
    have := List.length_pos_of_mem hspawned
    simp only [List.length_append, List.length_singleton]
    omega
  | start hqueue =>
    simp only [hqueue, List.length_cons, List.length_append, List.length_nil]
    omega
  | finish hrunning =>
    have := List.length_erase_of_mem hrunning
    dsimp only
    omega
  | close =>
    simp only [List.length_nil]
    omega
  | detach | keep => exact Nat.le_refl _

namespace Dispatch

variable {d : Dispatch} {ticket : Nat}

def unanswered (d : Dispatch) : List Nat :=
  (List.range d.jobs.length).filter fun ticket => (d.answer? ticket).isNone

def remaining (d : Dispatch) : Nat :=
  d.pool.remaining + d.unanswered.length

theorem mem_unanswered_iff :
    ticket ∈ d.unanswered ↔ ticket < d.jobs.length ∧ d.answer? ticket = none := by
  simp [unanswered]

theorem nodup_unanswered (d : Dispatch) : d.unanswered.Nodup := by
  exact List.nodup_range.filter _

theorem unanswered_step_subset {e : Event} (h : ∀ work, e ≠ .submit work) :
    (d.step e).unanswered ⊆ d.unanswered := by
  intro ticket hticket
  rw [mem_unanswered_iff] at hticket ⊢
  rcases d.length_jobs_step e with ⟨work, rfl⟩ | hlength
  . exact absurd rfl (h work)
  . rw [hlength] at hticket
    refine ⟨hticket.1, ?_⟩
    cases hanswer : d.answer? ticket with
    | none => rfl
    | some outcome =>
      have := answer?_step hanswer e
      rw [this] at hticket
      exact absurd hticket.2 nofun

theorem pool_remaining_step_le {e : Event} (h : ∀ work, e ≠ .submit work) :
    (d.step e).pool.remaining ≤ d.pool.remaining := by
  rcases d.pool_step e with hpool | ⟨e', hdrives, hpool⟩
  . exact Nat.le_of_eq (by rw [hpool])
  . rw [hpool]
    apply (d.pool.moves_step e').remaining_le
    rintro rfl
    cases hdrives with
    | submit work => exact absurd rfl (h work)

theorem remaining_step_le {e : Event} (h : ∀ work, e ≠ .submit work) :
    (d.step e).remaining ≤ d.remaining := by
  have hpool := pool_remaining_step_le (d := d) h
  have hunanswered := ((d.step e).nodup_unanswered.subperm (unanswered_step_subset h)).length_le
  unfold remaining
  omega

theorem remaining_grant_lt (h : d.pool.canStart) : (d.step .grant).remaining < d.remaining := by
  have hunanswered : (d.step .grant).unanswered = d.unanswered := by
    rfl
  have hpool : (d.step .grant).pool = d.pool.start := by
    rfl
  unfold Pool.canStart at h
  unfold remaining Pool.remaining
  rw [hunanswered, hpool]
  unfold Pool.start
  split
  . next hqueue => simp [hqueue] at h
  . next head queue hqueue =>
    rw [if_pos (by simpa [hqueue] using h), hqueue]
    simp only [List.length_append, List.length_cons, List.length_nil]
    omega

theorem remaining_queueDeadline_lt (h : ticket ∈ d.unanswered) :
    (d.step (.queueDeadline ticket)).remaining < d.remaining := by
  have hpool := pool_remaining_step_le (d := d) (e := .queueDeadline ticket) nofun
  have hsubset := unanswered_step_subset (d := d) (e := .queueDeadline ticket) nofun
  have hanswered : ticket ∉ (d.step (.queueDeadline ticket)).unanswered := by
    obtain ⟨hticket, hanswer⟩ := mem_unanswered_iff.mp h
    rw [mem_unanswered_iff]
    rintro ⟨-, hnone⟩
    cases houtcome : d.outcome? ticket with
    | none =>
      rw [answer?_queueDeadline hticket hanswer houtcome] at hnone
      contradiction
    | some outcome =>
      rw [queueDeadline_of_outcome hanswer houtcome,
        answer?_deliver hticket hanswer houtcome] at hnone
      contradiction
  -- the client that is told leaves the list, and no other one enters it
  have herase : (d.step (.queueDeadline ticket)).unanswered ⊆ d.unanswered.erase ticket := by
    intro other hother
    rw [List.mem_erase_of_ne]
    . exact hsubset hother
    . rintro rfl
      contradiction
  have hlength := ((d.step _).nodup_unanswered.subperm herase).length_le
  rw [List.length_erase_of_mem h] at hlength
  have hpos := List.length_pos_of_mem h
  unfold remaining
  omega

theorem remaining_computationDeadline_lt (h : ticket ∈ d.pool.running) :
    (d.step (.computationDeadline ticket)).remaining < d.remaining := by
  have hunanswered := ((d.step (.computationDeadline ticket)).nodup_unanswered.subperm
    (unanswered_step_subset nofun)).length_le
  obtain ⟨result, hpool⟩ : ∃ result,
      (d.step (.computationDeadline ticket)).pool = d.pool.finish ticket result := by
    simp only [step, computationDeadline]
    rw [if_pos h]
    split <;> exact ⟨_, rfl⟩
  have herase := List.length_erase_of_mem h
  have hpos := List.length_pos_of_mem h
  unfold remaining Pool.remaining
  rw [hpool]
  unfold Pool.finish
  rw [if_pos h]
  dsimp only
  omega

theorem remaining_run_le {events : List Event} (h : ∀ e ∈ events, ∀ work, e ≠ .submit work) :
    (d.run events).remaining ≤ d.remaining := by
  induction events generalizing d with
  | nil => exact Nat.le_refl _
  | cons e events ih =>
    have hstep := remaining_step_le (d := d) (h e List.mem_cons_self)
    have hrun := ih (d := d.step e) fun e' he' => h e' (List.mem_cons_of_mem e he')
    exact Nat.le_trans hrun hstep

theorem Valid.remaining_le (h : d.Valid) : d.remaining ≤ 3 * d.jobs.length := by
  have htickets := h.pool.tickets.length_eq
  have hunanswered := List.length_filter_le (fun ticket => (d.answer? ticket).isNone)
    (List.range d.jobs.length)
  unfold Pool.tickets at htickets
  simp only [List.length_append, List.length_range, ← h.length_jobs] at htickets hunanswered
  unfold remaining Pool.remaining unanswered
  omega

end Dispatch

namespace Server

variable {s : Server} {call : Nat}

def Accepted (s : Server) (call : Nat) : Prop :=
  ∃ c, s.calls[call]? = some c ∧
    (c.response = none → ∃ ticket, c.ticket = some ticket ∧ ticket < s.dispatch.jobs.length)

theorem response_eq_none {c c' : Call} (hkept : ∀ r, c.response = some r → c'.response = some r)
    (hnone : c'.response = none) : c.response = none := by
  cases hr : c.response with
  | none => rfl
  | some r =>
    rw [hkept r hr] at hnone
    contradiction

theorem Accepted.run (h : s.Accepted call) (events : List Event) :
    (s.run events).Accepted call := by
  obtain ⟨c, hc, hjob⟩ := h
  obtain ⟨c', hc', hticket, hresponse⟩ := call_run hc events
  refine ⟨c', hc', ?_⟩
  intro hnone
  rw [hticket]
  obtain ⟨ticket, heq, hlt⟩ := hjob (response_eq_none hresponse hnone)
  exact ⟨ticket, heq, Nat.lt_of_lt_of_le hlt (s.length_jobs_run events)⟩

theorem accepted_readStats {c : Call} {kind : StatKind} (h : s.calls[call]? = some c)
    (hrequest : c.request = .ok (.stat kind)) (hnone : c.response = none) (elapsed : Duration) :
    (s.step (.readStats call elapsed)).Accepted call := by
  have hcall : (s.step (.readStats call elapsed)).calls[call]?
      = some { c with response := some (.ok elapsed (kind.value s.stats)) } := by
    simp [step, readStats, modifyCall, h, hrequest, hnone]
  refine ⟨_, hcall, ?_⟩
  intro hresponse
  contradiction

theorem accepted_arrive (h : s.dispatch.Valid) (line : String) :
    ∃ c, (s.arrive line).calls[s.calls.length]? = some c ∧
      ((∃ kind, c.request = .ok (.stat kind) ∧ c.ticket = none ∧ c.response = none) ∨
        (s.arrive line).Accepted s.calls.length) := by
  unfold arrive
  dsimp only
  split
  . exact ⟨_, List.getElem?_concat_length, .inr ⟨_, List.getElem?_concat_length, nofun⟩⟩
  . next kind hkind => exact ⟨_, List.getElem?_concat_length, .inl ⟨kind, hkind, rfl, rfl⟩⟩
  . refine ⟨_, List.getElem?_concat_length, .inr ⟨_, List.getElem?_concat_length, ?_⟩⟩
    intro _
    refine ⟨s.dispatch.pool.submitted, rfl, ?_⟩
    simp [Dispatch.step, h.length_jobs]

def Settled (s : Server) (call : Nat) : Prop :=
  ∃ c, s.calls[call]? = some c ∧
    (c.response = none → ∃ ticket outcome, c.ticket = some ticket ∧
      s.dispatch.answer? ticket = some outcome)

theorem Settled.run (h : s.Settled call) (events : List Event) : (s.run events).Settled call := by
  obtain ⟨c, hc, hanswer⟩ := h
  obtain ⟨c', hc', hticket, hresponse⟩ := call_run hc events
  refine ⟨c', hc', ?_⟩
  intro hnone
  obtain ⟨ticket, outcome, heq, houtcome⟩ := hanswer (response_eq_none hresponse hnone)
  refine ⟨ticket, outcome, hticket.trans heq, ?_⟩
  exact dispatch_run (P := fun d => d.answer? ticket = some outcome)
    (fun d e hd => Dispatch.answer?_step hd e) houtcome events

theorem Settled.respond (h : s.Settled call) (elapsed : Duration) :
    ∃ r, (s.step (.respond call elapsed)).response? call = some r := by
  obtain ⟨c, hc, hanswer⟩ := h
  cases hresponse : c.response with
  | some r =>
    have hr : s.response? call = some r := by
      unfold response?
      rw [hc]
      exact hresponse
    exact ⟨r, response?_run hr [.respond call elapsed]⟩
  | none =>
    obtain ⟨ticket, outcome, hticket, houtcome⟩ := hanswer hresponse
    exact ⟨.ofResult elapsed outcome, response?_respond hc hticket houtcome hresponse elapsed⟩

theorem Settled.response?_of_not_waits (h : s.Settled call)
    (hwaits : ¬TimedServer.waits s call) : ∃ r, s.response? call = some r := by
  obtain ⟨c, hc, hanswer⟩ := h
  unfold TimedServer.waits at hwaits
  unfold response?
  rw [hc, Option.bind_some] at hwaits ⊢
  cases hresponse : c.response with
  | some r => exact ⟨r, rfl⟩
  | none =>
    obtain ⟨ticket, -, hticket, -⟩ := hanswer hresponse
    rw [hticket] at hwaits
    exact absurd rfl hwaits

theorem exists_closing {calls : List Nat} (hcall : call ∈ calls) (hwaits : TimedServer.waits s call)
    (elapsed : Duration) :
    ∃ before after, TimedServer.closing s calls elapsed
      = before ++ .respond call elapsed :: .record call elapsed :: after := by
  have hmem : call ∈ calls.filter (TimedServer.waits s) := List.mem_filter.mpr ⟨hcall, hwaits⟩
  obtain ⟨before, after, hsplit⟩ := List.append_of_mem hmem
  unfold TimedServer.closing
  rw [hsplit, List.flatMap_append, List.flatMap_cons]
  exact ⟨_, _, rfl⟩

theorem Settled.closing (h : s.Settled call) {calls : List Nat} (hcall : call ∈ calls)
    (elapsed : Duration) :
    ∃ r, (s.run (TimedServer.closing s calls elapsed)).response? call = some r := by
  by_cases hwaits : TimedServer.waits s call
  . obtain ⟨before, after, hsplit⟩ := exists_closing hcall hwaits elapsed
    obtain ⟨r, hr⟩ := (h.run before).respond elapsed
    rw [hsplit, run_append, run_cons]
    exact ⟨r, response?_run hr _⟩
  . obtain ⟨r, hr⟩ := h.response?_of_not_waits hwaits
    exact ⟨r, response?_run hr _⟩

end Server

namespace TimedServer

variable {t t' : TimedServer} {done : TimedServer → Bool}

theorem exists_earliest? (x : Duration × α) (times : List (Duration × α)) :
    ∃ y ∈ x :: times, earliest? (x :: times) = some y := by
  induction times generalizing x with
  | nil => exact ⟨x, List.mem_cons_self, rfl⟩
  | cons x' times ih =>
    have hcons : earliest? (x :: x' :: times)
        = earliest? ((if x'.1.nanos < x.1.nanos then x' else x) :: times) := by
      unfold earliest?
      simp only [List.foldl_cons]
      split <;> rfl
    obtain ⟨y, hy, heq⟩ := ih (if x'.1.nanos < x.1.nanos then x' else x)
    refine ⟨y, ?_, hcons.trans heq⟩
    rcases List.mem_cons.mp hy with rfl | hy
    . split <;> simp
    . simp [hy]

theorem mem_of_earliest? {times : List (Duration × α)} {x : Duration × α}
    (h : earliest? times = some x) : x ∈ times := by
  cases times with
  | nil => contradiction
  | cons x' times =>
    obtain ⟨y, hy, heq⟩ := exists_earliest? x' times
    rw [h] at heq
    obtain rfl := Option.some.inj heq
    exact hy

theorem eq_nil_of_earliest? {times : List (Duration × α)} (h : earliest? times = none) :
    times = [] := by
  cases times with
  | nil => rfl
  | cons x times =>
    obtain ⟨y, -, heq⟩ := exists_earliest? x times
    rw [h] at heq
    contradiction

theorem dispatch_grant (t : TimedServer) (ticket : Nat) :
    ∃ events, (∀ e ∈ events, ∀ work, e ≠ .submit work) ∧
      (t.grant ticket).server = t.server.run ((Dispatch.Event.grant :: events).map .dispatch) := by
  unfold grant
  dsimp only
  split
  . refine ⟨[.finish ticket, .conclude ticket, .deliver ticket], ?_, rfl⟩
    simp
  . exact ⟨[], nofun, rfl⟩

theorem dispatch_passDeadline (t : TimedServer) (time : Duration) (e : Dispatch.Event) :
    ∃ events, (∀ e ∈ events, ∀ work, e ≠ .submit work) ∧
      (t.passDeadline time e).server = t.server.run ((e :: events).map .dispatch) := by
  unfold passDeadline
  dsimp only
  split
  . next ticket =>
    refine ⟨[.deliver ticket], ?_, rfl⟩
    simp
  . exact ⟨[], nofun, rfl⟩

theorem remaining_lt_of_mem_deadlines {time : Duration} {e : Dispatch.Event}
    (h : (time, e) ∈ t.deadlines) :
    (t.server.dispatch.step e).remaining < t.server.dispatch.remaining := by
  unfold deadlines at h
  rcases List.mem_append.mp h with h | h
  . obtain ⟨ticket, hticket, heq⟩ := List.mem_map.mp h
    cases heq
    exact Dispatch.remaining_queueDeadline_lt hticket
  . obtain ⟨⟨ticket, at_⟩, hticket, heq⟩ := List.mem_map.mp h
    cases heq
    apply Dispatch.remaining_computationDeadline_lt
    simpa using (List.mem_filter.mp hticket).2

theorem remaining_lt_of_run {e : Dispatch.Event} {events : List Dispatch.Event}
    (hrun : t'.server = t.server.run ((e :: events).map .dispatch))
    (hevents : ∀ e ∈ events, ∀ work, e ≠ .submit work)
    (hstep : (t.server.dispatch.step e).remaining < t.server.dispatch.remaining) :
    t'.server.dispatch.remaining < t.server.dispatch.remaining := by
  rw [hrun, Server.dispatch_run_map]
  have hrest := Dispatch.remaining_run_le (d := t.server.dispatch.step e) hevents
  exact Nat.lt_of_le_of_lt hrest hstep

theorem run_of_next? (h : next? done t = some t') :
    ∃ events : List Dispatch.Event, t'.server = t.server.run (events.map .dispatch) ∧
      t'.server.dispatch.remaining < t.server.dispatch.remaining := by
  unfold next? at h
  dsimp only at h
  split at h
  . next hstart =>
    obtain ⟨ticket, -, rfl⟩ := Option.map_eq_some_iff.mp h
    obtain ⟨events, hevents, hrun⟩ := t.dispatch_grant ticket
    exact ⟨_, hrun, remaining_lt_of_run hrun hevents (Dispatch.remaining_grant_lt hstart)⟩
  . split at h
    . contradiction
    . obtain ⟨⟨time, e⟩, hearliest, rfl⟩ := Option.map_eq_some_iff.mp h
      have hlt := remaining_lt_of_mem_deadlines (mem_of_earliest? hearliest)
      obtain ⟨events, hevents, hrun⟩ := t.dispatch_passDeadline time e
      exact ⟨_, hrun, remaining_lt_of_run hrun hevents hlt⟩

theorem unanswered_of_next?_eq_none (h : next? done t = none) :
    done t ∨ t.server.dispatch.unanswered = [] := by
  unfold next? at h
  dsimp only at h
  split at h
  . next hstart =>
    unfold Pool.canStart at hstart
    rw [Option.map_eq_none_iff, List.head?_eq_none_iff] at h
    rw [h] at hstart
    contradiction
  . split at h
    . next hdone =>
      left
      exact hdone
    . right
      rw [Option.map_eq_none_iff] at h
      have hdeadlines := eq_nil_of_earliest? h
      unfold deadlines at hdeadlines
      exact List.map_eq_nil_iff.mp (List.append_eq_nil_iff.mp hdeadlines).1

theorem run_of_advance (done : TimedServer → Bool) (steps : Nat) (t : TimedServer)
    (h : t.server.dispatch.remaining ≤ steps) :
    (∃ events, (t.advance done steps).server = t.server.run events) ∧
      next? done (t.advance done steps) = none := by
  induction steps generalizing t with
  | zero =>
    refine ⟨⟨[], rfl⟩, ?_⟩
    cases hnext : next? done t with
    | none => exact hnext
    | some t' =>
      obtain ⟨-, -, hlt⟩ := run_of_next? hnext
      omega
  | succ steps ih =>
    unfold advance
    cases hnext : next? done t with
    | none => exact ⟨⟨[], rfl⟩, hnext⟩
    | some t' =>
      obtain ⟨first, heq, hlt⟩ := run_of_next? hnext
      obtain ⟨⟨events, hevents⟩, hend⟩ := ih t' (by omega)
      refine ⟨⟨first.map .dispatch ++ events, ?_⟩, hend⟩
      rw [Server.run_append, ← heq]
      exact hevents

theorem run_of_advanceUntil (h : t.server.dispatch.Valid) (done : TimedServer → Bool) :
    (∃ events, (t.advanceUntil done).server = t.server.run events) ∧
      (done (t.advanceUntil done) ∨ (t.advanceUntil done).server.dispatch.unanswered = []) := by
  obtain ⟨hrun, hnext⟩ := run_of_advance done _ t h.remaining_le
  exact ⟨hrun, unanswered_of_next?_eq_none hnext⟩

theorem settled_advanceUntil (h : t.server.dispatch.Valid) {calls : List Nat} {call : Nat}
    (hcall : call ∈ calls) (haccepted : t.server.Accepted call) :
    (t.advanceUntil fun w => calls.all w.isAnswered).server.Settled call := by
  obtain ⟨⟨events, hrun⟩, hend⟩ := run_of_advanceUntil h fun w => calls.all w.isAnswered
  have hwaited := haccepted.run events
  rw [← hrun] at hwaited
  generalize (t.advanceUntil fun w => calls.all w.isAnswered) = w at hend hwaited
  obtain ⟨c, hc, hjob⟩ := hwaited
  refine ⟨c, hc, ?_⟩
  intro hnone
  obtain ⟨ticket, hticket, hlt⟩ := hjob hnone
  cases hanswer : w.server.dispatch.answer? ticket with
  | some outcome => exact ⟨ticket, outcome, hticket, hanswer⟩
  | none =>
    -- the waiting ended because these calls were answered or because there was none left to answer
    rcases hend with hdone | hempty
    . have hanswered := List.all_eq_true.mp hdone call hcall
      simp [isAnswered, hc, hticket, hanswer] at hanswered
    . have hmem := Dispatch.mem_unanswered_iff.mpr ⟨hlt, hanswer⟩
      rw [hempty] at hmem
      contradiction

theorem run_of_arrive (h : t.server.dispatch.Valid) (line : String) :
    (∃ events, (t.arrive line).server = t.server.run (.arrive line :: events)) ∧
      (t.arrive line).server.Accepted t.server.calls.length := by
  obtain ⟨c, hc, hcases⟩ := t.server.accepted_arrive h line
  have hcall : (t.server.step (.arrive line)).calls[t.server.calls.length]? = some c := hc
  unfold arrive
  dsimp only
  rw [hcall, Option.bind_some]
  cases hticket : c.ticket with
  | some ticket =>
    refine ⟨⟨[.dispatch (.enter ticket), .dispatch (.deliver ticket)], rfl⟩, ?_⟩
    rcases hcases with ⟨kind, -, hnone, -⟩ | haccepted
    . rw [hticket] at hnone
      contradiction
    . exact haccepted.run [.dispatch (.enter ticket), .dispatch (.deliver ticket)]
  | none =>
    refine ⟨⟨_, rfl⟩, ?_⟩
    rcases hcases with ⟨kind, hrequest, -, hnone⟩ | haccepted
    . exact (Server.accepted_readStats hc hrequest hnone .zero).run [.record _ .zero]
    . exact haccepted.run _

theorem handle_eq (t : TimedServer) (line : String) :
    let call := t.server.calls.length
    let waited := (t.arrive line).advanceUntil fun w => [call].all w.isAnswered
    let elapsed : Duration := { nanos := waited.now.nanos - t.now.nanos }
    let s := waited.server.run (closing waited.server [call] elapsed)
    t.handle line
      =
    (([call].filterMap s.response?).headD (.err ""), { waited with server := s }) := by
  rfl

theorem run_of_handle (h : t.server.dispatch.Valid) (line : String) :
    (∃ events, (t.handle line).2.server = t.server.run (.arrive line :: events)) ∧
      (t.handle line).2.server.response? t.server.calls.length = some (t.handle line).1 := by
  obtain ⟨⟨first, harrive⟩, haccepted⟩ := run_of_arrive h line
  have hvalid : (t.arrive line).server.dispatch.Valid := by
    rw [harrive]
    exact Server.valid_run h _
  obtain ⟨⟨second, hwait⟩, -⟩ := run_of_advanceUntil hvalid
    fun w => [t.server.calls.length].all w.isAnswered
  have hsettled := settled_advanceUntil hvalid (List.mem_singleton_self _) haccepted
  rw [handle_eq]
  dsimp only
  generalize (t.arrive line).advanceUntil _ = w at hwait hsettled
  generalize Duration.mk _ = elapsed
  obtain ⟨r, hr⟩ := hsettled.closing (List.mem_singleton_self _) elapsed
  generalize closing w.server _ elapsed = events at hr
  constructor
  . refine ⟨first ++ (second ++ events), ?_⟩
    rw [hwait, harrive, ← Server.run_append, ← Server.run_append]
    rfl
  . rw [List.filterMap_cons, hr]
    rfl

end TimedServer

end Sweep
