import Sweep.Proofs.Conversation
import Sweep.Proofs.Origins
import Sweep.Proofs.Progress
import Sweep.Proofs.Recording
import Sweep.Proofs.Wholes

/-!
This module contains what questions about the statistics are answered. The answer counts the calls
that were recorded before it was read, so that lines that are handled one after another count the
lines before them.
-/

namespace Sweep

def Response.Counts (r : Response) (n : Nat) : Prop :=
  ∃ elapsed value, r = .ok elapsed value ∧ value = n.toUInt64.toFloat ∧
    (n < 2 ^ 53 → value.isFinite ∧ Number.toRat value = n)

theorem Response.counts_ok (elapsed : Duration) (n : Nat) :
    (Response.ok elapsed n.toUInt64.toFloat).Counts n := by
  exact ⟨elapsed, _, rfl, rfl, Number.toRat_toFloat⟩

namespace Server

variable {s s' : Server} {call ticket : Nat} {line : String} {elapsed : Duration}
  {e : Event} {events : List Event}

def sent (events : List Event) : List String :=
  events.filterMap fun e =>
    match e with
    | .arrive line => some line
    | _ => none

theorem sent_append (first rest : List Event) :
    sent (first ++ rest) = sent first ++ sent rest := by
  exact List.filterMap_append

theorem length_calls_step (s : Server) (e : Event) :
    (s.step e).calls.length = s.calls.length + (sent [e]).length := by
  cases e with
  | arrive line =>
    simp only [step, arrive]
    split <;> simp [sent]
  | readStats | respond => simp [step, readStats, respond, modifyCall, sent]
  | record =>
    simp only [step, record]
    split <;> simp [modifyCall, sent]
  | dispatch => rfl

theorem length_calls_run (s : Server) (events : List Event) :
    (s.run events).calls.length = s.calls.length + (sent events).length := by
  induction events generalizing s with
  | nil => rfl
  | cons e events ih =>
    show _ = s.calls.length + (sent ([e] ++ events)).length
    rw [run_cons, ih, length_calls_step, sent_append, List.length_append, Nat.add_assoc]

theorem exists_arrive_of_sent (h : sent events ≠ []) :
    ∃ before line after, events = before ++ .arrive line :: after := by
  obtain ⟨line, hline⟩ := List.exists_mem_of_ne_nil _ h
  obtain ⟨e, he, hsome⟩ := List.mem_filterMap.mp hline
  obtain ⟨before, after, rfl⟩ := List.append_of_mem he
  split at hsome
  . next line' => exact ⟨before, line', after, rfl⟩
  . contradiction

/-! Calls that are recorded have their responses. -/

theorem lt_of_response? (h : s.response? call ≠ none) : call < s.calls.length := by
  obtain ⟨r, hr⟩ := Option.ne_none_iff_exists'.mp h
  obtain ⟨c, hc, -⟩ := Option.bind_eq_some_iff.mp hr
  exact (List.getElem?_eq_some_iff.mp hc).1

theorem response?_of_mem_log (h : (call, elapsed) ∈ s.log events) :
    ∃ before after r, events = before ++ .record call elapsed :: after ∧
      (s.run before).response? call = some r ∧ (s.run events).response? call = some r := by
  obtain ⟨before, after, rfl, hresponse, -⟩ := exists_of_mem_log h
  obtain ⟨r, hr⟩ := Option.ne_none_iff_exists'.mp hresponse
  refine ⟨before, after, r, rfl, hr, ?_⟩
  rw [run_append]
  exact response?_run hr _

section Fresh

variable {config : Config} {parallelism : Nat}

theorem recorded?_ofConfig (config : Config) (parallelism call : Nat) :
    (ofConfig config parallelism).recorded? call = none := by
  rfl

theorem length_calls_run_ofConfig (config : Config) (parallelism : Nat) (events : List Event) :
    ((ofConfig config parallelism).run events).calls.length = (sent events).length := by
  rw [length_calls_run]
  exact Nat.zero_add _

theorem valid_run_ofConfig (config : Config) (parallelism : Nat) (events : List Event) :
    ((ofConfig config parallelism).run events).dispatch.Valid := by
  apply valid_run
  apply Dispatch.valid_make

theorem mem_log_iff :
    (call, elapsed) ∈ (ofConfig config parallelism).log events ↔
      ((ofConfig config parallelism).run events).recorded? call = some elapsed := by
  rw [recorded?_run_iff, recorded?_ofConfig]
  simp

theorem mem_keys_log_iff :
    call ∈ ((ofConfig config parallelism).log events).map Prod.fst ↔
      ((ofConfig config parallelism).run events).recorded? call ≠ none := by
  rw [Option.ne_none_iff_exists']
  simp [mem_log_iff]

theorem response?_of_recorded?
    (h : ((ofConfig config parallelism).run events).recorded? call ≠ none) :
    ((ofConfig config parallelism).run events).response? call ≠ none := by
  obtain ⟨elapsed, helapsed⟩ := Option.ne_none_iff_exists'.mp h
  obtain ⟨-, -, r, -, -, hr⟩ := response?_of_mem_log (mem_log_iff.mpr helapsed)
  rw [hr]
  nofun

theorem stats_run_ofConfig (config : Config) (parallelism : Nat) (events : List Event) :
    ((ofConfig config parallelism).run events).stats
      = .ofTimes (((ofConfig config parallelism).log events).map Prod.snd : List Duration) := by
  have hrun := stats_run (s := ofConfig config parallelism) Stats.ofTimes_zero.symm events
  rwa [zero_add] at hrun

theorem recordedTimes_run_ofConfig (config : Config) (parallelism : Nat) (events : List Event) :
    ((ofConfig config parallelism).run events).recordedTimes
      = (((ofConfig config parallelism).log events).map Prod.snd : List Duration) := by
  rw [recordedTimes_run]
  exact zero_add _

theorem length_log {n : Nat}
    (h : ∀ call, ((ofConfig config parallelism).run events).recorded? call ≠ none ↔ call < n) :
    ((ofConfig config parallelism).log events).length = n := by
  have hperm : (((ofConfig config parallelism).log events).map Prod.fst).Perm (List.range n) := by
    rw [List.perm_ext_iff_of_nodup (nodup_log _ _) List.nodup_range]
    intro call
    rw [mem_keys_log_iff, h, List.mem_range]
  simpa using hperm.length_eq

end Fresh

/-! The reading of the statistics. -/

theorem Follows.exists_readStats {c : Call} {kind : StatKind} {r : Response}
    (h : s.Follows call ticket line c) (hline : Request.parse line = .ok (.stat kind))
    (hnone : c.response = none) (hr : (s.run events).response? call = some r) :
    ∃ before elapsed after, events = before ++ .readStats call elapsed :: after ∧
      (s.run before).response? call = none ∧
      r = .ok elapsed (kind.value (s.run before).stats) := by
  induction events generalizing s c with
  | nil =>
    rw [run_nil, h.response?, hnone] at hr
    contradiction
  | cons e events ih =>
    rw [run_cons] at hr
    obtain ⟨c', hc'⟩ := h.step e
    obtain ⟨c₁, hc₁, hchanges⟩ := call_step h.call e
    obtain rfl : c₁ = c' := Option.some.inj (hc₁.symm.trans hc'.call)
    have hlater (hnone' : c₁.response = none) :
        ∃ before elapsed after, e :: events = before ++ .readStats call elapsed :: after ∧
          (s.run before).response? call = none ∧
          r = .ok elapsed (kind.value (s.run before).stats) := by
      obtain ⟨before, elapsed, after, rfl, hread⟩ := ih hc' hnone' hr
      exact ⟨e :: before, elapsed, after, rfl, hread⟩
    cases hchanges with
    | keep | record => exact hlater hnone
    | readStats _ elapsed hrequest =>
      rw [h.request, hline] at hrequest
      cases hrequest
      refine ⟨[], elapsed, events, rfl, ?_, ?_⟩
      . rw [run_nil, h.response?, hnone]
      . rw [response?_run hc'.response? events] at hr
        exact (Option.some.inj hr).symm
    | respond _ _ hanswer =>
      obtain ⟨t, ht, -⟩ := Option.bind_eq_some_iff.mp hanswer
      obtain ⟨-, computation, hcomputation⟩ := h.computes t ht
      rw [hline] at hcomputation
      cases hcomputation

theorem response?_arrive_stat {kind : StatKind}
    (hline : Request.parse line = .ok (.stat kind)) :
    (s.step (.arrive line)).response? s.calls.length = none := by
  simp only [step, arrive]
  rw [hline]
  simp [response?]

theorem response?_readStats {c : Call} {kind : StatKind} (hc : s.calls[call]? = some c)
    (hrequest : c.request = .ok (.stat kind)) (hnone : c.response = none) (elapsed : Duration) :
    (s.step (.readStats call elapsed)).response? call
      = some (.ok elapsed (kind.value s.stats)) := by
  simp [response?, step, readStats, modifyCall, hc, hrequest, hnone]

theorem exists_readStats {kind : StatKind} {r : Response} (h : s.dispatch.Valid)
    (hline : Request.parse line = .ok (.stat kind))
    (hr : (s.run (.arrive line :: events)).response? s.calls.length = some r) :
    ∃ mid elapsed after, events = mid ++ .readStats s.calls.length elapsed :: after ∧
      (s.run (.arrive line :: mid)).response? s.calls.length = none ∧
      r = .ok elapsed (kind.value (s.run (.arrive line :: mid)).stats) := by
  obtain ⟨c, hc⟩ := follows_arrive h line
  have hnone := response?_arrive_stat (s := s) hline
  rw [hc.response?] at hnone
  exact hc.exists_readStats hline hnone hr

/-! Lines that are handled one after another. -/

def OneByOne (s : Server) (events : List Event) : Prop :=
  ∀ before line after, events = before ++ .arrive line :: after →
    ∀ call < (s.run before).calls.length, (s.run before).recorded? call ≠ none

theorem OneByOne.recorded?_iff {config : Config} {parallelism : Nat} {before mid after : List Event}
    (h : (ofConfig config parallelism).OneByOne (before ++ .arrive line :: (mid ++ after)))
    (hnone : ((ofConfig config parallelism).run (before ++ .arrive line :: mid)).response?
      (sent before).length = none) (call : Nat) :
    ((ofConfig config parallelism).run (before ++ .arrive line :: mid)).recorded? call ≠ none ↔
      call < (sent before).length := by
  -- the next line would only arrive after this one was recorded
  have hmid : sent mid = [] := by
    by_contra hsent
    obtain ⟨first, line', rest, rfl⟩ := exists_arrive_of_sent hsent
    have hrecorded := h (before ++ .arrive line :: first) line' (rest ++ after) (by simp)
      (sent before).length (by simp [length_calls_run_ofConfig, sent])
    apply absurd hnone
    apply response?_of_recorded?
    have hsplit : before ++ .arrive line :: (first ++ .arrive line' :: rest)
        = before ++ .arrive line :: first ++ .arrive line' :: rest := by
      simp
    rw [hsplit, run_append]
    exact recorded?_run hrecorded _
  constructor
  . intro hrecorded
    have hresponse := response?_of_recorded? hrecorded
    have hlt := lt_of_response? hresponse
    rw [length_calls_run_ofConfig] at hlt
    simp only [sent, List.filterMap_append, List.filterMap_cons, List.length_append,
      List.length_cons] at hlt hmid hnone ⊢
    rw [hmid] at hlt
    rcases Nat.lt_succ_iff_lt_or_eq.mp hlt with hlt | rfl
    . exact hlt
    . exact absurd hnone hresponse
  . intro hlt
    rw [run_append]
    rw [← length_calls_run_ofConfig config parallelism] at hlt
    exact recorded?_run (h before line (mid ++ after) rfl call hlt) _

/-! Questions in a run from the beginning. -/

section Fresh

variable {config : Config} {parallelism : Nat} {before later : List Event} {r : Response}

theorem exists_past {kind : StatKind} (hline : Request.parse line = .ok (.stat kind))
    (hr : ((ofConfig config parallelism).run (before ++ .arrive line :: later)).response?
      (sent before).length = some r) :
    ∃ mid elapsed after, later = mid ++ .readStats (sent before).length elapsed :: after ∧
      ((ofConfig config parallelism).run (before ++ .arrive line :: mid)).response?
        (sent before).length = none ∧
      let past := (ofConfig config parallelism).log (before ++ .arrive line :: mid)
      (sent before).length ∉ past.map Prod.fst ∧
      r = .ok elapsed (kind.value (.ofTimes (past.map Prod.snd : List Duration))) := by
  have hlength := length_calls_run_ofConfig config parallelism before
  have hvalid := valid_run_ofConfig config parallelism before
  rw [run_append, ← hlength] at hr
  obtain ⟨mid, elapsed, after, hlater, hnone, hread⟩ := exists_readStats hvalid hline hr
  rw [← run_append] at hnone hread
  rw [hlength] at hlater hnone
  refine ⟨mid, elapsed, after, hlater, hnone, ?_, ?_⟩
  . rw [mem_keys_log_iff]
    intro hrecorded
    exact response?_of_recorded? hrecorded hnone
  . rw [← stats_run_ofConfig]
    exact hread

theorem OneByOne.counts
    (h : (ofConfig config parallelism).OneByOne (before ++ .arrive line :: later))
    (hline : Request.parse line = .ok (.stat .requests))
    (hr : ((ofConfig config parallelism).run (before ++ .arrive line :: later)).response?
      (sent before).length = some r) :
    r.Counts (sent before).length := by
  obtain ⟨mid, elapsed, after, rfl, hnone, -, rfl⟩ := exists_past hline hr
  have hpast := length_log (h.recorded?_iff hnone)
  simp only [StatKind.value, Stats.ofTimes, Multiset.coe_card, List.length_map, hpast]
  exact Response.counts_ok elapsed _

end Fresh

/-! Runs in which given lines arrive. -/

def Leads (s : Server) (lines : List String) (s' : Server) : Prop :=
  ∃ events, sent events = lines ∧ s' = s.run events

namespace Leads

variable {s₁ s₂ : Server} {lines lines' : List String}

theorem refl (s : Server) : s.Leads [] s := by
  exact ⟨[], rfl, rfl⟩

theorem trans (h : s.Leads lines s₁) (h' : s₁.Leads lines' s₂) : s.Leads (lines ++ lines') s₂ := by
  obtain ⟨first, rfl, rfl⟩ := h
  obtain ⟨rest, rfl, rfl⟩ := h'
  refine ⟨first ++ rest, ?_, ?_⟩
  . rw [sent_append]
  . rw [run_append]

theorem dispatch (s : Server) (events : List Dispatch.Event) :
    s.Leads [] (s.run (events.map .dispatch)) := by
  refine ⟨events.map .dispatch, ?_, rfl⟩
  induction events with
  | nil => rfl
  | cons e events ih => exact ih

theorem length_calls (h : s.Leads lines s') : s'.calls.length = s.calls.length + lines.length := by
  obtain ⟨events, rfl, rfl⟩ := h
  exact s.length_calls_run events

theorem valid (h : s.Leads lines s') (hvalid : s.dispatch.Valid) : s'.dispatch.Valid := by
  obtain ⟨events, -, rfl⟩ := h
  exact valid_run hvalid events

theorem recorded? (h : s.Leads lines s') (hrecorded : s.recorded? call ≠ none) :
    s'.recorded? call ≠ none := by
  obtain ⟨events, -, rfl⟩ := h
  exact recorded?_run hrecorded events

theorem response? (h : s.Leads lines s') {r : Response} (hr : s.response? call = some r) :
    s'.response? call = some r := by
  obtain ⟨events, -, rfl⟩ := h
  exact response?_run hr events

end Leads

theorem recorded?_record_ne_none (h : s.response? call ≠ none) (elapsed : Duration) :
    (s.step (.record call elapsed)).recorded? call ≠ none := by
  cases hrecorded : s.recorded? call with
  | none =>
    rw [recorded?_record h hrecorded]
    nofun
  | some time =>
    apply recorded?_run _ [.record call elapsed]
    rw [hrecorded]
    nofun

def Noted (s : Server) (call : Nat) : Prop :=
  TimedServer.waits s call ∨ s.recorded? call ≠ none

theorem waits_run (h : TimedServer.waits s call) (events : List Event) :
    TimedServer.waits (s.run events) call := by
  unfold TimedServer.waits at h ⊢
  obtain ⟨ticket, hticket⟩ := Option.isSome_iff_exists.mp h
  obtain ⟨c, hc, hticket⟩ := Option.bind_eq_some_iff.mp hticket
  obtain ⟨c', hc', hsame, -⟩ := call_run hc events
  rw [hc', Option.bind_some, hsame, hticket]
  rfl

theorem Noted.run (h : s.Noted call) (events : List Event) : (s.run events).Noted call := by
  rcases h with hwaits | hrecorded
  . exact .inl (waits_run hwaits events)
  . exact .inr (recorded?_run hrecorded events)

theorem noted_answered {c : Call} (hc : s.calls[call]? = some c) (hticket : c.ticket = none)
    (h : (s.step (.readStats call elapsed)).Accepted call) :
    (s.run [.readStats call elapsed, .record call elapsed]).Noted call := by
  right
  apply recorded?_record_ne_none
  obtain ⟨c', hc', hsame, -⟩ := call_run hc [.readStats call elapsed]
  obtain ⟨c₁, hc₁, hjob⟩ := h
  obtain rfl : c' = c₁ := Option.some.inj (hc'.symm.trans hc₁)
  unfold response?
  rw [hc₁, Option.bind_some]
  intro hnone
  obtain ⟨ticket, heq, -⟩ := hjob hnone
  rw [hsame, hticket] at heq
  contradiction

theorem recorded?_closing (h : s.Settled call) (hnoted : s.Noted call) {calls : List Nat}
    (hcall : call ∈ calls) (elapsed : Duration) :
    (s.run (TimedServer.closing s calls elapsed)).recorded? call ≠ none := by
  rcases hnoted with hwaits | hrecorded
  . obtain ⟨before, after, hsplit⟩ := exists_closing hcall hwaits elapsed
    obtain ⟨r, hr⟩ := (h.run before).respond elapsed
    rw [hsplit, run_append, run_cons, run_cons]
    apply recorded?_run
    apply recorded?_record_ne_none
    rw [hr]
    nofun
  . exact recorded?_run hrecorded _

theorem sent_closing (s : Server) (calls : List Nat) (elapsed : Duration) :
    sent (TimedServer.closing s calls elapsed) = [] := by
  unfold TimedServer.closing
  induction calls.filter (TimedServer.waits s) with
  | nil => rfl
  | cons call calls ih => exact ih

end Server

namespace TimedServer

open Connection
open Server (sent)

variable {t : TimedServer} {line : String}

theorem leads_arrive (t : TimedServer) (line : String) :
    t.server.Leads [line] (t.arrive line).server := by
  unfold arrive
  dsimp only
  split
  . next ticket _ =>
    exact ⟨[.arrive line, .dispatch (.enter ticket), .dispatch (.deliver ticket)], rfl, rfl⟩
  . exact ⟨[.arrive line, .readStats _ .zero, .record _ .zero], rfl, rfl⟩

theorem leads_arrivals (t : TimedServer) (lines : List String) :
    t.server.Leads lines (lines.foldl arrive t).server := by
  induction lines generalizing t with
  | nil => exact .refl t.server
  | cons line lines ih => exact (t.leads_arrive line).trans (ih (t.arrive line))

theorem leads_advance (done : TimedServer → Bool) (steps : Nat) (t : TimedServer) :
    t.server.Leads [] (t.advance done steps).server := by
  induction steps generalizing t with
  | zero => exact .refl t.server
  | succ steps ih =>
    unfold advance
    split
    . next t' hnext =>
      obtain ⟨events, hevents, -⟩ := run_of_next? hnext
      have hfirst : t.server.Leads [] t'.server := hevents ▸ .dispatch t.server events
      exact hfirst.trans (ih t')
    . exact .refl t.server

theorem noted_arrive (h : t.server.dispatch.Valid) (line : String) :
    (t.arrive line).server.Noted t.server.calls.length := by
  obtain ⟨c, hc, hcases⟩ := t.server.accepted_arrive h line
  have hcall : (t.server.step (.arrive line)).calls[t.server.calls.length]? = some c := hc
  unfold arrive
  dsimp only
  rw [hcall, Option.bind_some]
  cases hticket : c.ticket with
  | some ticket =>
    left
    apply Server.waits_run _ [.dispatch (.enter ticket), .dispatch (.deliver ticket)]
    unfold waits
    rw [hcall, Option.bind_some, hticket]
    rfl
  | none =>
    apply Server.noted_answered hcall hticket
    rcases hcases with ⟨kind, hrequest, -, hnone⟩ | haccepted
    . exact Server.accepted_readStats hcall hrequest hnone .zero
    . exact haccepted.run [.readStats _ .zero]

theorem noted_arrivals (h : t.server.dispatch.Valid) (lines : List String) {i : Nat}
    (hi : i < lines.length) :
    (lines.foldl arrive t).server.Accepted (t.server.calls.length + i) ∧
      (lines.foldl arrive t).server.Noted (t.server.calls.length + i) := by
  induction lines generalizing t i with
  | nil => contradiction
  | cons line lines ih =>
    cases i with
    | zero =>
      obtain ⟨events, -, hrun⟩ := (t.arrive line).leads_arrivals lines
      rw [List.foldl_cons, hrun]
      exact ⟨(run_of_arrive h line).2.run events, (noted_arrive h line).run events⟩
    | succ i =>
      have hline := t.leads_arrive line
      have hrest := ih (hline.valid h) (Nat.lt_of_succ_lt_succ hi)
      rwa [hline.length_calls, List.length_singleton, Nat.add_assoc, Nat.add_comm 1] at hrest

theorem recorded?_handleAll (h : t.server.dispatch.Valid) (lines : List String) {i : Nat}
    (hi : i < lines.length) :
    (t.handleAll lines).2.server.recorded? (t.server.calls.length + i) ≠ none := by
  have hcall : t.server.calls.length + i
      ∈ (List.range lines.length).map (t.server.calls.length + ·) := by
    exact List.mem_map_of_mem (List.mem_range.mpr hi)
  obtain ⟨haccepted, hnoted⟩ := noted_arrivals h lines hi
  have hvalid := (t.leads_arrivals lines).valid h
  have hsettled := settled_advanceUntil hvalid hcall haccepted
  obtain ⟨⟨events, hwait⟩, -⟩ := run_of_advanceUntil hvalid fun w =>
    ((List.range lines.length).map (t.server.calls.length + ·)).all w.isAnswered
  have hnoted := hnoted.run events
  rw [← hwait] at hnoted
  unfold handleAll
  dsimp only
  generalize (lines.foldl arrive t).advanceUntil _ = w at hsettled hnoted
  exact Server.recorded?_closing hsettled hnoted hcall _

theorem leads_handle_arrive (t : TimedServer) (line : String) :
    (t.arrive line).server.Leads [] (t.handle line).2.server := by
  rw [handle_eq]
  dsimp only
  generalize Duration.mk _ = elapsed
  exact ((t.arrive line).leads_advance _ _).trans ⟨_, Server.sent_closing _ _ elapsed, rfl⟩

theorem leads_handle (t : TimedServer) (line : String) :
    t.server.Leads [line] (t.handle line).2.server := by
  exact (t.leads_arrive line).trans (t.leads_handle_arrive line)

theorem leads_after (t : TimedServer) (lines : List String) :
    t.server.Leads lines (after handle t lines).server := by
  induction lines generalizing t with
  | nil => exact .refl t.server
  | cons line lines ih => exact (t.leads_handle line).trans (ih (t.handle line).2)

theorem recorded?_after (h : t.server.dispatch.Valid) (lines : List String) {i : Nat}
    (hi : i < lines.length) :
    (after handle t lines).server.recorded? (t.server.calls.length + i) ≠ none := by
  induction lines generalizing t i with
  | nil => contradiction
  | cons line lines ih =>
    cases i with
    | zero =>
      have hline : (t.handle line).2.server.recorded? (t.server.calls.length + 0) ≠ none :=
        recorded?_handleAll h [line] Nat.zero_lt_one
      exact ((t.handle line).2.leads_after lines).recorded? hline
    | succ i =>
      have hline := t.leads_handle line
      have hrest := ih (hline.valid h) (Nat.lt_of_succ_lt_succ hi)
      rwa [hline.length_calls, List.length_singleton, Nat.add_assoc, Nat.add_comm 1] at hrest

theorem total_after (config : Config) (parallelism : Nat) (lines : List String) :
    (after handle (.ofServer (.ofConfig config parallelism)) lines).server.stats.total
      = lines.length := by
  obtain ⟨events, hsent, hafter⟩ :=
    (ofServer (.ofConfig config parallelism)).leads_after lines
  have hlog : ((Server.ofConfig config parallelism).log events).length = lines.length := by
    apply Server.length_log
    intro call
    constructor
    . intro hrecorded
      have hlt := Server.lt_of_response? (Server.response?_of_recorded? hrecorded)
      rwa [Server.length_calls_run_ofConfig, hsent] at hlt
    . intro hlt
      have hrecorded := recorded?_after (t := ofServer (.ofConfig config parallelism))
        (Dispatch.valid_make _ _ _) lines hlt
      rw [hafter] at hrecorded
      rwa [← Nat.zero_add call]
  rw [hafter]
  show ((Server.ofConfig config parallelism).run events).stats.total = _
  rw [Server.stats_run_ofConfig, ← hlog]
  simp [Stats.ofTimes]

theorem handle_stat {kind : StatKind} (h : t.server.dispatch.Valid)
    (hline : Request.parse line = .ok (.stat kind)) :
    (t.handle line).1 = .ok .zero (kind.value t.server.stats) := by
  have hcall : (t.server.step (.arrive line)).calls[t.server.calls.length]? = some
      { request := .ok (.stat kind), ticket := none, response := none, recorded := none } := by
    simp only [Server.step, Server.arrive]
    rw [hline]
    simp
  have hstats : (t.server.step (.arrive line)).stats = t.server.stats := by
    simp only [Server.step, Server.arrive]
    rw [hline]
  have harrive : (t.arrive line).server = t.server.run [.arrive line,
      .readStats t.server.calls.length .zero, .record t.server.calls.length .zero] := by
    unfold arrive
    dsimp only
    rw [hcall]
    rfl
  have hread := Server.response?_readStats hcall rfl rfl .zero
  rw [hstats] at hread
  have harrived : (t.arrive line).server.response? t.server.calls.length
      = some (.ok .zero (kind.value t.server.stats)) := by
    rw [harrive]
    exact Server.response?_run hread [.record t.server.calls.length .zero]
  have hkept := (t.leads_handle_arrive line).response? harrived
  exact Option.some.inj ((run_of_handle h line).2.symm.trans hkept)

theorem counts_responses (config : Config) (parallelism : Nat) {lines : List String} {k : Nat}
    (hk : lines[k]? = some line) (hline : Request.parse line = .ok (.stat .requests)) :
    ∃ r, (responses handle (.ofServer (.ofConfig config parallelism)) lines)[k]? = some r ∧
      r.Counts k := by
  let t := after handle (.ofServer (.ofConfig config parallelism)) (lines.take k)
  have hresponse : (responses handle (.ofServer (.ofConfig config parallelism)) lines)[k]?
      = some (t.handle line).1 := by
    rw [getElem?_responses, hk]
    rfl
  have hvalid : t.server.dispatch.Valid := by
    apply valid_after
    apply Dispatch.valid_make
  have htotal : t.server.stats.total = k := by
    obtain ⟨hlt, -⟩ := List.getElem?_eq_some_iff.mp hk
    have hlines := total_after config parallelism (lines.take k)
    rwa [List.length_take_of_le (Nat.le_of_lt hlt)] at hlines
  refine ⟨_, hresponse, ?_⟩
  rw [handle_stat hvalid hline, StatKind.value, Stats.count, htotal]
  apply Response.counts_ok

end TimedServer

namespace Server

open Connection

structure RecordsOnce (config : Config) (parallelism : Nat) (events : List Event) (s : Server)
    (entries : List (Nat × Duration)) : Prop where
  -- the statistics are those of the calls that were recorded
  stats : s.stats = .ofTimes s.recordedTimes
  total : s.stats.total = s.calls.countP (·.recorded.isSome)
  stats_entries : s.stats = .ofTimes (entries.map Prod.snd : List Duration)
  total_entries : s.stats.total = entries.length
  order : ∀ (config' : Config) (parallelism' : Nat) (events' : List Event),
    (((ofConfig config' parallelism').log events').map Prod.snd).Perm (entries.map Prod.snd) →
    ((ofConfig config' parallelism').run events').stats = s.stats
  -- a call is recorded by one step, at which it has the response that it will always have
  calls : s.calls.length = (sent events).length
  once : (entries.map Prod.fst).Nodup
  mem_iff : ∀ (call : Nat) (elapsed : Duration),
    (call, elapsed) ∈ entries ↔ s.recorded? call = some elapsed
  responded : ∀ (call : Nat) (elapsed : Duration), (call, elapsed) ∈ entries →
    ∃ (before after : List Event) (r : Response),
      events = before ++ .record call elapsed :: after ∧
      ((ofConfig config parallelism).run before).response? call = some r ∧
      s.response? call = some r
  -- whatever that response is, the step records the call, and no other step does
  record : ∀ (call : Nat) (elapsed : Duration),
    s.response? call ≠ none → s.recorded? call = none →
    let s' := s.step (.record call elapsed)
    s'.recorded? call = some elapsed ∧ s'.stats = s.stats.record elapsed
  keep : ∀ e : Event, s.entry? e = none → (s.step e).stats = s.stats
  -- lines that are handled to the end are recorded, however many arrive at the same time
  handled : ∀ (now : Duration) (submittedAt : List Duration) (grantedAt : List (Nat × Duration))
    (lines : List String),
    let t : TimedServer := { server := s, now, submittedAt, grantedAt }
    ∀ i < lines.length,
      (t.handleAll lines).2.server.recorded? ((sent events).length + i) ≠ none
  -- a question about the statistics is answered from the records before the reading
  answered : ∀ (before later : List Event) (line : String) (kind : StatKind) (r : Response),
    events = before ++ .arrive line :: later → Request.parse line = .ok (.stat kind) →
    let call := (sent before).length
    s.response? call = some r →
    ∃ (mid after : List Event) (elapsed : Duration),
      later = mid ++ .readStats call elapsed :: after ∧
      let init := ofConfig config parallelism
      let past := init.log (before ++ .arrive line :: mid)
      past <+: entries ∧
      (init.run (before ++ .arrive line :: mid)).response? call = none ∧
      call ∉ past.map Prod.fst ∧
      r = .ok elapsed (kind.value (.ofTimes (past.map Prod.snd : List Duration))) ∧
      (kind = .requests → r.Counts past.length)
  -- of lines that are handled one after another it counts the ones before
  counts : (ofConfig config parallelism).OneByOne events →
    ∀ (before later : List Event) (line : String) (r : Response),
      events = before ++ .arrive line :: later →
      Request.parse line = .ok (.stat .requests) →
      s.response? (sent before).length = some r → r.Counts (sent before).length
  counts_handled : ∀ (lines : List String) (k : Nat) (line : String), lines[k]? = some line →
    Request.parse line = .ok (.stat .requests) →
    ∃ r, (responses TimedServer.handle (.ofServer (ofConfig config parallelism)) lines)[k]?
      = some r ∧ r.Counts k

/--
Every call is counted once. Its record step follows the step that fixes its response, the statistics
are those of the recorded times in any order, and a question about them does not count itself.
-/
theorem run_records_once (config : Config) (parallelism : Nat) (events : List Event) :
    RecordsOnce config parallelism events ((ofConfig config parallelism).run events)
      ((ofConfig config parallelism).log events) := by
  let init := ofConfig config parallelism
  let s := init.run events
  let entries := init.log events
  have hlength : s.calls.length = (sent events).length := by
    apply length_calls_run_ofConfig
  have hstats : s.stats = .ofTimes (entries.map Prod.snd : List Duration) := by
    apply stats_run_ofConfig
  have htimes : s.recordedTimes = (entries.map Prod.snd : List Duration) := by
    apply recordedTimes_run_ofConfig
  constructor
  . rw [htimes]
    exact hstats
  . rw [← card_recordedTimes, htimes, hstats]
    rfl
  . exact hstats
  . rw [hstats]
    simp [Stats.ofTimes, entries, init]
  . intro config' parallelism' events' hperm
    rw [stats_run_ofConfig, hstats, Multiset.coe_eq_coe.mpr hperm]
  . exact hlength
  . apply nodup_log
  . intro call elapsed
    exact mem_log_iff
  . intro call elapsed hmem
    exact response?_of_mem_log hmem
  . intro call elapsed hresponse hnone
    exact ⟨recorded?_record hresponse hnone elapsed, stats_record hresponse hnone elapsed⟩
  . intro e hentry
    exact stats_step hentry
  . intro now submittedAt grantedAt lines t i hi
    rw [← hlength]
    have hvalid : t.server.dispatch.Valid := by
      apply valid_run_ofConfig
    exact TimedServer.recorded?_handleAll hvalid lines hi
  . intro before later line kind r hevents hline call hr
    subst hevents
    obtain ⟨mid, elapsed, after, rfl, hnone, hown, hread⟩ := exists_past hline hr
    refine ⟨mid, after, elapsed, rfl, ?_, hnone, hown, hread, ?_⟩
    . have hpast := init.isPrefix_log (before ++ .arrive line :: mid)
        (.readStats (sent before).length elapsed :: after)
      rwa [List.append_assoc] at hpast
    . rintro rfl
      rw [hread]
      simp only [StatKind.value, Stats.count, Stats.ofTimes, Multiset.coe_card, List.length_map]
      apply Response.counts_ok
  . intro hone before later line r hevents hline hr
    subst hevents
    exact hone.counts hline hr
  . intro lines k line hk hline
    exact TimedServer.counts_responses config parallelism hk hline

end Server

end Sweep
