import Sweep.Proofs.Cancellation
import Sweep.Proofs.Origins
import Sweep.Proofs.Progress

/-!
This module contains the privacy of cancellation. A worker finds its cancel flag set only after its
own deadline has passed, no response tells that a computation was cancelled, and a line that is
neither too slow nor refused is answered as if the server had nothing else to do.
-/

namespace Sweep

/-! Messages that cannot be taken for one another. -/

namespace Text

def Unlike (s t : String) : Prop :=
  ¬s.toList <+: t.toList ∧ ¬t.toList <+: s.toList

theorem Unlike.append {s t : String} (h : Unlike s t) (rest : String) : Unlike s (t ++ rest) := by
  unfold Unlike
  rw [String.toList_append]
  constructor
  . intro hprefix
    rcases List.prefix_or_prefix_of_prefix hprefix (List.prefix_append _ _) with hle | hle
    . exact h.1 hle
    . exact h.2 hle
  . intro hprefix
    exact h.2 ((List.prefix_append _ _).trans hprefix)

theorem unlike_literal {cs ds : List Char} (h : ¬cs <+: ds ∧ ¬ds <+: cs) :
    Unlike (String.ofList cs) (String.ofList ds) := by
  unfold Unlike
  rwa [String.toList_ofList, String.toList_ofList]

end Text

theorem ComputeError.unlike_cancelled {e : ComputeError} (h : e ≠ cancelled) :
    Text.Unlike "(Cancelled)" e.message := by
  cases e with
  | cancelled => contradiction
  | request | domain | aggregate | worker => exact (Text.unlike_literal (by decide)).append _
  | computationTimeout | queueTimeout =>
    exact ((Text.unlike_literal (by decide)).append _).append _
  | parse =>
    exact (((Text.unlike_literal (by decide)).append _).append _).append _

theorem Computation.outcome_never_ne_cancelled (c : Computation) (limit : Nat) :
    c.outcome limit .never ≠ .error .cancelled := by
  unfold outcome
  split
  . simp [Outcome.breakdown]
  . exact c.run_never_ne_cancelled limit

/-! The readings of a cancel flag. -/

namespace CancelFlag

def reading (flag : CancelFlag) (readings : Nat) : Bool :=
  (Nat.repeat next readings flag).isSet

theorem repeat_next_never (readings : Nat) : Nat.repeat next readings never = never := by
  induction readings with
  | zero => rfl
  | succ readings ih => rw [Nat.repeat, ih, next]

theorem repeat_next_after (n readings : Nat) :
    Nat.repeat next readings (after n) = after (n - readings) := by
  induction readings with
  | zero => rfl
  | succ readings ih => rw [Nat.repeat, ih, next, Nat.sub_sub]

theorem reading_never (readings : Nat) : never.reading readings = false := by
  unfold reading
  rw [repeat_next_never]
  rfl

theorem reading_after {n readings : Nat} (h : n ≤ readings) :
    (after n).reading readings = true := by
  unfold reading
  rw [repeat_next_after, Nat.sub_eq_zero_of_le h]
  rfl

end CancelFlag

namespace Dispatch

variable {d : Dispatch} {ticket : Nat} {work : Work} {j : Job}

def reading? (d : Dispatch) (ticket : Nat) : Option Bool :=
  d.jobs[ticket]?.map fun j => j.flag.reading j.readings

/--
The computation deadline of a job passes while its worker computes.
-/
def CutsOff (ticket : Nat) (d : Dispatch) (e : Event) : Prop :=
  e = .computationDeadline ticket ∧ ticket ∈ d.pool.running ∧ d.result? ticket = none

/--
The queue deadline of a job passes while its client waits for an outcome.
-/
def GivesUp (ticket : Nat) (d : Dispatch) (e : Event) : Prop :=
  e = .queueDeadline ticket ∧ d.answer? ticket = none ∧ d.outcome? ticket = none

namespace Tracks

theorem reading?_iff (h : d.Tracks ticket work j) :
    d.reading? ticket = some true ↔ d.cancelledAfter? ticket ≠ none := by
  unfold reading?
  rw [h.cancelledAfter?_eq, h.job, Option.map_some, Option.some_inj, Job.flag]
  cases hflag : j.cancelledAfter with
  | none => simp [CancelFlag.reading_never]
  | some n => simp [CancelFlag.reading_after (h.readings n hflag)]

theorem cancelledAfter?_step_iff (h : d.Tracks ticket work j) (hvalid : d.Valid) (e : Event) :
    (d.step e).cancelledAfter? ticket ≠ none ↔
      d.cancelledAfter? ticket ≠ none ∨ d.CutsOff ticket e := by
  constructor
  . intro hset
    by_cases hsame : (d.step e).cancelledAfter? ticket = d.cancelledAfter? ticket
    . rw [hsame] at hset
      exact .inl hset
    . exact .inr (cancelledAfter?_step hsame)
  . rintro (hold | ⟨rfl, hrunning, hresult⟩)
    . obtain ⟨j', hj', hchanges⟩ := job_step h.job e
      unfold cancelledAfter? at hold ⊢
      rw [h.job] at hold
      rw [hj']
      intro hnone
      exact hold (hchanges.cancelledAfter_eq_none hnone)
    . rw [h.result?_eq] at hresult
      unfold cancelledAfter?
      rw [(job_computationDeadline hvalid h.job hrunning hresult).1]
      simp

theorem outcome?_eq (h : d.Tracks ticket work j) (hvalid : d.Valid)
    (hstarted : ticket ∈ d.pool.started) (hflag : d.cancelledAfter? ticket = none)
    {outcome : Outcome} (houtcome : d.outcome? ticket = some outcome) :
    work .never = some outcome := by
  unfold outcome? at houtcome
  split at houtcome
  . contradiction
  . next result hresult =>
    obtain rfl := Option.some.inj houtcome
    rw [h.cancelledAfter?_eq] at hflag
    exact h.concluded hflag result hresult
  . next e hresult =>
    cases e
    rw [hvalid.pool.result?_eq_some_iff] at hresult
    exact absurd hstarted (hvalid.pool.not_mem_started_of_refused hresult)

/-! A worker that is left alone. -/

theorem result?_finish (h : d.Tracks ticket work j) (hstarted : ticket ∈ d.pool.started)
    (hflag : d.cancelledAfter? ticket = none) (hwork : work .never ≠ none) :
    (d.step (.finish ticket)).result? ticket ≠ none := by
  rw [h.cancelledAfter?_eq] at hflag
  simp only [Dispatch.step, result?, modifyJob]
  rw [if_pos hstarted, List.getElem?_modify_eq, h.job]
  show j.finish.result ≠ none
  unfold Job.finish
  cases hresult : j.result with
  | some result => simp
  | none =>
    rw [← h.worker] at hwork
    unfold Job.flag
    rw [hflag]
    exact hwork

end Tracks

theorem outcome?_conclude (h : d.Valid) (hstarted : ticket ∈ d.pool.started)
    (hresult : d.result? ticket ≠ none) : (d.step (.conclude ticket)).outcome? ticket ≠ none := by
  obtain ⟨outcome, houtcome⟩ := Option.ne_none_iff_exists'.mp hresult
  have hended : ∃ result, (d.step (.conclude ticket)).pool.result? ticket = some (.ok result) := by
    rcases h.pool.mem_started_iff.mp hstarted with hrunning | ⟨result, hmem⟩
    . refine ⟨outcome, ?_⟩
      unfold result? at houtcome
      simp only [step, conclude]
      rw [houtcome]
      exact Pool.result?_finish h.pool hrunning outcome
    . rw [← h.pool.result?_eq_some_iff] at hmem
      exact ⟨result, pool_result?_step hmem _⟩
  obtain ⟨result, hended⟩ := hended
  rw [outcome?_of_pool hended]
  simp

theorem answer?_deliver_ne_none (hticket : ticket < d.jobs.length)
    (houtcome : d.outcome? ticket ≠ none) : (d.step (.deliver ticket)).answer? ticket ≠ none := by
  obtain ⟨outcome, houtcome⟩ := Option.ne_none_iff_exists'.mp houtcome
  cases hanswer : d.answer? ticket with
  | none => simp [answer?_deliver hticket hanswer houtcome]
  | some answer => simp [answer?_step hanswer]

theorem outcome?_of_answer?_step {e : Event} (h : ¬d.GivesUp ticket e)
    (hanswers : ∀ outcome, d.answer? ticket = some outcome → d.outcome? ticket = some outcome)
    {outcome : Outcome} (hanswer : (d.step e).answer? ticket = some outcome) :
    (d.step e).outcome? ticket = some outcome := by
  obtain ⟨j', hj', hanswer⟩ := Option.bind_eq_some_iff.mp hanswer
  rcases job_of_step hj' with ⟨j, hj, hchanges⟩ | ⟨work, rfl⟩
  . have heq : d.answer? ticket = j.answer := by
      unfold answer?
      rw [hj]
      rfl
    rcases hchanges.answer_cases hanswer with hold | ⟨rfl, hnone, houtcome, -⟩ | houtcome
    . exact outcome?_step (hanswers outcome (heq.trans hold)) e
    . exact absurd ⟨rfl, heq.trans hnone, houtcome⟩ h
    . exact outcome?_step houtcome e
  . contradiction

theorem mem_started_step (h : ticket ∈ d.pool.started) (e : Event) :
    ticket ∈ (d.step e).pool.started := by
  rcases d.pool_step e with hpool | ⟨e', -, hpool⟩
  . rwa [hpool]
  . rw [hpool]
    exact (d.pool.moves_step e').mem_started h

end Dispatch

namespace Server

variable {s : Server} {call ticket : Nat} {line : String} {c : Call} {computation : Computation}

def Occurs (P : Dispatch → Dispatch.Event → Prop) (s : Server) (events : List Event) : Prop :=
  ∃ before e after, events = before ++ .dispatch e :: after ∧ P (s.run before).dispatch e

theorem occurs_cons {P : Dispatch → Dispatch.Event → Prop} {e : Event} {events : List Event} :
    Occurs P s (e :: events) ↔
      (∃ e', e = .dispatch e' ∧ P s.dispatch e') ∨ Occurs P (s.step e) events := by
  constructor
  . rintro ⟨before, e', after, heq, h⟩
    cases before with
    | nil =>
      cases heq
      exact .inl ⟨e', rfl, h⟩
    | cons e₁ before =>
      cases heq
      exact .inr ⟨before, e', after, rfl, h⟩
  . rintro (⟨e', rfl, h⟩ | ⟨before, e', after, rfl, h⟩)
    . exact ⟨[], e', events, rfl, h⟩
    . exact ⟨e :: before, e', after, rfl, h⟩

theorem mem_of_cutsOff {events : List Event} (h : s.Occurs (Dispatch.CutsOff ticket) events) :
    .dispatch (.computationDeadline ticket) ∈ events := by
  obtain ⟨before, _, after, rfl, rfl, -⟩ := h
  simp

theorem mem_of_givesUp {events : List Event} (h : s.Occurs (Dispatch.GivesUp ticket) events) :
    .dispatch (.queueDeadline ticket) ∈ events := by
  obtain ⟨before, _, after, rfl, rfl, -⟩ := h
  simp

theorem Drives.dispatch_iff {P : Dispatch → Dispatch.Event → Prop} {e : Event}
    {e' : Dispatch.Event} (h : s.Drives e e') (hsubmit : ∀ work, ¬P s.dispatch (.submit work)) :
    (∃ e'', e = .dispatch e'' ∧ P s.dispatch e'') ↔ P s.dispatch e' := by
  cases h with
  | submit line work =>
    constructor
    . rintro ⟨_, heq, -⟩
      contradiction
    . intro hwork
      exact absurd hwork (hsubmit work)
  | dispatch =>
    constructor
    . rintro ⟨_, heq, he⟩
      cases heq
      exact he
    . intro he
      exact ⟨e', rfl, he⟩

theorem Follows.cancelledAfter?_run_iff (h : s.Follows call ticket line c)
    (hline : Request.parse line = .ok (.computation computation)) (events : List Event) :
    (s.run events).dispatch.cancelledAfter? ticket ≠ none ↔
      s.dispatch.cancelledAfter? ticket ≠ none ∨ s.Occurs (Dispatch.CutsOff ticket) events := by
  induction events generalizing s c with
  | nil =>
    have hrun : s.run [] = s := rfl
    simp [Occurs, hrun]
  | cons e events ih =>
    obtain ⟨c', hc'⟩ := h.step e
    obtain ⟨-, j, hj⟩ := h.computation _ hline
    rw [run_cons, ih hc', occurs_cons, ← or_assoc]
    apply or_congr_left
    rcases s.dispatch_step e with ⟨hne, heq⟩ | ⟨e', hdrives, heq⟩
    . rw [heq]
      constructor
      . exact .inl
      . rintro (hold | ⟨e', he, -⟩)
        . exact hold
        . exact absurd he (hne e')
    . rw [heq, hj.cancelledAfter?_step_iff h.valid, hdrives.dispatch_iff]
      rintro work ⟨heq, -⟩
      contradiction

theorem outcome?_of_answer?_run {events : List Event}
    (hwaits : ¬s.Occurs (Dispatch.GivesUp ticket) events)
    (hanswers : ∀ outcome, s.dispatch.answer? ticket = some outcome →
      s.dispatch.outcome? ticket = some outcome) {outcome : Outcome}
    (hanswer : (s.run events).dispatch.answer? ticket = some outcome) :
    (s.run events).dispatch.outcome? ticket = some outcome := by
  induction events generalizing s with
  | nil => exact hanswers outcome hanswer
  | cons e events ih =>
    rw [occurs_cons, not_or] at hwaits
    apply ih hwaits.2 _ hanswer
    intro outcome hanswer
    rcases s.dispatch_step e with ⟨-, heq⟩ | ⟨e', hdrives, heq⟩
    . rw [heq] at hanswer ⊢
      exact hanswers outcome hanswer
    . rw [heq] at hanswer ⊢
      apply Dispatch.outcome?_of_answer?_step _ hanswers hanswer
      rw [← hdrives.dispatch_iff (P := Dispatch.GivesUp ticket)]
      . exact hwaits.1
      . rintro work ⟨heq, -⟩
        contradiction

theorem Follows.unlike_cancelled (h : s.Follows call ticket line c) {message : String}
    (hr : s.response? call = some (.err message)) : Text.Unlike "(Cancelled)" message := by
  rw [h.response?] at hr
  generalize hresponse : Response.err message = r at hr
  cases h.response r hr with
  | malformed =>
    cases hresponse
    exact ComputeError.unlike_cancelled nofun
  | stat => contradiction
  | @outcome c hline elapsed outcome hanswer =>
    obtain ⟨-, j, hj⟩ := h.computation _ hline
    cases outcome with
    | ok value => contradiction
    | error e =>
      cases hresponse
      apply ComputeError.unlike_cancelled
      rintro rfl
      cases hj.tells h.valid hanswer with
      | result hwork => exact c.outcome_never_ne_cancelled _ (Option.some.inj hwork)

/-! The response to a line that is left alone. -/

structure Undisturbed (s : Server) (call ticket : Nat) (line : String) (c : Call) : Prop
    extends s.Follows call ticket line c where
  started : ticket ∈ s.dispatch.pool.started
  flag : s.dispatch.cancelledAfter? ticket = none
  answers : ∀ outcome, s.dispatch.answer? ticket = some outcome →
    s.dispatch.outcome? ticket = some outcome

namespace Undisturbed

theorem response_eq (h : s.Undisturbed call ticket line c)
    (hline : Request.parse line = .ok (.computation computation)) {r : Response}
    (hr : s.response? call = some r) :
    ∃ elapsed, r = .ofResult elapsed (computation.outcome s.maxDomainLength .never) := by
  rw [h.response?] at hr
  cases h.response r hr with
  | malformed he =>
    rw [hline] at he
    contradiction
  | stat hkind =>
    rw [hline] at hkind
    cases hkind
  | outcome hc elapsed hanswer =>
    obtain ⟨-, j, hj⟩ := h.computation _ hline
    have hwork := hj.outcome?_eq h.valid h.started h.flag (h.answers _ hanswer)
    exact ⟨elapsed, by rw [Option.some.inj hwork]⟩

theorem run (h : s.Undisturbed call ticket line c)
    (hline : Request.parse line = .ok (.computation computation)) (events : List Event)
    (hcut : ¬s.Occurs (Dispatch.CutsOff ticket) events)
    (hwaits : ¬s.Occurs (Dispatch.GivesUp ticket) events) :
    ∃ c', (s.run events).Undisturbed call ticket line c' := by
  obtain ⟨c', hc'⟩ := h.toFollows.run events
  refine ⟨c', hc', ?_, ?_, ?_⟩
  . exact dispatch_run (P := fun d => ticket ∈ d.pool.started)
      (fun _ e hd => Dispatch.mem_started_step hd e) h.started events
  . by_contra hset
    rw [← ne_eq, h.toFollows.cancelledAfter?_run_iff hline] at hset
    rcases hset with hset | hset
    . exact hset h.flag
    . exact hcut hset
  . intro outcome hanswer
    exact outcome?_of_answer?_run hwaits h.answers hanswer

end Undisturbed

theorem dispatch_arrive (hline : Request.parse line = .ok (.computation computation)) :
    (s.step (.arrive line)).dispatch = s.dispatch.step (.submit (s.work computation)) := by
  simp only [step, arrive]
  rw [hline]

theorem job_arrive (h : s.dispatch.Valid)
    (hline : Request.parse line = .ok (.computation computation)) :
    (s.step (.arrive line)).dispatch.jobs[s.dispatch.pool.submitted]?
      = some (.ofWork (s.work computation)) := by
  rw [dispatch_arrive hline]
  exact (Dispatch.tracks_submit h _).job

theorem cancelledAfter?_arrive (h : s.dispatch.Valid)
    (hline : Request.parse line = .ok (.computation computation)) :
    (s.step (.arrive line)).dispatch.cancelledAfter? s.dispatch.pool.submitted = none := by
  unfold Dispatch.cancelledAfter?
  rw [job_arrive h hline]
  rfl

theorem answer?_arrive (h : s.dispatch.Valid)
    (hline : Request.parse line = .ok (.computation computation)) :
    (s.step (.arrive line)).dispatch.answer? s.dispatch.pool.submitted = none := by
  unfold Dispatch.answer?
  rw [job_arrive h hline]
  rfl

theorem undisturbed_run (h : s.dispatch.Valid)
    (hline : Request.parse line = .ok (.computation computation)) (later : List Event)
    (hstarted : s.dispatch.pool.submitted ∈ (s.run (.arrive line :: later)).dispatch.pool.started)
    (hcut : ¬(s.step (.arrive line)).Occurs (Dispatch.CutsOff s.dispatch.pool.submitted) later)
    (hwaits : ¬(s.step (.arrive line)).Occurs (Dispatch.GivesUp s.dispatch.pool.submitted) later) :
    ∃ c, (s.run (.arrive line :: later)).Undisturbed s.calls.length s.dispatch.pool.submitted line
      c := by
  obtain ⟨c₀, hc₀⟩ := follows_arrive h line
  obtain ⟨c, hc⟩ := hc₀.run later
  refine ⟨c, hc, hstarted, ?_, ?_⟩
  . by_contra hset
    rw [← ne_eq, run_cons, hc₀.cancelledAfter?_run_iff hline] at hset
    rcases hset with hset | hset
    . exact hset (cancelledAfter?_arrive h hline)
    . exact hcut hset
  . intro outcome hanswer
    apply outcome?_of_answer?_run hwaits _ hanswer
    intro outcome hanswer
    rw [answer?_arrive h hline] at hanswer
    contradiction

def finishing (call ticket : Nat) (elapsed : Duration) : List Event :=
  [.dispatch (.finish ticket), .dispatch (.conclude ticket), .dispatch (.deliver ticket),
    .respond call elapsed]

theorem Undisturbed.response?_finishing (h : s.Undisturbed call ticket line c)
    (hline : Request.parse line = .ok (.computation computation))
    (hnone : s.response? call = none) (elapsed : Duration) :
    (s.run (finishing call ticket elapsed)).response? call
      = some (.ofResult elapsed (computation.outcome s.maxDomainLength .never)) := by
  obtain ⟨-, j, hj⟩ := h.computation _ hline
  -- the worker returns, its result becomes that of the job and reaches the client
  have hresult := hj.result?_finish h.started h.flag nofun
  have hvalid₁ := h.valid.step (.finish ticket)
  have hstarted₁ := Dispatch.mem_started_step h.started (.finish ticket)
  have houtcome := Dispatch.outcome?_conclude hvalid₁ hstarted₁ hresult
  have hvalid₂ := hvalid₁.step (.conclude ticket)
  have hstarted₂ := Dispatch.mem_started_step hstarted₁ (.conclude ticket)
  have hticket := hvalid₂.pool.lt_submitted_of_mem_started hstarted₂
  rw [← hvalid₂.length_jobs] at hticket
  obtain ⟨outcome, hanswer⟩ :=
    Option.ne_none_iff_exists'.mp (Dispatch.answer?_deliver_ne_none hticket houtcome)
  -- the client was told what an undisturbed worker returns
  let ended := [.finish ticket, .conclude ticket, .deliver ticket].map Event.dispatch
  obtain ⟨c', hc'⟩ := h.run hline ended
    (fun hcut => by simpa [ended] using mem_of_cutsOff hcut)
    (fun hwaits => by simpa [ended] using mem_of_givesUp hwaits)
  obtain ⟨hcticket, j', hj'⟩ := hc'.computation _ hline
  have hwork := hj'.outcome?_eq hc'.valid hc'.started hc'.flag (hc'.answers outcome hanswer)
  have hcnone : c'.response = none := by
    rw [← hc'.response?]
    exact hnone
  obtain rfl : computation.outcome s.maxDomainLength .never = outcome := by
    rw [← s.maxDomainLength_run ended]
    exact Option.some.inj hwork
  exact response?_respond hc'.call hcticket hanswer hcnone elapsed

def alone (config : Config) (parallelism : Nat) (line : String) (elapsed : Duration) :
    Option Response :=
  -- the call and the ticket of its computation are the first ones
  ((ofConfig config parallelism).run
    (.arrive line :: .dispatch (.enter 0) :: .dispatch .grant ::
      finishing 0 0 elapsed)).response? 0

theorem alone_eq (config : Config) (parallelism : Nat)
    (hline : Request.parse line = .ok (.computation computation)) (elapsed : Duration) :
    alone config parallelism line elapsed
      = some (.ofResult elapsed (computation.outcome config.maxDomainLength .never)) := by
  let s := ofConfig config parallelism
  let granted : List Event := [.dispatch (.enter 0), .dispatch .grant]
  have hvalid : s.dispatch.Valid := by
    apply Dispatch.valid_make
  have hstarted : 0 ∈ (s.run (.arrive line :: granted)).dispatch.pool.started := by
    have hpermits : 0 < max 1 (config.workerCount parallelism) := by
      omega
    show 0 ∈ (((s.step (.arrive line)).dispatch.step (.enter 0)).step .grant).pool.started
    rw [dispatch_arrive hline]
    simp [s, ofConfig, Dispatch.step, Dispatch.make, Pool.make, Pool.submit, Pool.enter, Pool.start,
      hpermits]
  obtain ⟨c, hc⟩ := undisturbed_run hvalid hline granted hstarted
    (fun hcut => by simpa [granted] using mem_of_cutsOff hcut)
    (fun hwaits => by simpa [granted] using mem_of_givesUp hwaits)
  have hnone : (s.run (.arrive line :: granted)).response? 0 = none := by
    show (s.step (.arrive line)).response? 0 = none
    simp only [s, step, arrive, hline]
    rfl
  have hresponse := hc.response?_finishing hline hnone elapsed
  rw [maxDomainLength_run] at hresponse
  exact hresponse

/--
A worker finds its flag set only if its own computation deadline has passed while it ran, so that no
client is told of it, and a line that was granted a permit in time is answered as if it were alone.
-/
theorem run_private_cancellation (config : Config) (parallelism : Nat) (earlier : List Event)
    (line : String) (later : List Event) (now : Duration) (submittedAt : List Duration)
    (grantedAt : List (Nat × Duration)) :
    let s := (ofConfig config parallelism).run earlier
    let t : TimedServer := { server := s, now, submittedAt, grantedAt }
    let call := s.calls.length
    let ticket := s.dispatch.pool.submitted
    let arrived := s.step (.arrive line)
    let s' := arrived.run later
    -- what the worker reads off its flag
    (∀ c, Request.parse line = .ok (.computation c) →
      (s'.dispatch.reading? ticket = some true ↔
        arrived.Occurs (Dispatch.CutsOff ticket) later)) ∧
    -- what the client reads
    (∀ message, s'.response? call = some (.err message) → Text.Unlike "(Cancelled)" message) ∧
    (∀ message, (t.handle line).1 = .err message → Text.Unlike "(Cancelled)" message) ∧
    -- a computation that was granted a permit and is in time
    (∀ c, Request.parse line = .ok (.computation c) →
      ticket ∈ s'.dispatch.pool.started →
      ¬arrived.Occurs (Dispatch.CutsOff ticket) later →
      ¬arrived.Occurs (Dispatch.GivesUp ticket) later →
      (∀ r, s'.response? call = some r →
        ∃ elapsed, alone config parallelism line elapsed = some r) ∧
      (s'.response? call = none → ∀ elapsed,
        ∃ r, alone config parallelism line elapsed = some r ∧
          (s'.run (finishing call ticket elapsed)).response? call = some r)) := by
  intro s t call ticket arrived s'
  have hvalid : s.dispatch.Valid := by
    apply valid_run
    apply Dispatch.valid_make
  have hlimit : s'.maxDomainLength = config.maxDomainLength := by
    rw [maxDomainLength_run, maxDomainLength_step, maxDomainLength_run]
    rfl
  have hunlike : ∀ events message,
      (s.run (.arrive line :: events)).response? call = some (.err message) →
      Text.Unlike "(Cancelled)" message := by
    intro events message hr
    obtain ⟨c, hc⟩ := follows_run hvalid line events
    exact hc.unlike_cancelled hr
  refine ⟨?_, ?_, ?_, ?_⟩
  . intro computation hline
    obtain ⟨c₀, hc₀⟩ := follows_arrive hvalid line
    obtain ⟨c, hc⟩ := hc₀.run later
    obtain ⟨-, j, hj⟩ := hc.computation _ hline
    have hfresh := cancelledAfter?_arrive hvalid hline
    rw [hj.reading?_iff, hc₀.cancelledAfter?_run_iff hline, or_iff_right (not_not.mpr hfresh)]
  . exact hunlike later
  . intro message hmessage
    obtain ⟨⟨events, hrun⟩, hresponse⟩ := TimedServer.run_of_handle (t := t) hvalid line
    rw [hrun, hmessage] at hresponse
    exact hunlike events message hresponse
  . intro computation hline hstarted hcut hwaits
    obtain ⟨c, hc⟩ := undisturbed_run hvalid hline later hstarted hcut hwaits
    constructor
    . intro r hr
      obtain ⟨elapsed, rfl⟩ := hc.response_eq hline hr
      refine ⟨elapsed, ?_⟩
      rw [alone_eq config parallelism hline, ← hlimit]
      rfl
    . intro hnone elapsed
      refine ⟨_, alone_eq config parallelism hline elapsed, ?_⟩
      rw [← hlimit]
      exact hc.response?_finishing hline hnone elapsed

end Server

end Sweep
