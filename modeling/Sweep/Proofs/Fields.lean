import Sweep.Proofs.Messages
import Sweep.Proofs.Origins
import Sweep.Proofs.Progress

/-!
This module contains the fields of responses. A response stays on its line and falls into the fields
that it was put together from, whatever the client has sent and whatever else the server does.
-/

namespace Sweep

open Text (Omits omits_literal)

variable {sep : Text.Separator}

/-! What is told leaves the separators out. -/

theorem ComputeError.omits_computationTimeout (deadline : Duration) :
    Omits sep (ComputeError.computationTimeout deadline).message := by
  exact ((omits_literal (by decide)).append (Number.omits_toText _)).append
    (omits_literal (by decide))

theorem ComputeError.omits_queueTimeout (deadline : Duration) :
    Omits sep (ComputeError.queueTimeout deadline).message := by
  exact ((omits_literal (by decide)).append (Number.omits_toText _)).append
    (omits_literal (by decide))

theorem ComputeError.omits_refused (e : PoolError) :
    Omits sep (ComputeError.worker e.message).message := by
  cases e
  exact (omits_literal (by decide)).append (omits_literal (by decide))

theorem Computation.omits_outcome {c : Computation} (h : c.Omits sep) (limit : Nat)
    (flag : CancelFlag) :
    Satisfies (fun _ => True) (fun e => Text.Omits sep e.message) (c.outcome limit flag) := by
  unfold outcome
  split
  . have hquoted : Text.quoteVisible "capacity overflow" = "\"capacity overflow\"" := by
      rfl
    show Text.Omits sep ("Cannot compute due to " ++
      ("task " ++ "N" ++ " panicked with message " ++ Text.quoteVisible "capacity overflow"))
    rw [hquoted]
    have htask : Text.Omits sep ("task " ++ "N") :=
      (omits_literal (by decide)).append (omits_literal (by decide))
    exact (omits_literal (by decide)).append
      ((htask.append (omits_literal (by decide))).append (omits_literal (by decide)))
  . exact omits_run h limit flag

theorem Dispatch.Tells.omits {d : Dispatch} {work : Work} {outcome : Outcome}
    (h : d.Tells work outcome) (hwork : ∀ outcome, work .never = some outcome →
      Satisfies (fun _ => True) (fun e => Omits sep e.message) outcome) :
    Satisfies (fun _ => True) (fun e => Omits sep e.message) outcome := by
  cases h with
  | result h => exact hwork _ h
  | computationTimeout => exact ComputeError.omits_computationTimeout _
  | queueTimeout => exact ComputeError.omits_queueTimeout _
  | refused e => exact ComputeError.omits_refused e

namespace Server

variable {s : Server} {call ticket : Nat} {line : String}

theorem Follows.omits {c : Call} (h : s.Follows call ticket line c)
    (hline : sep = .newline → Omits sep line) {r : Response} (hr : c.response = some r) :
    r.Omits sep := by
  have hrequest := Request.omits_parse hline
  cases h.response r hr with
  | malformed he =>
    rw [he] at hrequest
    exact Response.omits_ofError ((omits_literal (by decide)).append hrequest)
  | stat => exact True.intro
  | outcome hc elapsed hanswer =>
    rw [hc] at hrequest
    obtain ⟨-, j, hj⟩ := h.computation _ hc
    apply Response.omits_ofResult
    apply (hj.tells h.valid hanswer).omits
    intro outcome houtcome
    obtain rfl := Option.some.inj houtcome
    exact Computation.omits_outcome (hrequest _ rfl) s.maxDomainLength .never

theorem omits_response (h : s.dispatch.Valid) (hline : sep = .newline → Omits sep line)
    {events : List Event} {r : Response}
    (hr : (s.run (.arrive line :: events)).response? s.calls.length = some r) : r.Omits sep := by
  obtain ⟨c, hc⟩ := follows_run h line events
  rw [hc.response?] at hr
  exact hc.omits hline hr

theorem isLine_response (h : s.dispatch.Valid) (hline : Text.IsLine line) {events : List Event}
    {r : Response} (hr : (s.run (.arrive line :: events)).response? s.calls.length = some r) :
    Text.IsLine r.text := by
  apply Response.isLine_text
  apply omits_response h _ hr
  intro _
  exact hline

end Server

/-! The fields of a response. -/

namespace Response

def fields (r : Response) : List String :=
  (r.text.toList.splitOn ';').map String.ofList

inductive Splits : Response → Prop
  | ok (elapsed : Duration) (value : Float)
    (h : (ok elapsed value).fields
      = ["OK", Number.toFixed 3 elapsed.toSeconds, Number.toFixed 6 value]) :
    Splits (ok elapsed value)
  | err (message : String) (h : (err message).fields = ["ERR", message]) : Splits (err message)

theorem fields_eq {r : Response} {fs : List String} (hne : fs ≠ [])
    (homits : ∀ f ∈ fs, Text.Omits .semicolon f) (htext : r.text = ";".intercalate fs) :
    r.fields = fs := by
  unfold fields
  rw [htext]
  exact Text.map_splitOn_intercalate (by rfl) hne homits

theorem splits_of_omits {r : Response} (h : r.Omits .semicolon) : r.Splits := by
  cases r with
  | ok elapsed value =>
    apply Splits.ok
    apply fields_eq (List.cons_ne_nil _ _)
    . intro f hf
      simp only [List.mem_cons, List.not_mem_nil, or_false] at hf
      rcases hf with rfl | rfl | rfl
      . exact omits_literal (by decide)
      . apply Number.omits_toFixed
      . apply Number.omits_toFixed
    . rfl
  | err message =>
    apply Splits.err
    apply fields_eq (List.cons_ne_nil _ _)
    . intro f hf
      simp only [List.mem_cons, List.not_mem_nil, or_false] at hf
      rcases hf with rfl | rfl
      . exact omits_literal (by decide)
      . exact h
    . rfl

end Response

/--
Whatever line a client sends to a server that has done anything before, and whatever the server does
next, the response falls into three fields or, if it is an error, into two.
-/
theorem Server.splits_response (config : Config) (parallelism : Nat)
    (earlier : List Server.Event) (line : String) (later : List Server.Event) (now : Duration)
    (submittedAt : List Duration) (grantedAt : List (Nat × Duration)) :
    let s := (Server.ofConfig config parallelism).run earlier
    let t : TimedServer := { server := s, now, submittedAt, grantedAt }
    (∀ r, (s.run (.arrive line :: later)).response? s.calls.length = some r → r.Splits) ∧
    -- a line that is handled has its response
    (t.handle line).1.Splits := by
  intro s t
  have hvalid : s.dispatch.Valid := by
    apply Server.valid_run
    apply Dispatch.valid_make
  have hsplits : ∀ events r,
      (s.run (.arrive line :: events)).response? s.calls.length = some r → r.Splits := by
    intro events r hr
    apply Response.splits_of_omits
    apply Server.omits_response hvalid _ hr
    exact nofun
  refine ⟨hsplits later, ?_⟩
  obtain ⟨⟨events, hrun⟩, hresponse⟩ := TimedServer.run_of_handle (t := t) hvalid line
  rw [hrun] at hresponse
  exact hsplits events _ hresponse

end Sweep
