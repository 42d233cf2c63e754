import Sweep.Proofs.Decoding
import Sweep.Proofs.Fields

/-!
This module contains the talk of a client with a server. The lines of the reply are the responses to
the lines of the input, one for one, up to the line that is the quit command.
-/

namespace Sweep

open Text (IsLine)

namespace Connection

variable {σ : Type} {handle : Handler σ} {quit : String} {bytes : List UInt8}

theorem reply_append (first rest : List Response) :
    reply (first ++ rest) = reply first ++ reply rest := by
  unfold reply
  rw [List.map_append, String.join_append]

theorem serve_append (h : Ended bytes) (hquit : ∀ line ∈ lines bytes, requestLine line ≠ quit)
    (s : σ) (rest : List UInt8) :
    serve handle quit s (bytes ++ rest) =
      let (text, s) := serve handle quit s bytes
      let (text', s) := serve handle quit s rest
      (text ++ text', s) := by
  rw [serve_eq, requests_append h hquit, responses_append, reply_append, after_append, serve_eq]
  dsimp only
  rw [serve_eq]

theorem serve_of_quit (h : Ended bytes) (hquit : ∃ line ∈ lines bytes, requestLine line = quit)
    (s : σ) (rest : List UInt8) :
    serve handle quit s (bytes ++ rest) = serve handle quit s bytes := by
  rw [serve_eq, serve_eq, requests_of_quit h hquit]

theorem isLine_of_mem_requests {line : String} (h : line ∈ requests quit bytes) : IsLine line := by
  have hmem := (List.takeWhile_prefix _).subset h
  obtain ⟨l, hl, rfl⟩ := List.mem_map.mp hmem
  exact isLine_requestLine hl

theorem isLine_of_mem_responses {I : σ → Prop} (hhandle : ∀ s line, I s → IsLine line →
      IsLine (handle s line).1.text ∧ I (handle s line).2) {s : σ} (hs : I s)
    {requests : List String} (hrequests : ∀ line ∈ requests, IsLine line) :
    ∀ r ∈ responses handle s requests, IsLine r.text := by
  induction requests generalizing s with
  | nil => exact nofun
  | cons line rest ih =>
    obtain ⟨hline, hnext⟩ := hhandle s line hs (hrequests line List.mem_cons_self)
    intro r hr
    rcases List.mem_cons.mp hr with rfl | hr
    . exact hline
    . exact ih hnext (fun line' hline' => hrequests line' (List.mem_cons_of_mem line hline')) r hr

end Connection

namespace Server

def Reachable (s : Server) : Prop :=
  ∃ config parallelism events, s = (ofConfig config parallelism).run events

theorem Reachable.valid {s : Server} (h : s.Reachable) : s.dispatch.Valid := by
  obtain ⟨config, parallelism, events, rfl⟩ := h
  apply valid_run
  apply Dispatch.valid_make

theorem Reachable.run {s : Server} (h : s.Reachable) (events : List Event) :
    (s.run events).Reachable := by
  obtain ⟨config, parallelism, earlier, rfl⟩ := h
  refine ⟨config, parallelism, earlier ++ events, ?_⟩
  rw [run_append]

end Server

section Runs

open Connection

variable {σ : Type} {serverOf : σ → Server} {handle : Handler σ} {s : σ} {quit line : String}

/--
A line is handled by a run of the server. It begins when the line arrives, and it goes on until the
call of the line has its response, while anything else may happen.
-/
def Runs (serverOf : σ → Server) (handle : Handler σ) : Prop :=
  ∀ s line, (serverOf s).Reachable →
    ∃ events, serverOf (handle s line).2 = (serverOf s).run (.arrive line :: events) ∧
      (serverOf (handle s line).2).response? (serverOf s).calls.length
        = some (handle s line).1

theorem Runs.isLine_handle (h : Runs serverOf handle) (hs : (serverOf s).Reachable)
    (hline : IsLine line) :
    IsLine (handle s line).1.text ∧ (serverOf (handle s line).2).Reachable := by
  obtain ⟨events, hrun, hresponse⟩ := h s line hs
  rw [hrun] at hresponse ⊢
  exact ⟨Server.isLine_response hs.valid hline hresponse, hs.run _⟩

theorem Runs.reachable_after (h : Runs serverOf handle) (hs : (serverOf s).Reachable)
    (requests : List String) : (serverOf (after handle s requests)).Reachable := by
  induction requests generalizing s with
  | nil => exact hs
  | cons line rest ih =>
    apply ih
    obtain ⟨events, hrun, -⟩ := h s line hs
    rw [hrun]
    exact hs.run _

/--
The bytes of a client are answered with one line for every request line in front of the quit
command, in their order.
-/
structure LineByLine (serverOf : σ → Server) (handle : Handler σ) (quit : String) (s : σ)
    (bytes : List UInt8) : Prop where
  -- the request lines are the lines of the input without the characters at their ends
  cut : CutsInto bytes (lines bytes)
  text : ∀ line ∈ lines bytes, ∃ ends, Text.ofUtf8 line = (requestLine line).toList ++ ends ∧
    (∀ c ∈ ends, c = '\r' ∨ c = '\n') ∧
    ∀ c ∈ (requestLine line).toList.getLast?, ¬(c = '\r' ∨ c = '\n')
  front : ∃ rest, (lines bytes).map requestLine = requests quit bytes ++ rest ∧
    ∀ line ∈ rest.head?, line = quit
  ne_quit : ∀ line ∈ requests quit bytes, line ≠ quit
  -- each of them has one response, which is that to the call that it made
  served : serve handle quit s bytes
    = (reply (responses handle s (requests quit bytes)), after handle s (requests quit bytes))
  length : (responses handle s (requests quit bytes)).length = (requests quit bytes).length
  nth : ∀ k : Nat, (responses handle s (requests quit bytes))[k]?
    = (requests quit bytes)[k]?.map fun line =>
      (handle (after handle s ((requests quit bytes).take k)) line).1
  own : ∀ (k : Nat) (line : String), (requests quit bytes)[k]? = some line →
    let before := after handle s ((requests quit bytes).take k)
    (serverOf (handle before line).2).response? (serverOf before).calls.length
      = some (handle before line).1
  -- the lines of the reply are the responses
  replied : lines (Text.toUtf8 (reply (responses handle s (requests quit bytes))))
    = (responses handle s (requests quit bytes)).map fun r => Text.toUtf8 r.text ++ [newline]
  isLine : ∀ r ∈ responses handle s (requests quit bytes), r.text ≠ "" ∧ IsLine r.text
  ended : Ended (Text.toUtf8 (reply (responses handle s (requests quit bytes))))
  -- the input may be served in two parts
  parts : Ended bytes → (∀ line ∈ lines bytes, requestLine line ≠ quit) → ∀ rest,
    serve handle quit s (bytes ++ rest) =
      let (text, s) := serve handle quit s bytes
      let (text', s) := serve handle quit s rest
      (text ++ text', s)
  -- nothing behind the quit command counts
  quits : Ended bytes → (∃ line ∈ lines bytes, requestLine line = quit) → ∀ rest,
    serve handle quit s (bytes ++ rest) = serve handle quit s bytes

theorem Runs.lineByLine (h : Runs serverOf handle) (hs : (serverOf s).Reachable) (quit : String)
    (bytes : List UInt8) : LineByLine serverOf handle quit s bytes := by
  have hlines : ∀ r ∈ responses handle s (requests quit bytes), IsLine r.text := by
    apply isLine_of_mem_responses (I := fun s => (serverOf s).Reachable)
    . intro s line
      exact h.isLine_handle
    . exact hs
    . exact fun _ => isLine_of_mem_requests
  constructor
  . exact cutsInto_lines bytes
  . intro line _
    exact exists_requestLine_append line
  . exact exists_requests_append quit bytes
  . intro line
    exact ne_quit_of_mem_requests
  . apply serve_eq
  . apply length_responses
  . exact getElem?_responses handle s _
  . intro k line _ before
    obtain ⟨-, -, hresponse⟩ := h before line (h.reachable_after hs _)
    exact hresponse
  . exact lines_reply hlines
  . intro r hr
    exact ⟨r.text_ne_empty, hlines r hr⟩
  . apply ended_reply
  . intro hended hquit rest
    exact serve_append hended hquit s rest
  . intro hended hquit rest
    exact serve_of_quit hended hquit s rest

end Runs

namespace TimedServer

open Connection

theorem valid_after {t : TimedServer} (h : t.server.dispatch.Valid) (requests : List String) :
    (after handle t requests).server.dispatch.Valid := by
  induction requests generalizing t with
  | nil => exact h
  | cons line rest ih =>
    apply ih
    obtain ⟨⟨events, hrun⟩, -⟩ := run_of_handle h line
    rw [hrun]
    exact Server.valid_run h _

theorem runs_handle : Runs server handle := by
  intro t line h
  obtain ⟨⟨events, hrun⟩, hresponse⟩ := run_of_handle h.valid line
  exact ⟨events, hrun, hresponse⟩

end TimedServer

end Sweep
