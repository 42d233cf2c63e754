import Sweep.Connection.Session
import Sweep.Proofs.Conversation

/-!
This module contains the sessions of clients whose input comes in pieces. However it is cut, every
line is answered with the piece that ends it, and the whole talk is that of an input that comes at
once.
-/

namespace Sweep.Connection

variable {σ : Type} {handle : Handler σ} {quit : String} {bytes front rest : List UInt8}

/-! The whole lines of an input, and the bytes behind them. -/

def wholeLines (bytes : List UInt8) : List UInt8 :=
  bytes.rdropWhile (· != newline)

def tail (bytes : List UInt8) : List UInt8 :=
  bytes.rtakeWhile (· != newline)

theorem wholeLines_append_tail (bytes : List UInt8) : wholeLines bytes ++ tail bytes = bytes := by
  exact List.rdropWhile_append_rtakeWhile

theorem ended_wholeLines (bytes : List UInt8) : Ended (wholeLines bytes) := by
  intro b hb
  obtain ⟨hne, hlast⟩ := List.mem_getLast?_eq_getLast hb
  have hnot := List.rdropWhile_last_not (· != newline) bytes hne
  rw [hlast]
  exact not_not.mp fun hb => hnot (bne_iff_ne.mpr hb)

theorem newline_not_mem_tail (bytes : List UInt8) : newline ∉ tail bytes := by
  intro hmem
  have hne := List.mem_rtakeWhile_imp hmem
  simp at hne

theorem cut_eq (hfront : Ended front) (hrest : newline ∉ rest) :
    wholeLines (front ++ rest) = front ∧ tail (front ++ rest) = rest := by
  have hwhole : wholeLines (front ++ rest) = front := by
    unfold wholeLines List.rdropWhile
    rw [List.reverse_append, List.dropWhile_append_of_pos, ← List.rdropWhile]
    . rw [List.rdropWhile_eq_self_iff]
      intro hne
      simpa using hfront _ (List.getLast?_eq_some_getLast hne)
    . intro b hb
      rw [bne_iff_ne]
      rintro rfl
      exact hrest (List.mem_reverse.mp hb)
  refine ⟨hwhole, ?_⟩
  have happend := wholeLines_append_tail (front ++ rest)
  rw [hwhole] at happend
  exact List.append_cancel_left happend

theorem Ended.append (hfront : Ended front) (hrest : Ended rest) : Ended (front ++ rest) := by
  intro b hb
  rw [List.getLast?_append] at hb
  cases hlast : rest.getLast? with
  | none =>
    rw [hlast] at hb
    exact hfront b hb
  | some last =>
    rw [hlast] at hb
    exact hrest b (hlast.trans hb)

theorem cut_append (bytes piece : List UInt8) :
    wholeLines (bytes ++ piece) = wholeLines bytes ++ wholeLines (tail bytes ++ piece) ∧
    tail (bytes ++ piece) = tail (tail bytes ++ piece) := by
  have hbytes : bytes ++ piece
      = (wholeLines bytes ++ wholeLines (tail bytes ++ piece)) ++ tail (tail bytes ++ piece) := by
    rw [List.append_assoc, wholeLines_append_tail, ← List.append_assoc, wholeLines_append_tail]
  rw [hbytes]
  apply cut_eq
  . exact (ended_wholeLines _).append (ended_wholeLines _)
  . apply newline_not_mem_tail

theorem newline_mem_of_mem_lines (h : Ended bytes) {line : List UInt8}
    (hline : line ∈ lines bytes) : newline ∈ line := by
  induction bytes generalizing line with
  | nil => contradiction
  | cons b bytes ih =>
    by_cases hb : b = newline
    . rw [hb, lines_newline] at hline
      rcases List.mem_cons.mp hline with rfl | hline
      . exact List.mem_singleton_self newline
      . exact ih (ended_of_cons h) hline
    . rw [lines_cons hb] at hline
      split at hline
      . next hlines =>
        -- no line behind `b` means that `b` is the last byte
        by_cases hbytes : bytes = []
        . rw [hbytes] at h
          exact absurd (h b rfl) hb
        . exact absurd hlines (lines_ne_nil hbytes)
      . next first others hlines =>
        rcases List.mem_cons.mp hline with rfl | hline
        . apply List.mem_cons_of_mem
          apply ih (ended_of_cons h)
          rw [hlines]
          exact List.mem_cons_self
        . apply ih (ended_of_cons h)
          rw [hlines]
          exact List.mem_cons_of_mem first hline

theorem newline_not_mem_of_mem_lines (h : newline ∉ bytes) {line : List UInt8}
    (hline : line ∈ lines bytes) : newline ∉ line := by
  intro hmem
  apply h
  rw [← (cutsInto_lines bytes).flatten]
  exact List.mem_flatten_of_mem hline hmem

theorem filter_lines (bytes : List UInt8) :
    (lines bytes).filter (·.contains newline) = lines (wholeLines bytes) ∧
    (lines bytes).filter (!·.contains newline) = lines (tail bytes) := by
  have hlines : lines bytes = lines (wholeLines bytes) ++ lines (tail bytes) := by
    rw [← lines_append (ended_wholeLines bytes), wholeLines_append_tail]
  have hwhole : ∀ line ∈ lines (wholeLines bytes), newline ∈ line := by
    intro line
    exact newline_mem_of_mem_lines (ended_wholeLines bytes)
  have htail : ∀ line ∈ lines (tail bytes), newline ∉ line := by
    intro line
    exact newline_not_mem_of_mem_lines (newline_not_mem_tail bytes)
  rw [hlines, List.filter_append, List.filter_append]
  constructor
  . rw [List.filter_eq_self.mpr (by simpa using hwhole),
      List.filter_eq_nil_iff.mpr (by simpa using htail), List.append_nil]
  . rw [List.filter_eq_nil_iff.mpr (by simpa using hwhole),
      List.filter_eq_self.mpr (by simpa using htail), List.nil_append]

namespace Session

def Quits (quit : String) (bytes : List UInt8) : Prop :=
  ∃ line ∈ lines bytes, requestLine line = quit

structure Follows (handle : Handler σ) (quit : String) (s₀ : σ) (bytes : List UInt8) (text : String)
    (s : Session σ) : Prop where
  served : serve handle quit s₀ (wholeLines bytes) = (text, s.state)
  closed : s.closed = true ↔ Quits quit (wholeLines bytes)
  pending : s.closed = false → s.pending = tail bytes

variable {s₀ : σ} {s : Session σ} {text : String}

theorem answer_lines (s : Session σ) (bytes : List UInt8) :
    s.answer handle quit (lines bytes)
      =
    ((serve handle quit s.state bytes).1,
      { s with
        state := (serve handle quit s.state bytes).2
        closed := s.closed || (lines bytes).any (requestLine · == quit) }) := by
  rfl

theorem feed_eq (hopen : s.closed = false) (piece : List UInt8) :
    s.feed handle quit piece
      =
    { s with pending := tail (s.pending ++ piece) }.answer handle quit
      (lines (wholeLines (s.pending ++ piece))) := by
  obtain ⟨hwhole, htail⟩ := filter_lines (s.pending ++ piece)
  unfold feed
  rw [if_neg (by simp [hopen])]
  dsimp only
  rw [hwhole, htail, (cutsInto_lines _).flatten]

theorem follows_start (handle : Handler σ) (quit : String) (s₀ : σ) :
    Follows handle quit s₀ [] "" (start s₀) where
  served := by rfl
  closed := by simp [start, Quits, wholeLines, lines]
  pending := fun _ => rfl

theorem Quits.append (h : Ended front) (rest : List UInt8) :
    Quits quit (front ++ rest) ↔ Quits quit front ∨ Quits quit rest := by
  unfold Quits
  rw [lines_append h]
  simp only [List.mem_append, or_and_right, exists_or]

theorem Follows.feed (h : Follows handle quit s₀ bytes text s) (piece : List UInt8) :
    Follows handle quit s₀ (bytes ++ piece) (text ++ (s.feed handle quit piece).1)
      (s.feed handle quit piece).2 := by
  obtain ⟨hwhole, htail⟩ := cut_append bytes piece
  have hended := ended_wholeLines bytes
  cases hclosed : s.closed with
  | true =>
    have hquits := h.closed.mp hclosed
    have hfeed : s.feed handle quit piece = ("", s) := by
      unfold Session.feed
      rw [if_pos hclosed]
    rw [hfeed, String.append_empty]
    constructor
    . rw [hwhole, serve_of_quit hended hquits]
      exact h.served
    . rw [hwhole, Quits.append hended]
      simp [hclosed, hquits]
    . intro hopen
      rw [hclosed] at hopen
      contradiction
  | false =>
    have hstays : ¬Quits quit (wholeLines bytes) := by
      rw [← h.closed, hclosed]
      simp
    have hquit : ∀ line ∈ lines (wholeLines bytes), requestLine line ≠ quit := by
      intro line hline heq
      exact hstays ⟨line, hline, heq⟩
    rw [feed_eq hclosed, h.pending hclosed, answer_lines]
    constructor
    . rw [hwhole, serve_append hended hquit, h.served]
    . rw [hwhole, Quits.append hended, or_iff_right hstays]
      simp [hclosed, Quits]
    . exact fun _ => htail.symm

theorem Follows.finish (h : Follows handle quit s₀ bytes text s) :
    serve handle quit s₀ bytes
      =
    (text ++ (s.finish handle quit).1, (s.finish handle quit).2.state) ∧
    (s.finish handle quit).2.closed = true := by
  have hended := ended_wholeLines bytes
  cases hclosed : s.closed with
  | true =>
    have hfinish : s.finish handle quit = ("", s) := by
      unfold Session.finish
      rw [if_pos hclosed]
    rw [hfinish, String.append_empty]
    refine ⟨?_, hclosed⟩
    rw [← wholeLines_append_tail bytes, serve_of_quit hended (h.closed.mp hclosed)]
    exact h.served
  | false =>
    have hquit : ∀ line ∈ lines (wholeLines bytes), requestLine line ≠ quit := by
      intro line hline heq
      have hquits := h.closed.mpr ⟨line, hline, heq⟩
      rw [hclosed] at hquits
      contradiction
    unfold Session.finish
    rw [if_neg (by simp [hclosed]), h.pending hclosed]
    refine ⟨?_, rfl⟩
    nth_rewrite 1 [← wholeLines_append_tail bytes]
    rw [serve_append hended hquit, h.served]
    rfl

def receiveAll (handle : Handler σ) (quit : String) (s : Session σ) :
    List (List UInt8) → String × Session σ
  | [] => ("", s)
  | piece :: pieces =>
    let (text, s) := s.receive handle quit piece
    let (text', s) := receiveAll handle quit s pieces
    (text ++ text', s)

theorem Follows.receiveAll (h : Follows handle quit s₀ bytes text s) {pieces : List (List UInt8)}
    (hpieces : ∀ piece ∈ pieces, piece ≠ []) :
    Follows handle quit s₀ (bytes ++ pieces.flatten) (text ++ (s.receiveAll handle quit pieces).1)
      (s.receiveAll handle quit pieces).2 := by
  induction pieces generalizing s bytes text with
  | nil => simpa [Session.receiveAll] using h
  | cons piece pieces ih =>
    have hreceive : s.receive handle quit piece = s.feed handle quit piece := by
      unfold receive
      rw [if_neg (by simpa using hpieces piece List.mem_cons_self)]
    have hrest := ih (h.feed piece) fun piece' hmem => hpieces piece' (List.mem_cons_of_mem _ hmem)
    rw [List.append_assoc, String.append_assoc] at hrest
    unfold Session.receiveAll
    rw [hreceive]
    exact hrest

theorem receiveAll_end (s : Session σ) (pieces : List (List UInt8)) :
    s.receiveAll handle quit (pieces ++ [[]])
      =
    let (text, s) := s.receiveAll handle quit pieces
    let (text', s) := s.finish handle quit
    (text ++ text', s) := by
  induction pieces generalizing s with
  | nil => simp only [List.nil_append, receiveAll, receive, List.isEmpty_nil, if_true,
      String.append_empty, String.empty_append]
  | cons piece pieces ih =>
    simp only [List.cons_append, receiveAll, ih, String.append_assoc]

/--
An input that comes in pieces is answered as if it had come at once. Before it ends, every line that
is there as a whole has its answer.
-/
theorem receiveAll_start (handle : Handler σ) (quit : String) (s₀ : σ)
    {pieces : List (List UInt8)} (h : ∀ piece ∈ pieces, piece ≠ []) :
    ((start s₀).receiveAll handle quit pieces).1
      = (serve handle quit s₀ (wholeLines pieces.flatten)).1 ∧
    let (text, s) := (start s₀).receiveAll handle quit (pieces ++ [[]])
    (text, s.state) = serve handle quit s₀ pieces.flatten ∧ s.closed = true := by
  have hpieces := (follows_start handle quit s₀).receiveAll h
  rw [List.nil_append, String.empty_append] at hpieces
  obtain ⟨hserve, hclosed⟩ := hpieces.finish
  rw [receiveAll_end, hpieces.served]
  exact ⟨rfl, hserve.symm, hclosed⟩

end Session

end Sweep.Connection
