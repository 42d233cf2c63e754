import Mathlib.Data.List.DropRight
import Sweep.Connection.Basic

/-!
This module contains the frame of the talk on a connection: how an input falls into request lines,
and how a reply falls into the lines of its responses.
-/

namespace Sweep

namespace Text

theorem toList_loop (bytes : ByteArray) (i : Nat) (acc : List UInt8) :
    ByteArray.toList.loop bytes i acc = acc.reverse ++ bytes.data.toList.drop i := by
  unfold ByteArray.toList.loop
  split
  . next hlt =>
    have hlength : i < bytes.data.toList.length := by
      simpa using hlt
    have hget : bytes.get! i = bytes.data.toList.get ⟨i, hlength⟩ := by
      show bytes.data[i]! = _
      exact getElem!_pos bytes.data i hlt
    have hdrop : bytes.data.toList.drop i = bytes.get! i :: bytes.data.toList.drop (i + 1) := by
      rw [List.drop_eq_getElem_cons hlength, hget]
      rfl
    have hrest := toList_loop bytes (i + 1) (bytes.get! i :: acc)
    rw [hrest, hdrop, List.reverse_cons, List.append_assoc, List.singleton_append]
  . next hge =>
    have hsize : bytes.data.toList.length ≤ i := by
      simpa using hge
    rw [List.drop_of_length_le hsize, List.append_nil]
termination_by bytes.size - i

theorem toUtf8_eq (text : String) : toUtf8 text = text.toList.flatMap String.utf8EncodeChar := by
  unfold toUtf8 ByteArray.toList
  rw [toList_loop, String.toUTF8_eq_toByteArray, ← String.utf8Encode_toList]
  unfold List.utf8Encode
  simp

theorem newline_eq_ofNat_iff {n : Nat} (h : n < 0x100) :
    Connection.newline = UInt8.ofNat n ↔ n = 10 := by
  rw [← UInt8.toNat_inj, UInt8.toNat_ofNat_of_lt' h]
  exact eq_comm

theorem newline_not_mem_utf8EncodeChar {c : Char} (h : c ≠ '\n') :
    Connection.newline ∉ String.utf8EncodeChar c := by
  have hcode : c.val.toNat ≠ 10 := by
    intro hcode
    apply h
    exact Char.toNat_inj.mp hcode
  -- the bytes of a longer sequence are all above those of ASCII
  unfold String.utf8EncodeChar
  dsimp only
  split
  . simp (disch := omega) only [List.mem_cons, List.not_mem_nil, or_false, newline_eq_ofNat_iff]
    omega
  . split
    . simp (disch := omega) only [List.mem_cons, List.not_mem_nil, or_false, newline_eq_ofNat_iff]
      omega
    . split
      . simp (disch := omega) only [List.mem_cons, List.not_mem_nil, or_false, newline_eq_ofNat_iff]
        omega
      . simp (disch := omega) only [List.mem_cons, List.not_mem_nil, or_false, newline_eq_ofNat_iff]
        omega

def IsLine (text : String) : Prop :=
  '\n' ∉ text.toList

instance : DecidablePred IsLine :=
  fun text => inferInstanceAs (Decidable ('\n' ∉ text.toList))

theorem newline_not_mem_toUtf8 {text : String} (h : IsLine text) :
    Connection.newline ∉ toUtf8 text := by
  rw [toUtf8_eq, List.mem_flatMap]
  rintro ⟨c, hc, hbyte⟩
  apply newline_not_mem_utf8EncodeChar _ hbyte
  rintro rfl
  contradiction

end Text

namespace Connection

variable {bytes body rest : List UInt8}

/-! The lines of an input. -/

def Ended (bytes : List UInt8) : Prop :=
  ∀ b ∈ bytes.getLast?, b = newline

theorem ended_of_cons {b : UInt8} (h : Ended (b :: bytes)) : Ended bytes := by
  cases bytes with
  | nil => exact nofun
  | cons b' bytes => exact h

theorem lines_newline (bytes : List UInt8) :
    lines (newline :: bytes) = [newline] :: lines bytes := by
  rfl

theorem lines_cons {b : UInt8} (hb : b ≠ newline) (bytes : List UInt8) :
    lines (b :: bytes) =
      match lines bytes with
      | [] => [[b]]
      | line :: rest => (b :: line) :: rest := by
  unfold lines
  rw [if_neg hb]
  cases bytes <;> rfl

theorem lines_ne_nil (h : bytes ≠ []) : lines bytes ≠ [] := by
  cases bytes with
  | nil => contradiction
  | cons b bytes =>
    by_cases hb : b = newline
    . rw [hb, lines_newline]
      simp
    . rw [lines_cons hb]
      split <;> simp

theorem lines_append (h : Ended bytes) (rest : List UInt8) :
    lines (bytes ++ rest) = lines bytes ++ lines rest := by
  induction bytes with
  | nil => rfl
  | cons b bytes ih =>
    by_cases hb : b = newline
    . rw [hb, List.cons_append, lines_newline, lines_newline, List.cons_append, List.cons_inj_right]
      exact ih (ended_of_cons h)
    . -- the line that `b` begins ends within `bytes`, so that the rest does not go on with it
      have hbytes : bytes ≠ [] := by
        rintro rfl
        exact hb (h b rfl)
      have hlines := lines_ne_nil hbytes
      rw [List.cons_append, lines_cons hb, lines_cons hb, ih (ended_of_cons h)]
      cases hcases : lines bytes with
      | nil => contradiction
      | cons line ls => rfl

theorem lines_body (h : newline ∉ body) (rest : List UInt8) :
    lines (body ++ newline :: rest) = (body ++ [newline]) :: lines rest := by
  induction body with
  | nil => rfl
  | cons b body ih =>
    rw [List.mem_cons, not_or] at h
    rw [List.cons_append, lines_cons (Ne.symm h.1), ih h.2]
    rfl

theorem exists_body_of_mem_lines {line : List UInt8} (h : line ∈ lines bytes) :
    ∃ body, newline ∉ body ∧ (line = body ∨ line = body ++ [newline]) := by
  induction bytes generalizing line with
  | nil => contradiction
  | cons b bytes ih =>
    by_cases hb : b = newline
    . rw [hb, lines_newline] at h
      rcases List.mem_cons.mp h with rfl | h
      . exact ⟨[], by simp, .inr rfl⟩
      . exact ih h
    . rw [lines_cons hb] at h
      split at h
      . rw [List.mem_singleton] at h
        refine ⟨[b], ?_, .inl h⟩
        simpa using Ne.symm hb
      . next first others hlines =>
        rcases List.mem_cons.mp h with rfl | h
        . have hmem : first ∈ lines bytes := by
            rw [hlines]
            exact List.mem_cons_self
          obtain ⟨body, hbody, hfirst⟩ := ih hmem
          refine ⟨b :: body, ?_, ?_⟩
          . rw [List.mem_cons, not_or]
            exact ⟨Ne.symm hb, hbody⟩
          . rcases hfirst with rfl | rfl
            . exact .inl rfl
            . exact .inr rfl
        . apply ih
          rw [hlines]
          exact List.mem_cons_of_mem first h

/--
The lines make up the input. None of them is empty, and a newline is at the end of each, but perhaps
the last one, and nowhere else.
-/
structure CutsInto (bytes : List UInt8) (ls : List (List UInt8)) : Prop where
  flatten : ls.flatten = bytes
  newlines : ∀ line ∈ ls, line ≠ [] ∧ newline ∉ line.dropLast
  ended : ∀ line ∈ ls.dropLast, line.getLast? = some newline

theorem CutsInto.newline {ls : List (List UInt8)} (h : CutsInto bytes ls) :
    CutsInto (newline :: bytes) ([Connection.newline] :: ls) where
  flatten := by
    rw [List.flatten_cons, h.flatten]
    rfl
  newlines := by
    intro line hline
    rcases List.mem_cons.mp hline with rfl | hline
    . simp
    . exact h.newlines line hline
  ended := by
    intro line hline
    cases ls with
    | nil => contradiction
    | cons first ls =>
      rcases List.mem_cons.mp hline with rfl | hline
      . rfl
      . exact h.ended line hline

theorem CutsInto.cons {ls : List (List UInt8)} {b : UInt8} {line : List UInt8}
    (hb : b ≠ Connection.newline) (h : CutsInto bytes (line :: ls)) :
    CutsInto (b :: bytes) ((b :: line) :: ls) where
  flatten := by
    rw [← h.flatten]
    rfl
  newlines := by
    intro line' hline'
    rcases List.mem_cons.mp hline' with rfl | hline'
    . obtain ⟨hne, hbody⟩ := h.newlines line List.mem_cons_self
      rw [List.dropLast_cons_of_ne_nil hne, List.mem_cons, not_or]
      exact ⟨List.cons_ne_nil _ _, hb.symm, hbody⟩
    . exact h.newlines line' (List.mem_cons_of_mem _ hline')
  ended := by
    intro line' hline'
    cases ls with
    | nil => contradiction
    | cons first ls =>
      rcases List.mem_cons.mp hline' with rfl | hline'
      . rw [List.getLast?_cons, h.ended line List.mem_cons_self]
        rfl
      . exact h.ended line' (List.mem_cons_of_mem _ hline')

theorem cutsInto_lines (bytes : List UInt8) : CutsInto bytes (lines bytes) := by
  induction bytes with
  | nil => exact ⟨rfl, nofun, nofun⟩
  | cons b bytes ih =>
    by_cases hb : b = newline
    . rw [hb, lines_newline]
      exact ih.newline
    . rw [lines_cons hb]
      split
      . next hlines =>
        rw [hlines] at ih
        rw [← ih.flatten]
        exact ⟨rfl, by simp, nofun⟩
      . next line ls hlines =>
        rw [hlines] at ih
        exact ih.cons hb

theorem exists_requestLine_append (line : List UInt8) :
    ∃ ends, Text.ofUtf8 line = (requestLine line).toList ++ ends ∧
      (∀ c ∈ ends, c = '\r' ∨ c = '\n') ∧
      ∀ c ∈ (requestLine line).toList.getLast?, ¬(c = '\r' ∨ c = '\n') := by
  let isEnd (c : Char) : Bool := c == '\r' || c == '\n'
  have htext : (requestLine line).toList = (Text.ofUtf8 line).rdropWhile isEnd := by
    unfold requestLine
    rw [String.toList_ofList]
    rfl
  have hend (c : Char) : isEnd c = true ↔ c = '\r' ∨ c = '\n' := by
    simp [isEnd]
  refine ⟨(Text.ofUtf8 line).rtakeWhile isEnd, ?_, ?_, ?_⟩
  . rw [htext, List.rdropWhile_append_rtakeWhile]
  . intro c hc
    exact (hend c).mp (List.mem_rtakeWhile_imp hc)
  . intro c hc
    rw [htext] at hc
    obtain ⟨hne, hlast⟩ := List.mem_getLast?_eq_getLast hc
    rw [hlast, ← hend]
    exact List.rdropWhile_last_not _ _ hne

/-! The request lines that are answered, and their responses. -/

variable {σ : Type} {handle : Handler σ} {quit : String}

def requests (quit : String) (bytes : List UInt8) : List String :=
  ((lines bytes).map requestLine).takeWhile (· != quit)

theorem exists_requests_append (quit : String) (bytes : List UInt8) :
    ∃ rest, (lines bytes).map requestLine = requests quit bytes ++ rest ∧
      ∀ line ∈ rest.head?, line = quit := by
  refine ⟨((lines bytes).map requestLine).dropWhile (· != quit), ?_, ?_⟩
  . exact List.takeWhile_append_dropWhile.symm
  . intro line hline
    have hnot := List.head?_dropWhile_not (· != quit) ((lines bytes).map requestLine)
    rw [Option.mem_def.mp hline] at hnot
    simpa using hnot

theorem ne_quit_of_mem_requests {line : String} (h : line ∈ requests quit bytes) : line ≠ quit := by
  simpa using List.mem_takeWhile_imp h

def after (handle : Handler σ) (s : σ) (requests : List String) : σ :=
  requests.foldl (fun s line => (handle s line).2) s

def responses (handle : Handler σ) (s : σ) : List String → List Response
  | [] => []
  | line :: rest => (handle s line).1 :: responses handle (handle s line).2 rest

theorem length_responses (handle : Handler σ) (s : σ) (requests : List String) :
    (responses handle s requests).length = requests.length := by
  induction requests generalizing s with
  | nil => rfl
  | cons line rest ih => simp [responses, ih]

theorem getElem?_responses (handle : Handler σ) (s : σ) (requests : List String) (k : Nat) :
    (responses handle s requests)[k]?
      =
    requests[k]?.map fun line => (handle (after handle s (requests.take k)) line).1 := by
  induction requests generalizing s k with
  | nil => rfl
  | cons line rest ih =>
    cases k with
    | zero => rfl
    | succ k => exact ih (handle s line).2 k

theorem after_append (handle : Handler σ) (s : σ) (first rest : List String) :
    after handle s (first ++ rest) = after handle (after handle s first) rest := by
  exact List.foldl_append

theorem responses_append (handle : Handler σ) (s : σ) (first rest : List String) :
    responses handle s (first ++ rest)
      =
    responses handle s first ++ responses handle (after handle s first) rest := by
  induction first generalizing s with
  | nil => rfl
  | cons line first ih =>
    simp only [List.cons_append, responses, ih]
    rfl

theorem serveLines_eq (handle : Handler σ) (quit : String) (s : σ) (ls : List (List UInt8)) :
    serveLines handle quit s ls
      =
    (responses handle s ((ls.map requestLine).takeWhile (· != quit)),
      after handle s ((ls.map requestLine).takeWhile (· != quit))) := by
  induction ls generalizing s with
  | nil => rfl
  | cons line ls ih =>
    unfold serveLines respond?
    by_cases hquit : requestLine line = quit
    . simp [hquit, responses, after]
    . simp [hquit, responses, after, ih]

theorem serve_eq (handle : Handler σ) (quit : String) (s : σ) (bytes : List UInt8) :
    serve handle quit s bytes
      =
    (reply (responses handle s (requests quit bytes)), after handle s (requests quit bytes)) := by
  unfold serve
  rw [serveLines_eq]
  rfl

theorem requests_append (h : Ended bytes) (hquit : ∀ line ∈ lines bytes, requestLine line ≠ quit)
    (rest : List UInt8) :
    requests quit (bytes ++ rest) = requests quit bytes ++ requests quit rest := by
  have hall : ∀ line ∈ (lines bytes).map requestLine, (line != quit) = true := by
    intro line hline
    obtain ⟨l, hl, rfl⟩ := List.mem_map.mp hline
    simpa using hquit l hl
  have hself : ((lines bytes).map requestLine).takeWhile (· != quit)
      = (lines bytes).map requestLine := by
    rw [← List.append_nil ((lines bytes).map requestLine), List.takeWhile_append_of_pos hall]
    rfl
  unfold requests
  rw [lines_append h, List.map_append, List.takeWhile_append_of_pos hall, hself]

theorem requests_of_quit (h : Ended bytes) (hquit : ∃ line ∈ lines bytes, requestLine line = quit)
    (rest : List UInt8) : requests quit (bytes ++ rest) = requests quit bytes := by
  obtain ⟨line, hline, hquit⟩ := hquit
  have hmem : quit ∈ (lines bytes).map requestLine := by
    rw [← hquit]
    exact List.mem_map_of_mem hline
  unfold requests
  rw [lines_append h, List.map_append]
  generalize (lines bytes).map requestLine = ls at hmem
  induction ls with
  | nil => contradiction
  | cons l ls ih =>
    by_cases hl : l = quit
    . simp [hl]
    . have hrest := ih ((List.mem_cons.mp hmem).resolve_left (Ne.symm hl))
      simp [hl, hrest]

/-! The lines of a reply. -/

theorem toUtf8_reply (rs : List Response) :
    Text.toUtf8 (reply rs) = rs.flatMap fun r => Text.toUtf8 r.text ++ [newline] := by
  have hline : ∀ r : Response,
      Text.toUtf8 r.text ++ [newline] = (r.text ++ "\n").toList.flatMap String.utf8EncodeChar := by
    intro r
    rw [Text.toUtf8_eq, String.toList_append, List.flatMap_append]
    rfl
  simp only [hline]
  rw [Text.toUtf8_eq]
  unfold reply
  rw [String.toList_join, List.flatMap_map, List.flatMap_assoc]

theorem lines_reply {rs : List Response} (h : ∀ r ∈ rs, Text.IsLine r.text) :
    lines (Text.toUtf8 (reply rs)) = rs.map fun r => Text.toUtf8 r.text ++ [newline] := by
  rw [toUtf8_reply]
  induction rs with
  | nil => rfl
  | cons r rs ih =>
    have hr := Text.newline_not_mem_toUtf8 (h r List.mem_cons_self)
    rw [List.flatMap_cons, List.append_assoc, List.singleton_append, lines_body hr,
      ih fun r' hr' => h r' (List.mem_cons_of_mem r hr')]
    rfl

theorem ended_reply (rs : List Response) : Ended (Text.toUtf8 (reply rs)) := by
  rw [toUtf8_reply]
  intro b hb
  induction rs with
  | nil => contradiction
  | cons r rs ih =>
    rw [List.flatMap_cons, List.getLast?_append] at hb
    cases hrest : (rs.flatMap fun r => Text.toUtf8 r.text ++ [newline]).getLast? with
    | none => simpa [hrest, eq_comm] using hb
    | some last =>
      apply ih
      simpa [hrest] using hb

end Connection

end Sweep
