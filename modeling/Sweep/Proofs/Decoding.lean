import Sweep.Proofs.Framing

/-!
This module contains where the newlines of a decoded line are. A newline is decoded from no other
byte than its own, so that a request line has none.
-/

namespace Sweep

namespace Text

structure Lead.Open (l : Lead) : Prop where
  low : 0x80 ≤ l.low
  last : l.following = 1 → 0 < l.bits
  bits : l.bits = 0 → 0x80 < l.low

theorem open_of_lead? {b : Nat} {l : Lead} (h : lead? b = some l) : l.Open := by
  unfold lead? at h
  split at h
  . obtain rfl := Option.some.inj h
    constructor <;> dsimp only <;> omega
  . split at h
    . obtain rfl := Option.some.inj h
      constructor <;> grind
    . split at h
      . obtain rfl := Option.some.inj h
        constructor <;> grind
      . contradiction

theorem ofNat_eq_newline {n : Nat} (h : Char.ofNat n = '\n') : n = 10 := by
  unfold Char.ofNat at h
  by_cases hvalid : n.isValidChar
  . rw [dif_pos hvalid] at h
    exact congrArg Char.toNat h
  . rw [dif_neg hvalid] at h
    contradiction

theorem first_open (b : Nat) : ∀ l ∈ (first b).2, l.Open := by
  unfold first
  split
  . exact nofun
  . split
    . next l hl =>
      intro l' hl'
      obtain rfl := Option.some.inj hl'
      exact open_of_lead? hl
    . exact nofun

theorem newline_not_mem_first {b : Nat} (h : b ≠ 10) : '\n' ∉ (first b).1 := by
  unfold first
  split
  . rw [List.mem_singleton]
    intro hnewline
    exact h (ofNat_eq_newline hnewline.symm)
  . split
    . simp
    . decide

theorem next_open {opened : Option Lead} (h : ∀ l ∈ opened, l.Open) (b : Nat) :
    ∀ l ∈ (next opened b).2, l.Open := by
  unfold next
  split
  . exact first_open b
  . next l =>
    obtain ⟨hlow, hlast, hbits⟩ := h l rfl
    split
    . next hrange =>
      dsimp only
      split
      . exact nofun
      . intro l' hl'
        obtain rfl := Option.some.inj hl'
        constructor <;> dsimp only <;> omega
    . exact first_open b

theorem newline_not_mem_next {opened : Option Lead} (h : ∀ l ∈ opened, l.Open) {b : Nat}
    (hb : b ≠ 10) : '\n' ∉ (next opened b).1 := by
  unfold next
  split
  . exact newline_not_mem_first hb
  . next l =>
    obtain ⟨hlow, hlast, hbits⟩ := h l rfl
    split
    . next hrange =>
      dsimp only
      split
      . next hfollowing =>
        -- the last byte adds six bits to bits that are not all zero, so the code is at least 64
        have hpos := hlast hfollowing
        rw [List.mem_singleton]
        intro hnewline
        have hcode := ofNat_eq_newline hnewline.symm
        omega
      . simp
    . rw [List.mem_cons, not_or]
      exact ⟨by decide, newline_not_mem_first hb⟩

theorem next_newline {opened : Option Lead} (h : ∀ l ∈ opened, l.Open) :
    ∃ cs, next opened 10 = (cs ++ ['\n'], none) ∧ '\n' ∉ cs := by
  unfold next
  split
  . exact ⟨[], rfl, by simp⟩
  . next l =>
    have hlow := (h l rfl).low
    rw [if_neg (by omega)]
    exact ⟨[replacement], rfl, by decide⟩

theorem newline_not_mem_decode {opened : Option Lead} (h : ∀ l ∈ opened, l.Open)
    {bytes : List UInt8} (hbytes : Connection.newline ∉ bytes) : '\n' ∉ decode opened bytes := by
  induction bytes generalizing opened with
  | nil =>
    unfold decode
    split
    . decide
    . simp
  | cons b bytes ih =>
    rw [List.mem_cons, not_or] at hbytes
    have hb : b.toNat ≠ 10 := by
      intro hb
      exact hbytes.1 (UInt8.toNat_inj.mp hb.symm)
    unfold decode
    rw [List.mem_append, not_or]
    exact ⟨newline_not_mem_next h hb, ih (next_open h _) hbytes.2⟩

theorem decode_newline {opened : Option Lead} (h : ∀ l ∈ opened, l.Open) {bytes : List UInt8}
    (hbytes : Connection.newline ∉ bytes) :
    ∃ cs, decode opened (bytes ++ [Connection.newline]) = cs ++ ['\n'] ∧ '\n' ∉ cs := by
  induction bytes generalizing opened with
  | nil =>
    obtain ⟨cs, hnext, hcs⟩ := next_newline h
    have hdecode : decode opened [Connection.newline]
        = (next opened 10).1 ++ decode (next opened 10).2 [] := by
      rfl
    refine ⟨cs, ?_, hcs⟩
    rw [List.nil_append, hdecode, hnext]
    exact List.append_nil _
  | cons b bytes ih =>
    rw [List.mem_cons, not_or] at hbytes
    have hb : b.toNat ≠ 10 := by
      intro hb
      exact hbytes.1 (UInt8.toNat_inj.mp hb.symm)
    obtain ⟨cs, hdecode, hcs⟩ := ih (next_open h b.toNat) hbytes.2
    refine ⟨(next opened b.toNat).1 ++ cs, ?_, ?_⟩
    . rw [List.cons_append, List.append_assoc, ← hdecode]
      rfl
    . rw [List.mem_append, not_or]
      exact ⟨newline_not_mem_next h hb, hcs⟩

end Text

namespace Connection

theorem isLine_requestLine {bytes line : List UInt8} (h : line ∈ lines bytes) :
    Text.IsLine (requestLine line) := by
  have hopen : ∀ l ∈ (none : Option Text.Lead), l.Open := by
    exact nofun
  unfold requestLine Text.IsLine
  rw [String.toList_ofList, List.mem_reverse]
  intro hnewline
  obtain ⟨body, hbody, rfl | rfl⟩ := exists_body_of_mem_lines h
  . have hmem := (List.dropWhile_suffix _).subset hnewline
    rw [List.mem_reverse] at hmem
    exact Text.newline_not_mem_decode hopen hbody hmem
  . obtain ⟨cs, hcs, hnone⟩ := Text.decode_newline hopen hbody
    unfold Text.ofUtf8 at hnewline
    rw [hcs, List.reverse_append, List.reverse_singleton, List.singleton_append,
      List.dropWhile_cons_of_pos (by rfl)] at hnewline
    have hmem := (List.dropWhile_suffix _).subset hnewline
    rw [List.mem_reverse] at hmem
    exact hnone hmem

end Connection

end Sweep
