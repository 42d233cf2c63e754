import Sweep.Proofs.Viability

/-!
This module contains the reading of several trees from one text, each attempt from where the one
before has ended. An attempt reads the longest expression that comes next, or it stops at the place
that its error is about. Nothing of it but that place matters to the attempts behind it.
-/

namespace Sweep

open Grammar
open Lexeme (isDigit isIdentifierChar)

namespace Grammar

structure Longest (levels : Int) (text cs : List Char) (t : Node) : Prop where
  isPrefix : cs <+: text
  derives : Derives cs t
  nestsWithin : NestsWithin levels cs
  length_le : ∀ ds t', ds <+: text → Derives ds t' → NestsWithin levels ds → ds.length ≤ cs.length

end Grammar

/-! Lexemes that begin in a text. -/

namespace Lexeme

variable {cs : List Char} {value : Float} {name : String}

theorem exists_number?_append (h : Numeral cs value) (rest : List Char) :
    ∃ l more, number? (cs ++ rest) = some l ∧ l.text = cs ++ more := by
  cases h with
  | whole h =>
    unfold number?
    simp only [List.takeWhile_append_of_pos h.2, List.dropWhile_append_of_pos h.2]
    rw [if_neg (by simp [h.1])]
    split
    . exact ⟨_, _, rfl, rfl⟩
    . exact ⟨_, _, rfl, List.append_assoc cs _ _⟩
  | @point ds fs hwhole hfraction =>
    have hpoint : isDigit '.' = false := by decide
    unfold number?
    simp only [List.append_assoc, List.cons_append, List.takeWhile_append_of_pos hwhole.2,
      List.dropWhile_append_of_pos hwhole.2, List.takeWhile_cons, List.dropWhile_cons, hpoint,
      Bool.false_eq_true, if_false, List.append_nil, fraction,
      List.takeWhile_append_of_pos hfraction.2]
    rw [if_neg (by simp [hwhole.1]), if_neg (by simp [hfraction.1])]
    exact ⟨_, _, rfl, rfl⟩

theorem exists_identifier?_append (h : Identifier cs name) (rest : List Char) :
    ∃ l more, identifier? (cs ++ rest) = some l ∧ l.text = cs ++ more := by
  cases h with
  | intro hfirst h =>
    simp only [List.cons_append, identifier?, if_pos hfirst, List.takeWhile_append_of_pos h]
    exact ⟨_, _, rfl, rfl⟩

end Lexeme

namespace Cursor

variable {levels : Nat} {cs cs' before rest rest' : List Char} {t t' : Node} {c : Cursor}
  {blame : Nat → Char → ParseError}

/-! Trees that a text begins with. -/

theorem Ends.unique (h : Ends cs t rest) (h' : Ends cs' t' rest')
    (heq : cs ++ rest = cs' ++ rest') : cs = cs' ∧ t = t' := by
  -- both are read from one place, so they end at the same place
  have hread := readNode_of_ends h (Nat.le_max_left t.height t'.height) 0
  have hread' := readNode_of_ends h' (Nat.le_max_right t.height t'.height) 0
  rw [heq, hread'] at hread
  simp only [Except.ok.injEq, Prod.mk.injEq, Cursor.mk.injEq] at hread
  obtain ⟨rfl, -, rfl⟩ := hread
  exact ⟨List.append_cancel_right heq, rfl⟩

theorem exists_ends (h : Derives cs t) (rest : List Char) :
    ∃ more rest' t', rest = more ++ rest' ∧ Ends (cs ++ more) t' rest' ∧ t'.height = t.height := by
  cases h with
  | number h =>
    obtain ⟨⟨value, text, rest'⟩, more, hl, rfl⟩ := Lexeme.exists_number?_append h rest
    have hcs := Lexeme.text_append_rest_of_number? hl
    rw [← hcs] at hl
    rw [List.append_assoc] at hcs
    exact ⟨more, rest', _, (List.append_cancel_left hcs).symm, .number hl, rfl⟩
  | identifier h =>
    obtain ⟨⟨name, text, rest'⟩, more, hl, rfl⟩ := Lexeme.exists_identifier?_append h rest
    have hcs := Lexeme.text_append_rest_of_identifier? hl
    have hnumber : Lexeme.number? (cs ++ more ++ rest') = none := by
      rw [hcs]
      exact Lexeme.number?_of_identifier h rest
    rw [← hcs] at hl
    rw [List.append_assoc] at hcs
    exact ⟨more, rest', _, (List.append_cancel_left hcs).symm, .identifier hnumber hl, rfl⟩
  | operation op hleft hright =>
    refine ⟨[], rest, _, rfl, ?_, rfl⟩
    rw [List.append_nil]
    exact Ends.operation op hleft hright rest

theorem Ends.longest (h : Ends cs t rest) (hheight : t.height ≤ levels) :
    Longest levels (cs ++ rest) cs t := by
  constructor
  . apply List.prefix_append
  . exact h.derives
  . rw [nestsWithin_iff_height_le h.derives]
    exact Int.ofNat_le.mpr hheight
  . rintro ds t' ⟨behind, htext⟩ hds -
    obtain ⟨more, rest', t'', rfl, hends, -⟩ := exists_ends hds behind
    rw [← List.append_assoc] at htext
    obtain ⟨rfl, -⟩ := hends.unique h htext
    simp

theorem Breaks.not_derives (h : Breaks levels before rest blame) (hcs : cs <+: before ++ rest)
    (hderives : Derives cs t) : ¬NestsWithin levels cs := by
  intro hnests
  rw [nestsWithin_iff_height_le hderives] at hnests
  obtain ⟨behind, htext⟩ := hcs
  obtain ⟨more, rest', t', rfl, hends, hheight⟩ := exists_ends hderives behind
  have hbreaks := readNode_of_breaks h 0
  have hread := readNode_of_ends hends (hheight ▸ Int.ofNat_le.mp hnests) 0
  rw [List.append_assoc, htext, hbreaks] at hread
  contradiction

/-! One attempt. -/

def attempt (c : Cursor) : Except ParseError Node × Cursor :=
  ((c.read.map (·.1)).mapError (·.error), behind c.read)

theorem cursor_stuck (c : Cursor) (blame : Nat → Char → ParseError) :
    (c.stuck blame).cursor = c := by
  unfold stuck
  split <;> rfl

inductive Attempts (c : Cursor) : Except ParseError Node × Cursor → Prop
  | reads {cs rest : List Char} {t : Node} (htext : c.rest = cs ++ rest) (h : Ends cs t rest)
    (hheight : t.height ≤ maxNesting) :
    Attempts c (.ok t, { position := c.position + Text.byteLength cs, rest })
  | breaksOff {before rest : List Char} {blame : Nat → Char → ParseError}
    (htext : c.rest = before ++ rest) (h : Breaks maxNesting before rest blame) {place : Cursor}
    (hplace : place = { position := c.position + Text.byteLength before, rest }) :
    Attempts c (.error (place.stuck blame).error, place)

theorem attempts (c : Cursor) : Attempts c c.attempt := by
  obtain ⟨position, text⟩ := c
  unfold attempt read
  cases halts maxNesting text with
  | ends h hheight =>
    rw [readNode_of_ends h hheight]
    exact .reads rfl h hheight
  | breaks h =>
    rw [readNode_of_breaks h]
    simp only [map_error, mapError_error, behind, cursor_stuck]
    exact .breaksOff rfl h rfl

namespace Attempts

variable {result : Except ParseError Node} {error : ParseError} {c' : Cursor}

theorem spans (h : Attempts c (result, c')) : ∃ cs, c.Spans cs c' := by
  cases h with
  | reads htext => exact ⟨_, htext, rfl⟩
  | breaksOff htext _ hplace =>
    rw [hplace]
    exact ⟨_, htext, rfl⟩

theorem isOk_iff (h : Attempts c (result, c')) :
    (∃ t, result = .ok t) ↔
      ∃ cs t, cs <+: c.rest ∧ Derives cs t ∧ NestsWithin maxNesting cs := by
  cases h with
  | @reads cs rest t htext h hheight =>
    have hlongest := h.longest hheight
    rw [htext]
    exact ⟨fun _ => ⟨cs, t, hlongest.isPrefix, hlongest.derives, hlongest.nestsWithin⟩,
      fun _ => ⟨t, rfl⟩⟩
  | breaksOff htext h =>
    rw [htext]
    constructor
    . rintro ⟨t, ht⟩
      contradiction
    . rintro ⟨cs, t, hcs, hderives, hnests⟩
      exact absurd hnests (h.not_derives hcs hderives)

theorem longest (h : Attempts c (.ok t, c')) :
    ∃ cs, c.Spans cs c' ∧ Longest maxNesting c.rest cs t := by
  cases h with
  | reads htext h hheight =>
    refine ⟨_, ⟨htext, rfl⟩, ?_⟩
    rw [htext]
    exact h.longest hheight

theorem reports (h : Attempts c (.error error, c')) :
    error.position = c'.position ∧
    (c'.atEnd ↔ error = .unexpectedEnd c'.position) ∧
    (error.found? = c'.peek? ∨ error = .tooDeep c'.position maxNesting ∧ c'.peek? = some '(') := by
  cases h with
  | @breaksOff before rest blame htext h _ hplace =>
    subst hplace
    cases rest with
    | nil => exact ⟨rfl, by simp [atEnd, stuck], .inl rfl⟩
    | cons found rest =>
      obtain ⟨hposition, hfound⟩ := h.pointsAt (c.position + Text.byteLength before)
      refine ⟨hposition, ?_, ?_⟩
      . simp only [atEnd, List.isEmpty_cons, Bool.false_eq_true, false_iff, stuck]
        intro hend
        simp [hend, ParseError.found?] at hfound
      . rcases hfound with hfound | ⟨hdeep, rfl⟩
        . exact .inl hfound
        . exact .inr ⟨hdeep, rfl⟩

end Attempts

end Cursor

/-! Texts that stand behind other texts. -/

def ParseError.shift (n : Nat) : ParseError → ParseError
  | unexpectedEnd position => unexpectedEnd (n + position)
  | unexpectedChar position found => unexpectedChar (n + position) found
  | expectedDelimiter position expected found => expectedDelimiter (n + position) expected found
  | expectedOperator position found => expectedOperator (n + position) found
  | unknownOperator position found => unknownOperator (n + position) found
  | tooDeep position limit => tooDeep (n + position) limit
  | trailingInput position found => trailingInput (n + position) found

namespace Cursor

variable {levels : Nat} {before rest : List Char} {blame : Nat → Char → ParseError}

def shift (n : Nat) (c : Cursor) : Cursor :=
  { c with position := n + c.position }

def shiftAttempt (n : Nat) (attempt : Except ParseError Node × Cursor) :
    Except ParseError Node × Cursor :=
  (attempt.1.mapError (·.shift n), attempt.2.shift n)

theorem Breaks.shift (h : Breaks levels before rest blame) (n position : Nat) (found : Char) :
    blame (n + position) found = (blame position found).shift n := by
  induction h with
  | left _ ih | right _ _ _ _ ih => exact ih
  | operand | level | operator | symbol | closing => rfl

theorem Breaks.stuck_shift (h : Breaks levels before rest blame) (n position : Nat) :
    (stuck { position := n + position, rest } blame).error
      =
    (stuck { position, rest } blame).error.shift n := by
  cases rest with
  | nil => rfl
  | cons found rest => exact h.shift n position found

theorem attempt_eq_shift (c : Cursor) :
    c.attempt = shiftAttempt c.position (start c.rest).attempt := by
  obtain ⟨position, text⟩ := c
  unfold attempt read start
  cases halts maxNesting text with
  | ends h hheight =>
    rw [readNode_of_ends h hheight, readNode_of_ends h hheight]
    simp [shiftAttempt, shift, behind]
  | breaks h =>
    rw [readNode_of_breaks h, readNode_of_breaks h, Nat.zero_add]
    simp only [map_error, mapError_error, behind, cursor_stuck]
    rw [h.stuck_shift]
    rfl

theorem shiftAttempt_shiftAttempt (m n : Nat) (attempt : Except ParseError Node × Cursor) :
    shiftAttempt m (shiftAttempt n attempt) = shiftAttempt (m + n) attempt := by
  obtain ⟨_ | _, c⟩ := attempt
  . next error => cases error <;> simp [shiftAttempt, shift, ParseError.shift, Nat.add_assoc]
  . simp [shiftAttempt, shift, Nat.add_assoc]

/-! One attempt after another. -/

def after (times : Nat) (c : Cursor) : Cursor :=
  match times with
  | 0 => c
  | times + 1 => c.attempt.2.after times

theorem readMany_succ (times : Nat) (c : Cursor) :
    c.readMany (times + 1) = c.attempt :: c.attempt.2.readMany times := by
  rfl

theorem length_readMany (times : Nat) (c : Cursor) : (c.readMany times).length = times := by
  induction times generalizing c with
  | zero => rfl
  | succ times ih => rw [readMany_succ, List.length_cons, ih]

theorem readMany_add (m n : Nat) (c : Cursor) :
    c.readMany (m + n) = c.readMany m ++ (c.after m).readMany n := by
  induction m generalizing c with
  | zero =>
    rw [Nat.zero_add]
    rfl
  | succ m ih =>
    rw [Nat.succ_add, readMany_succ, readMany_succ, ih]
    rfl

theorem after_succ (k : Nat) (c : Cursor) : c.after (k + 1) = (c.after k).attempt.2 := by
  induction k generalizing c with
  | zero => rfl
  | succ k ih => exact ih c.attempt.2

theorem getElem?_readMany {times k : Nat} {c : Cursor} (hk : k < times) :
    (c.readMany times)[k]? = some (c.after k).attempt := by
  obtain ⟨later, rfl⟩ : ∃ later, times = k + (later + 1) := ⟨times - k - 1, by omega⟩
  rw [readMany_add, List.getElem?_append_right (by rw [length_readMany]), length_readMany,
    Nat.sub_self]
  rfl

theorem exists_spans_after (k : Nat) (c : Cursor) : ∃ before, c.Spans before (c.after k) := by
  induction k with
  | zero => exact ⟨[], rfl, rfl⟩
  | succ k ih =>
    obtain ⟨before, hbefore⟩ := ih
    obtain ⟨cs, hcs⟩ := (c.after k).attempts.spans
    rw [after_succ]
    exact ⟨before ++ cs, hbefore.append hcs⟩

theorem readMany_eq_shift (times : Nat) (c : Cursor) :
    c.readMany times = ((start c.rest).readMany times).map (shiftAttempt c.position) := by
  induction times generalizing c with
  | zero => rfl
  | succ times ih =>
    rw [readMany_succ, readMany_succ, List.map_cons, ← attempt_eq_shift, ih c.attempt.2,
      ih (start c.rest).attempt.2, attempt_eq_shift, List.map_map]
    congr 2
    funext attempt
    exact (shiftAttempt_shiftAttempt _ _ attempt).symm

/--
The cursor stands between two characters of the text after any number of attempts, and never goes
back. An attempt succeeds if and only if an expression comes next, and it takes the longest one. Any
other attempt stops where its error says and at the character that its error shows. The attempts
behind it go on like those on a text that begins there.
-/
theorem readMany_resumes (input : String) (times : Nat) :
    let origin : Cursor := start input.toList
    (origin.readMany times).length = times ∧
    ∀ k result c', (origin.readMany times)[k]? = some (result, c') →
      let c := origin.after k
      origin.after (k + 1) = c' ∧
      (∃ before, origin.Spans before c) ∧ (∃ before, origin.Spans before c') ∧
      c.position ≤ c'.position ∧
      -- an attempt that succeeds
      ((∃ t, result = .ok t) ↔
        ∃ cs t, cs <+: c.rest ∧ Derives cs t ∧ NestsWithin 256 cs) ∧
      (∀ t, result = .ok t → ∃ cs, c.Spans cs c' ∧ Longest 256 c.rest cs t) ∧
      -- an attempt that fails
      (∀ error, result = .error error →
        error.position = c'.position ∧
        (c'.atEnd ↔ error = .unexpectedEnd c'.position) ∧
        (error.found? = c'.peek? ∨ error = .tooDeep c'.position 256 ∧ c'.peek? = some '(')) ∧
      -- the attempts behind it
      (∀ later, origin.readMany (k + 1 + later)
        = origin.readMany (k + 1) ++
          ((start c'.rest).readMany later).map (shiftAttempt c'.position)) := by
  intro origin
  refine ⟨length_readMany times origin, ?_⟩
  intro k result c' hcall c
  have hk : k < times := by
    rw [← length_readMany times origin]
    exact (List.getElem?_eq_some_iff.mp hcall).1
  rw [getElem?_readMany hk] at hcall
  have hattempt : c.attempt = (result, c') := Option.some.inj hcall
  have hplace : origin.after (k + 1) = c' := by
    rw [after_succ, hattempt]
  have h : Attempts c (result, c') := hattempt ▸ c.attempts
  refine ⟨hplace, ?_, ?_, ?_, h.isOk_iff, ?_, ?_, ?_⟩
  . exact exists_spans_after k origin
  . exact hplace ▸ exists_spans_after (k + 1) origin
  . obtain ⟨cs, hcs⟩ := h.spans
    rw [hcs.2]
    apply Nat.le_add_right
  . rintro t rfl
    exact h.longest
  . rintro error rfl
    exact h.reports
  . intro later
    rw [readMany_add, hplace, readMany_eq_shift later c']

example : ((start "(x(y+1)".toList).readMany 2).map (·.2.position) = [2, 7] := by
  rfl

end Cursor

end Sweep
