import Mathlib.Data.List.TakeDrop
import Sweep.Expression.Grammar

/-!
This module contains the value of the numbers in expressions: it is the one that is read from their
text on its own.
-/

namespace Sweep.Number

open Grammar (IsDigits Numeral)

variable {c : Char} {cs fs : List Char}

theorem lower_of_isDigit (h : isDigit c) : lower c = c := by
  have hupper : ¬('A' ≤ c ∧ c ≤ 'Z') := by
    simp only [isDigit, Bool.and_eq_true, decide_eq_true_eq] at h
    intro hc
    have := Char.le_trans hc.1 h.2
    contradiction
  simp [lower, hupper]

theorem exists_cons_of_numeral {value : Float} (h : Numeral cs value) :
    ∃ c rest, cs = c :: rest ∧ isDigit c := by
  have hdigits : ∀ {ds : List Char}, IsDigits ds → ∃ c rest, ds = c :: rest ∧ isDigit c := by
    intro ds h
    obtain ⟨c, rest, rfl⟩ := List.exists_cons_of_ne_nil h.1
    exact ⟨c, rest, rfl, h.2 c List.mem_cons_self⟩
  cases h with
  | whole h => exact hdigits h
  | point hwhole _ =>
    obtain ⟨c, rest, rfl, hc⟩ := hdigits hwhole
    exact ⟨c, _, rfl, hc⟩

theorem span_of_isDigits (h : IsDigits cs) (rest : List Char)
    (hrest : ∀ c ∈ rest.head?, isDigit c = false) :
    (cs ++ rest).span isDigit = (cs, rest) := by
  rw [List.span_eq_takeWhile_dropWhile]
  rw [List.takeWhile_append_of_pos h.2, List.dropWhile_append_of_pos h.2]
  cases rest with
  | nil => simp
  | cons c rest =>
    have := hrest c rfl
    simp [this]

theorem ofList_ne_of_isDigit (h : isDigit c) {d : Char} (hd : isDigit d = false)
    (ds : List Char) : String.ofList ((c :: cs).map lower) ≠ String.ofList (d :: ds) := by
  intro heq
  rw [String.ofList_inj, List.map_cons, lower_of_isDigit h] at heq
  cases heq
  rw [h] at hd
  contradiction

theorem readMagnitude_of_numeral {value : Float} (h : Numeral cs value) :
    readMagnitude cs = some value := by
  have hpoint : isDigit '.' = false := by rfl
  have hname : ∀ {d : Char}, isDigit d = false →
      ∀ ds, String.ofList (cs.map lower) ≠ String.ofList (d :: ds) := by
    obtain ⟨c, rest, rfl, hc⟩ := exists_cons_of_numeral h
    intro d hd ds
    exact ofList_ne_of_isDigit hc hd ds
  have hinf : String.ofList (cs.map lower) ≠ "inf" := hname rfl ['n', 'f']
  have hinfinity : String.ofList (cs.map lower) ≠ "infinity" :=
    hname rfl ['n', 'f', 'i', 'n', 'i', 't', 'y']
  have hnan : String.ofList (cs.map lower) ≠ "nan" := hname rfl ['a', 'n']
  unfold readMagnitude
  simp only [beq_iff_eq, Bool.or_eq_true, hinf, hinfinity, hnan, or_self, if_false]
  cases h with
  | whole h =>
    have hspan := span_of_isDigits h [] (by simp)
    rw [List.append_nil] at hspan
    rw [hspan]
    simp [h.1, readExponent]
  | @point ds fs hwhole hfraction =>
    have hspan := span_of_isDigits hwhole ('.' :: fs) (by simp [hpoint])
    have hspan' := span_of_isDigits hfraction [] (by simp)
    rw [List.append_nil] at hspan'
    rw [hspan]
    simp only [hspan']
    simp [hwhole.1, readExponent]

theorem ofText?_of_numeral {value : Float} (h : Numeral cs value) :
    ofText? (String.ofList cs) = some value := by
  obtain ⟨c, rest, rfl, hc⟩ := exists_cons_of_numeral h
  unfold ofText?
  rw [String.toList_ofList]
  split
  . next heq =>
    cases heq
    contradiction
  . next heq =>
    cases heq
    contradiction
  . exact readMagnitude_of_numeral h

end Sweep.Number
