import Sweep.Proofs.Framing
import Sweep.Proofs.Printing

/-!
This module contains the texts that leave out a separator: those of numbers, and those that are put
together from such texts.
-/

namespace Sweep

open Grammar (IsDigits)

namespace Text

inductive Separator
  | newline
  | semicolon

def Separator.char : Separator → Char
  | newline => '\n'
  | semicolon => ';'

def Omits (sep : Separator) (text : String) : Prop :=
  sep.char ∉ text.toList

variable {sep : Separator}

theorem omits_newline_iff {text : String} : Omits .newline text ↔ IsLine text := by
  rfl

theorem Omits.append {s t : String} (hs : Omits sep s) (ht : Omits sep t) : Omits sep (s ++ t) := by
  unfold Omits at *
  simp [hs, ht]

theorem omits_ofList {cs : List Char} : Omits sep (String.ofList cs) ↔ sep.char ∉ cs := by
  unfold Omits
  rw [String.toList_ofList]

theorem Separator.not_mem {cs : List Char} (h : '\n' ∉ cs ∧ ';' ∉ cs) : sep.char ∉ cs := by
  cases sep with
  | newline => exact h.1
  | semicolon => exact h.2

theorem omits_literal {cs : List Char} (h : '\n' ∉ cs ∧ ';' ∉ cs) :
    Omits sep (String.ofList cs) := by
  exact omits_ofList.mpr (Separator.not_mem h)

theorem Omits.between {before after : List Char} {text : String} (h : Omits sep text)
    (hbefore : '\n' ∉ before ∧ ';' ∉ before) (hafter : '\n' ∉ after ∧ ';' ∉ after) :
    Omits sep (String.ofList before ++ text ++ String.ofList after) := by
  exact ((omits_literal hbefore).append h).append (omits_literal hafter)

theorem omits_toString_char {c : Char} (h : c ≠ sep.char) : Omits sep (toString c) := by
  have htext : toString c = String.ofList [c] := by
    rfl
  rw [htext, omits_ofList, List.mem_singleton]
  exact Ne.symm h

theorem separator_not_mem_of_isDigits {cs : List Char} (h : IsDigits cs) : sep.char ∉ cs := by
  intro hmem
  have hdigit := h.2 sep.char hmem
  cases sep <;> contradiction

theorem omits_toString_nat (n : Nat) : Omits sep (toString n) := by
  have htext : toString n = String.ofList (Nat.toDigits 10 n) := by
    rfl
  rw [htext, omits_ofList]
  apply separator_not_mem_of_isDigits
  apply Decimal.isDigits_toDigits

theorem mem_of_mem_trim {cs : List Char} {c : Char} (h : c ∈ trim cs) : c ∈ cs := by
  have hend := (List.dropWhile_suffix _).subset (List.mem_reverse.mp h)
  exact (List.dropWhile_suffix _).subset (List.mem_reverse.mp hend)

theorem mem_of_mem_splitOn {cs part : List Char} {c d : Char} (hpart : part ∈ cs.splitOn c)
    (hd : d ∈ part) : d ∈ cs ∧ d ≠ c := by
  rw [List.splitOn_eq_splitOnP] at hpart
  induction cs generalizing part with
  | nil =>
    rw [List.splitOnP_nil, List.mem_singleton] at hpart
    rw [hpart] at hd
    contradiction
  | cons b cs ih =>
    have hwithin : ∀ part ∈ cs.splitOnP (· == c), d ∈ part → d ∈ b :: cs ∧ d ≠ c := by
      intro part hpart hd
      obtain ⟨hmem, hne⟩ := ih hpart hd
      exact ⟨List.mem_cons_of_mem b hmem, hne⟩
    rw [List.splitOnP_cons_eq_if_modifyHead] at hpart
    split at hpart
    . rcases List.mem_cons.mp hpart with rfl | hpart
      . contradiction
      . exact hwithin part hpart hd
    . next hb =>
      cases hparts : cs.splitOnP (· == c) with
      | nil =>
        rw [hparts] at hpart
        contradiction
      | cons first others =>
        rw [hparts] at hpart hwithin
        rcases List.mem_cons.mp hpart with rfl | hpart
        . rcases List.mem_cons.mp hd with rfl | hd
          . exact ⟨List.mem_cons_self, by simpa using hb⟩
          . exact hwithin first List.mem_cons_self hd
        . exact hwithin part (List.mem_cons_of_mem first hpart) hd

/-! Texts that are put together from parts. -/

theorem map_splitOn_intercalate {separator : String} {c : Char} {parts : List String}
    (hseparator : separator.toList = [c]) (hne : parts ≠ []) (h : ∀ part ∈ parts, c ∉ part.toList) :
    ((separator.intercalate parts).toList.splitOn c).map String.ofList = parts := by
  rw [String.toList_intercalate, hseparator,
    List.splitOn_intercalate c (List.forall_mem_map.mpr h) (by simpa using hne), List.map_map]
  simp

theorem mem_of_mem_intercalate {parts : List (List Char)} {c d : Char}
    (h : d ∈ [c].intercalate parts) : d = c ∨ ∃ part ∈ parts, d ∈ part := by
  induction parts with
  | nil => contradiction
  | cons part parts ih =>
    cases parts with
    | nil =>
      rw [List.intercalate_singleton] at h
      exact .inr ⟨part, List.mem_cons_self, h⟩
    | cons next parts =>
      rw [List.intercalate_cons_cons, List.mem_append, List.mem_append, List.mem_singleton] at h
      rcases h with (h | h) | h
      . exact .inr ⟨part, List.mem_cons_self, h⟩
      . exact .inl h
      . apply (ih h).imp_right
        rintro ⟨part', hpart', hd⟩
        exact ⟨part', List.mem_cons_of_mem part hpart', hd⟩

theorem intercalate_concat {parts : List (List Char)} (hne : parts ≠ []) (c : Char)
    (part : List Char) :
    [c].intercalate (parts ++ [part]) = [c].intercalate parts ++ c :: part := by
  induction parts with
  | nil => contradiction
  | cons first others ih =>
    cases others with
    | nil => simp
    | cons second others =>
      rw [List.cons_append, List.cons_append, List.intercalate_cons_cons, ← List.cons_append,
        ih (by simp), List.intercalate_cons_cons, List.append_assoc _ _ (c :: part)]

theorem intercalate_append_replicate {parts : List (List Char)} (hne : parts ≠ []) (c : Char)
    (n : Nat) :
    [c].intercalate (parts ++ List.replicate n [])
      =
    [c].intercalate parts ++ List.replicate n c := by
  induction n with
  | zero => simp
  | succ n ih =>
    rw [List.replicate_succ', List.replicate_succ', ← List.append_assoc, ← List.append_assoc,
      intercalate_concat (by simp [hne]), ih]

end Text

open Text (Omits omits_literal)

variable {sep : Text.Separator}

/-! The texts of numbers. -/

theorem Decimal.separator_not_mem_text (d : Decimal) : sep.char ∉ d.text := by
  have hpoint : sep.char ≠ '.' := by
    cases sep <;> decide
  have hdigits : ∀ n, sep.char ∉ Nat.toDigits 10 n :=
    fun n => Text.separator_not_mem_of_isDigits (isDigits_toDigits n)
  have hpadded : ∀ width n, sep.char ∉ padded width n :=
    fun width n => Text.separator_not_mem_of_isDigits (isDigits_padded width n)
  unfold text
  split
  . simp [hdigits, hpadded, hpoint]
  . apply hdigits

namespace Number

theorem omits_signed {magnitude : Float → List Char} (h : ∀ x, sep.char ∉ magnitude x) (x : Float) :
    Omits sep (signed x magnitude) := by
  unfold signed
  split
  . exact omits_literal (by decide)
  . have htext : sep.char ∉ if x.isFinite then magnitude x.abs else ['i', 'n', 'f'] := by
      split
      . apply h
      . exact Text.Separator.not_mem (by decide)
    dsimp only
    rw [Text.omits_ofList]
    split
    . rw [List.mem_cons, not_or]
      exact ⟨by cases sep <;> decide, htext⟩
    . exact htext

theorem omits_toText (x : Float) : Omits sep (toText x) := by
  apply omits_signed
  intro x
  split
  . exact Text.Separator.not_mem (by decide)
  . apply Decimal.separator_not_mem_text

theorem omits_toFixed (places : Nat) (x : Float) : Omits sep (toFixed places x) := by
  apply omits_signed
  intro x
  apply Decimal.separator_not_mem_text

end Number

end Sweep
