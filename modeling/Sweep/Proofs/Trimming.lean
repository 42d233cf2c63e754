import Mathlib.Data.List.DropRight
import Sweep.Text.Blank

/-!
This module contains texts that are cut at their ends: those that lose a run of characters behind
them, and those that lose the blanks around them.
-/

namespace Sweep

theorem rdropWhile_append_of_forall {p : α → Bool} {ys : List α} (h : ∀ y ∈ ys, p y)
    (xs : List α) : (xs ++ ys).rdropWhile p = xs.rdropWhile p := by
  have hreverse : ∀ y ∈ ys.reverse, p y := by simpa using h
  unfold List.rdropWhile
  rw [List.reverse_append, List.dropWhile_append_of_pos hreverse]

theorem exists_rdropWhile_append_replicate {p : α → Bool} {x : α} (h : ∀ y, p y → y = x)
    (xs : List α) : ∃ n, xs = xs.rdropWhile p ++ List.replicate n x := by
  refine ⟨(xs.rtakeWhile p).length, ?_⟩
  rw [← List.eq_replicate_of_mem fun y hy => h y (List.mem_rtakeWhile_imp hy),
    List.rdropWhile_append_rtakeWhile]

namespace Text

variable {cs raw : List Char}

def Pads (raw cs : List Char) : Prop :=
  ∃ before after, (∀ c ∈ before, isBlank c) ∧ (∀ c ∈ after, isBlank c) ∧
    raw = before ++ cs ++ after

structure IsTrimmed (cs : List Char) : Prop where
  first : ∀ c ∈ cs.head?, ¬isBlank c
  last : ∀ c ∈ cs.getLast?, ¬isBlank c

theorem isTrimmed_of_forall (h : ∀ c ∈ cs, ¬isBlank c) : IsTrimmed cs := by
  constructor
  . intro c hc
    exact h c (List.mem_of_mem_head? hc)
  . intro c hc
    exact h c (List.mem_of_mem_getLast? hc)

theorem trim_eq_rdropWhile (cs : List Char) :
    trim cs = (cs.dropWhile isBlank).rdropWhile isBlank := by
  rfl

theorem pads_trim (cs : List Char) : Pads cs (trim cs) := by
  refine ⟨cs.takeWhile isBlank, (cs.dropWhile isBlank).rtakeWhile isBlank, ?_, ?_, ?_⟩
  . intro c hc
    exact List.mem_takeWhile_imp hc
  . intro c hc
    exact List.mem_rtakeWhile_imp hc
  . rw [trim_eq_rdropWhile, List.append_assoc, List.rdropWhile_append_rtakeWhile,
      List.takeWhile_append_dropWhile]

theorem isTrimmed_trim (cs : List Char) : IsTrimmed (trim cs) := by
  rw [trim_eq_rdropWhile]
  constructor
  . intro c hc
    obtain ⟨rest, hrest⟩ := List.rdropWhile_prefix isBlank (cs.dropWhile isBlank)
    have hhead : (cs.dropWhile isBlank).head? = some c := by
      rw [← hrest]
      exact List.mem_head?_append_of_mem_head? hc
    have hnot := List.head?_dropWhile_not isBlank cs
    rw [hhead] at hnot
    simpa using hnot
  . intro c hc
    obtain ⟨hne, rfl⟩ := List.mem_getLast?_eq_getLast hc
    exact List.rdropWhile_last_not isBlank _ hne

theorem dropWhile_append_of_isTrimmed (h : IsTrimmed cs) {after : List Char}
    (hafter : ∀ c ∈ after, isBlank c) :
    ((cs ++ after).dropWhile isBlank).rdropWhile isBlank = cs.rdropWhile isBlank := by
  cases cs with
  | nil =>
    rw [List.nil_append, List.dropWhile_eq_nil_iff.mpr hafter]
  | cons c cs =>
    rw [List.cons_append, List.dropWhile_cons_of_neg (h.first c rfl), ← List.cons_append,
      rdropWhile_append_of_forall hafter]

theorem trim_of_pads (h : Pads raw cs) (htrimmed : IsTrimmed cs) : trim raw = cs := by
  obtain ⟨before, after, hbefore, hafter, rfl⟩ := h
  rw [trim_eq_rdropWhile, List.append_assoc, List.dropWhile_append_of_pos hbefore,
    dropWhile_append_of_isTrimmed htrimmed hafter, List.rdropWhile_eq_self_iff]
  intro hne
  exact htrimmed.last _ (List.getLast?_eq_some_getLast hne)

theorem trim_eq_iff : trim raw = cs ↔ Pads raw cs ∧ IsTrimmed cs := by
  constructor
  . rintro rfl
    exact ⟨pads_trim raw, isTrimmed_trim raw⟩
  . rintro ⟨h, htrimmed⟩
    exact trim_of_pads h htrimmed

end Text

end Sweep
