import Sweep.Dispatch.Work
import Sweep.Proofs.Cancellation

/-!
This module contains the computations whose workers break down. There must be room for all values of
a variable in advance, and a worker that cannot make it gives no result.
-/

namespace Sweep

namespace Domain

variable {d : Domain} {limit : Nat}

theorem overflows_iff : d.overflows ↔ 1152921504606846976 ≤ d.estimatedLength + 1 := by
  unfold overflows maxRoom maxCount
  rw [decide_eq_true_iff]
  omega

theorem not_overflows_of_le (h : d.estimatedLength ≤ limit) (hlimit : limit < 1152921504606846975) :
    ¬d.overflows := by
  rw [overflows_iff]
  omega

theorem values_never_eq (h : d.estimatedLength ≤ limit) :
    d.values limit .never = d.sequence.map (·, .never) :=
  (values_polled h .never).eq_of_never

end Domain

namespace Columns

variable {limit : Nat} {d : Domain} {ds : List Domain}

/--
The generation of the columns comes to a domain that overflows if the domains before it have their
values.
-/
def Reaches (ds : List Domain) : Prop :=
  ∃ before d after, ds = before ++ d :: after ∧
    (∃ columns, before.mapM Domain.sequence = .ok columns) ∧ d.overflows

theorem not_reaches_nil : ¬Reaches [] := by
  rintro ⟨before, d, after, heq, -⟩
  exact List.append_ne_nil_of_right_ne_nil before (List.cons_ne_nil d after) heq.symm

theorem reaches_cons_iff :
    Reaches (d :: ds) ↔ d.overflows ∨ ((∃ values, d.sequence = .ok values) ∧ Reaches ds) := by
  constructor
  . rintro ⟨before, d', after, heq, ⟨columns, hcolumns⟩, hoverflows⟩
    cases before with
    | nil =>
      cases heq
      exact .inl hoverflows
    | cons d'' before =>
      cases heq
      rw [List.mapM_cons] at hcolumns
      obtain ⟨values, hvalues, hcolumns⟩ := bind_eq_ok hcolumns
      obtain ⟨rest, hrest, -⟩ := bind_eq_ok hcolumns
      exact .inr ⟨⟨values, hvalues⟩, before, d', after, rfl, ⟨rest, hrest⟩, hoverflows⟩
  . rintro (hoverflows | ⟨⟨values, hvalues⟩, before, d', after, rfl, ⟨columns, hcolumns⟩, hlater⟩)
    . exact ⟨[], d, ds, rfl, ⟨[], rfl⟩, hoverflows⟩
    . refine ⟨d :: before, d', after, rfl, ⟨values :: columns, ?_⟩, hlater⟩
      rw [List.mapM_cons, hvalues, hcolumns]
      rfl

theorem any_overflows_of_reaches (h : Reaches ds) : ds.any Domain.overflows = true := by
  obtain ⟨before, d, after, rfl, -, hoverflows⟩ := h
  rw [List.any_eq_true]
  exact ⟨d, by simp, hoverflows⟩

theorem overflow_never_iff (h : ∀ d ∈ ds, d.estimatedLength ≤ limit) :
    overflow limit .never ds ↔ Reaches ds := by
  induction ds with
  | nil => exact iff_of_false Bool.false_ne_true not_reaches_nil
  | cons d ds ih =>
    have hrest := ih fun d' hd' => h d' (List.mem_cons_of_mem d hd')
    unfold overflow
    rw [Bool.or_eq_true, Bool.and_eq_true, reaches_cons_iff,
      Domain.values_never_eq (h d List.mem_cons_self)]
    apply or_congr_right
    cases hsequence : d.sequence with
    | error e => simp [map_error]
    | ok values =>
      simp only [map_ok, hrest, Except.ok.injEq, exists_eq', true_and]
      exact and_iff_right_of_imp any_overflows_of_reaches

end Columns

namespace Computation

variable {c : Computation} {limit : Nat}

theorem breaksDown_never_iff : c.breaksDown limit .never ↔ Naive.Overflows c limit := by
  unfold breaksDown Naive.Overflows
  cases Domain.parseSpec c.spec with
  | error e => simp
  | ok ds =>
    simp only [Except.ok.injEq, Bool.and_eq_true]
    constructor
    . rintro ⟨hsizes, hoverflow⟩
      have hsizes : Columns.checkSizes limit [] 0 ds = .ok () := by
        cases hcheck : Columns.checkSizes limit [] 0 ds with
        | error e =>
          rw [hcheck] at hsizes
          contradiction
        | ok _ => rfl
      rw [Columns.overflow_never_iff (Columns.le_limit_of_checkSizes hsizes)] at hoverflow
      obtain ⟨before, d, after, rfl, hcolumns, hoverflows⟩ := hoverflow
      exact ⟨before, d, after, rfl, hsizes, hcolumns, Domain.overflows_iff.mp hoverflows⟩
    . rintro ⟨before, d, after, rfl, hsizes, hcolumns, hoverflows⟩
      rw [Columns.overflow_never_iff (Columns.le_limit_of_checkSizes hsizes), hsizes]
      exact ⟨rfl, before, d, after, rfl, hcolumns, Domain.overflows_iff.mpr hoverflows⟩

theorem outcome_of_overflows (h : Naive.Overflows c limit) :
    c.outcome limit .never = .breakdown "N" "capacity overflow" := by
  exact if_pos (breaksDown_never_iff.mpr h)

theorem outcome_of_not_overflows (h : ¬Naive.Overflows c limit) :
    c.outcome limit .never = c.run limit .never := by
  exact if_neg (mt breaksDown_never_iff.mp h)

theorem not_overflows_of_limit_lt (h : limit < 1152921504606846975) : ¬Naive.Overflows c limit := by
  rintro ⟨before, d, after, -, hsizes, -, hoverflows⟩
  have hd := Columns.le_limit_of_checkSizes hsizes d (by simp)
  exact Domain.not_overflows_of_le hd h (Domain.overflows_iff.mpr hoverflows)

end Computation

end Sweep
