import Sweep.Proofs.Capacity
import Sweep.Proofs.Extremes
import Sweep.Proofs.Lengths

/-!
This module contains the generation of the values of a domain. It ends beyond the upper end, with
all values up to there, or at a value from which the step does not lead any higher.
-/

namespace Sweep

namespace Domain

variable {d : Domain} {value : Float} {limit n : Nat}

def Generated (d : Domain) (value : Float) : Prop :=
  ∃ n, (∀ k < n, d.Advances (d.next^[k] d.lower)) ∧ d.next^[n] d.lower = value ∧ value ≤ d.upper

/-! How the generation ends. -/

theorem estimatedLength_eq_zero_iff : d.estimatedLength = 0 ↔ d.isEmpty = true := by
  constructor
  . intro h
    by_contra hempty
    have hle : d.lower ≤ d.upper := by
      simpa [isEmpty] using hempty
    have hmax : d.estimatedLength < maxCount := by
      rw [h]
      decide
    have := (toRat_sub_le hle hmax).2.2.1
    omega
  . intro h
    unfold estimatedLength
    rw [if_pos h]

theorem values_cases (h : d.estimatedLength ≤ limit) :
    ∃ n, (∀ k < n, d.Advances (d.next^[k] d.lower)) ∧
      ((¬d.next^[n] d.lower ≤ d.upper ∧
        d.values limit .never = .ok (List.iterate d.next d.lower n, .never)) ∨
      (d.Stalls (d.next^[n] d.lower) ∧
        d.values limit .never = .error (.stepTooSmall d.name d.step (d.next^[n] d.lower)))) := by
  obtain ⟨n, hadvances, hcases⟩ := sequence.go_cases d d.lower
  refine ⟨n, hadvances, ?_⟩
  rw [values_never_eq h, sequence]
  rcases hcases with ⟨hend, hgo⟩ | ⟨hstalls, hgo⟩
  . left
    rw [hgo]
    exact ⟨hend, rfl⟩
  . right
    rw [hgo]
    exact ⟨hstalls, rfl⟩

theorem Stalls.not_advances (h : d.Stalls value) : ¬d.Advances value := by
  rintro ⟨-, hnext⟩
  exact hnext h.2

theorem not_advances_of_not_le (h : ¬value ≤ d.upper) : ¬d.Advances value := by
  rintro ⟨hle, -⟩
  exact h hle

theorem exists_last_round (h : d.estimatedLength ≤ limit) :
    ∃ n < 18446744073709551616, (∀ k < n, d.Advances (d.next^[k] d.lower)) ∧
      ¬d.Advances (d.next^[n] d.lower) := by
  obtain ⟨n, hadvances, hcases⟩ := values_cases h
  refine ⟨n, lt_of_advances hadvances, hadvances, ?_⟩
  rcases hcases with ⟨hend, -⟩ | ⟨hstalls, -⟩
  . exact not_advances_of_not_le hend
  . exact hstalls.not_advances

theorem eq_of_not_advances {m : Nat} (hn : ∀ k < n, d.Advances (d.next^[k] value))
    (hn' : ¬d.Advances (d.next^[n] value)) (hm : ∀ k < m, d.Advances (d.next^[k] value))
    (hm' : ¬d.Advances (d.next^[m] value)) : n = m := by
  rcases Nat.lt_trichotomy n m with hlt | heq | hgt
  . exact absurd (hm n hlt) hn'
  . exact heq
  . exact absurd (hn m hgt) hm'

/-! Values from which the step does not lead any higher. -/

theorem exists_stepTooSmall {error : DomainError} (h : d.estimatedLength ≤ limit)
    (herror : d.values limit .never = .error error) :
    ∃ v, error = .stepTooSmall d.name d.step v ∧ d.Generated v ∧ d.next v ≤ v := by
  obtain ⟨n, hadvances, ⟨-, hvalues⟩ | ⟨⟨hle, hnext⟩, hvalues⟩⟩ := values_cases h
  . rw [hvalues] at herror
    contradiction
  . rw [hvalues] at herror
    cases herror
    exact ⟨_, rfl, ⟨n, hadvances, rfl, hle⟩, hnext⟩

theorem values_of_stalls (h : d.estimatedLength ≤ limit) (hgenerated : d.Generated value)
    (hnext : d.next value ≤ value) :
    d.values limit .never = .error (.stepTooSmall d.name d.step value) := by
  obtain ⟨m, hm, rfl, hle⟩ := hgenerated
  have hstalls : d.Stalls (d.next^[m] d.lower) := ⟨hle, hnext⟩
  obtain ⟨n, hadvances, ⟨hend, -⟩ | ⟨hstalls', hvalues⟩⟩ := values_cases h
  . have hrounds := eq_of_not_advances hadvances (not_advances_of_not_le hend) hm
      hstalls.not_advances
    rw [hrounds] at hend
    contradiction
  . have hrounds := eq_of_not_advances hadvances hstalls'.not_advances hm hstalls.not_advances
    rw [hvalues, hrounds]

/-! Values that go up as far as they can. -/

structure Ascent (d : Domain) (values : List Float) : Prop where
  nil_iff : values = [] ↔ d.isEmpty = true
  head : values ≠ [] → values.head? = some d.lower
  next : values.IsChain fun v w => w = Number.roundToPrecision (v + d.step)
  ascending : values.Pairwise (· < ·)
  numbers : ∀ v ∈ values, v.isNaN = false
  within : ∀ v ∈ values, v ≤ d.upper
  maximal : ∀ v ∈ values.getLast?, ¬Number.roundToPrecision (v + d.step) ≤ d.upper

theorem isChain_iterate (d : Domain) (value : Float) (n : Nat) :
    (List.iterate d.next value n).IsChain (fun v w => w = d.next v) := by
  rw [List.isChain_iff_getElem]
  intro i hi
  rw [List.getElem_iterate, List.getElem_iterate, Function.iterate_succ_apply']

theorem ascent_iterate (h : ∀ k < n, d.Advances (d.next^[k] d.lower))
    (hend : ¬d.next^[n] d.lower ≤ d.upper) : d.Ascent (List.iterate d.next d.lower n) where
  nil_iff := by
    rw [List.iterate_eq_nil]
    unfold isEmpty
    rw [Bool.not_eq_true', decide_eq_false_iff_not]
    constructor
    . rintro rfl
      exact hend
    . intro hempty
      by_contra hn
      exact hempty (h 0 (Nat.pos_of_ne_zero hn)).1
  head hne := by
    cases n with
    | zero => contradiction
    | succ n => rfl
  next := isChain_iterate d d.lower n
  ascending := by
    apply (pairwise_iterate h).imp_of_mem
    intro x y hx hy hlt
    exact (Number.lt_iff_rank (le_upper_of_mem_iterate h x hx).1
      (le_upper_of_mem_iterate h y hy).1).mpr hlt
  numbers v hv := (le_upper_of_mem_iterate h v hv).1
  within v hv := (le_upper_of_mem_iterate h v hv).2
  maximal v hv := by
    cases n with
    | zero => contradiction
    | succ n =>
      rw [List.getLast?_eq_getElem?, List.length_iterate, Nat.add_sub_cancel,
        List.getElem?_iterate _ _ _ _ (Nat.lt_succ_self n)] at hv
      cases hv
      rw [Function.iterate_succ_apply'] at hend
      exact hend

theorem ascent_of_values {values : List Float} {flag : CancelFlag} (h : d.estimatedLength ≤ limit)
    (hvalues : d.values limit .never = .ok (values, flag)) : d.Ascent values := by
  obtain ⟨n, hadvances, ⟨hend, heq⟩ | ⟨-, heq⟩⟩ := values_cases h
  . rw [heq] at hvalues
    cases hvalues
    exact ascent_iterate hadvances hend
  . rw [heq] at hvalues
    contradiction

/-! Domains for whose values there is no room. -/

theorem overflows_of_infinite (hempty : ¬d.isEmpty)
    (h : ¬(d.lower.isFinite ∧ d.upper.isFinite)) : d.overflows := by
  by_contra hroom
  have hle : d.lower ≤ d.upper := by
    simpa [isEmpty] using hempty
  have hmax : d.estimatedLength < maxCount := by
    rw [overflows_iff] at hroom
    unfold maxCount
    omega
  obtain ⟨hlower, hupper, -⟩ := toRat_sub_le hle hmax
  exact h ⟨hlower, hupper⟩

theorem checkSizes_singleton (h : d.estimatedLength ≤ limit) :
    Columns.checkSizes limit [] 0 [d] = .ok () := by
  simp [Columns.checkSizes, Nat.not_lt.mpr h]

theorem outcome_of_overflows (h : d.estimatedLength ≤ limit) (hoverflows : d.overflows)
    {c : Computation} (hspec : parseSpec c.spec = .ok [d]) (flag : CancelFlag) :
    c.outcome limit flag = .breakdown "N" "capacity overflow" := by
  apply if_pos
  unfold Computation.breaksDown Columns.overflow
  simp only [hspec, checkSizes_singleton h, hoverflows]
  rfl

structure Generates (d : Domain) (limit : Nat) : Prop where
  ends : ∃ n < 18446744073709551616, (∀ k < n, d.Advances (d.next^[k] d.lower)) ∧
    ¬d.Advances (d.next^[n] d.lower)
  isEmpty_iff : d.isEmpty = true ↔ d.estimatedLength = 0
  -- if there is no room for the values then nothing is generated
  overflows_iff : d.overflows ↔ 1152921504606846976 ≤ d.estimatedLength + 1
  overflows_of_infinite : ¬d.isEmpty → ¬(d.lower.isFinite ∧ d.upper.isFinite) → d.overflows
  not_overflows : limit < 1152921504606846975 → ¬d.overflows
  breakdown : d.overflows → ∀ c : Computation, parseSpec c.spec = .ok [d] →
    ∀ flag, c.outcome limit flag = .breakdown "N" "capacity overflow"
  -- otherwise the values go up as far as they can, or a step does not lead any higher
  ascent : ¬d.overflows → ∀ values flag,
    d.values limit .never = .ok (values, flag) → d.Ascent values
  error : ¬d.overflows → ∀ error,
    d.values limit .never = .error error → ∃ v, error = .stepTooSmall d.name d.step v
  stepTooSmall_iff : ¬d.overflows → ∀ v,
    d.values limit .never = .error (.stepTooSmall d.name d.step v) ↔
      d.Generated v ∧ Number.roundToPrecision (v + d.step) ≤ v

/--
The generation ends. Its values are those that go up as far as they can, unless a step does not lead
any higher from a value that was generated or there is no room for as many values as are expected.
-/
theorem values_maximal (h : d.estimatedLength ≤ limit) : d.Generates limit where
  ends := exists_last_round h
  isEmpty_iff := estimatedLength_eq_zero_iff.symm
  overflows_iff := overflows_iff
  overflows_of_infinite := overflows_of_infinite
  not_overflows := not_overflows_of_le h
  breakdown := by
    intro hoverflows c hspec flag
    exact outcome_of_overflows h hoverflows hspec flag
  ascent := by
    intro _ values flag hvalues
    exact ascent_of_values h hvalues
  error := by
    intro _ error herror
    obtain ⟨v, hv, -⟩ := exists_stepTooSmall h herror
    exact ⟨v, hv⟩
  stepTooSmall_iff := by
    intro _ v
    constructor
    . intro herror
      obtain ⟨w, hw, hgenerated, hnext⟩ := exists_stepTooSmall h herror
      cases hw
      exact ⟨hgenerated, hnext⟩
    . rintro ⟨hgenerated, hnext⟩
      exact values_of_stalls h hgenerated hnext

theorem values_maximal_stalled :
    ∃ d, parse "x:1e20:1:1e20" = .ok d ∧ d.estimatedLength ≤ 1 ∧
      d.values 1 .never = .error (.stepTooSmall d.name d.step d.lower) := by
  have hparse : ((parse "x:1e20:1:1e20").toOption.any fun d =>
      d.estimatedLength ≤ 1 && d.lower ≤ d.upper &&
        Number.roundToPrecision (d.lower + d.step) ≤ d.lower) = true := by
    decide +kernel
  obtain ⟨d, hparse, hd⟩ := exists_of_any_toOption hparse
  simp only [Bool.and_eq_true, decide_eq_true_eq] at hd
  obtain ⟨⟨hlength, hle⟩, hnext⟩ := hd
  refine ⟨d, hparse, hlength, ?_⟩
  have hgenerates := values_maximal hlength
  apply (hgenerates.stepTooSmall_iff (hgenerates.not_overflows (by decide)) d.lower).mpr
  exact ⟨⟨0, nofun, rfl, hle⟩, hnext⟩

theorem values_unbounded_breakdown :
    let c : Computation :=
      { kind := .count, mode := .grid, spec := "x:-inf:1:0", expressions := ["x"] }
    ∃ d, parseSpec c.spec = .ok [d] ∧ d.estimatedLength ≤ maxCount ∧
      d.Generated d.lower ∧ Number.roundToPrecision (d.lower + d.step) ≤ d.lower ∧
      c.outcome maxCount .never = .breakdown "N" "capacity overflow" ∧
      c.outcome maxCount .never ≠ .error (.domain (.stepTooSmall d.name d.step d.lower)) := by
  intro c
  have hparse : ((parseSpec c.spec).toOption.any fun ds => ds.length = 1 && ds.all fun d =>
      d.estimatedLength ≤ maxCount && d.lower ≤ d.upper &&
        Number.roundToPrecision (d.lower + d.step) ≤ d.lower && d.overflows) = true := by
    decide +kernel
  obtain ⟨ds, hspec, hds⟩ := exists_of_any_toOption hparse
  obtain ⟨hone, hall⟩ := Bool.and_eq_true_iff.mp hds
  obtain ⟨d, rfl⟩ := List.length_eq_one_iff.mp (of_decide_eq_true hone)
  simp only [List.all_cons, List.all_nil, Bool.and_true, Bool.and_eq_true,
    decide_eq_true_eq] at hall
  obtain ⟨⟨⟨hlength, hle⟩, hnext⟩, hoverflows⟩ := hall
  have hbreakdown := outcome_of_overflows hlength hoverflows hspec .never
  refine ⟨d, hspec, hlength, ⟨0, nofun, rfl, hle⟩, hnext, hbreakdown, ?_⟩
  rw [hbreakdown]
  simp [Outcome.breakdown]

end Domain

end Sweep
