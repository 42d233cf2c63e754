import Sweep.Proofs.Ascent
import Sweep.Proofs.Evaluation
import Sweep.Proofs.Refinement

/-!
This module contains the results that are not numbers. The least value, the greatest value and the
number of tuples are always numbers, but an average is not if infinities of both signs meet in its
sum.
-/

namespace Sweep

open Grammar (Derives)

/-! Values of trees. -/

namespace Node

variable {t : Node} {value : Float} {assignment : Assignment}

theorem not_isNaN_of_valueAt {cs : List Char} (ht : Derives cs t)
    (hassignment : ∀ v ∈ assignment.map Prod.snd, v.isNaN = false)
    (h : t.valueAt assignment = .ok value) : value.isNaN = false := by
  cases ht with
  | number hnumeral =>
    cases h
    exact not_isNaN_of_numeral hnumeral
  | @identifier _ name _ =>
    unfold valueAt at h
    cases hlookup : assignment.lookup name with
    | none =>
      rw [hlookup] at h
      contradiction
    | some v =>
      rw [hlookup] at h
      cases h
      obtain ⟨before, after, rfl, -⟩ := List.lookup_eq_some_iff.mp hlookup
      apply hassignment
      simp
  | operation op hleft hright =>
    unfold valueAt at h
    obtain ⟨leftValue, -, h⟩ := bind_eq_ok h
    obtain ⟨rightValue, -, h⟩ := bind_eq_ok h
    rw [← combine_eq_operate] at h
    exact not_isNaN_of_combine h

end Node

namespace Naive

variable {c : Computation} {limit : Nat} {value : Float}

theorem not_isNaN_of_results {blame : Expression → EvalError → AggregateError}
    {expressions : List Expression} {assignments : List Assignment} {values : List Float}
    (hexpressions : ∀ e ∈ expressions, ∃ cs, Derives cs e.root)
    (hassignments : ∀ a ∈ assignments, ∀ v ∈ a.map Prod.snd, v.isNaN = false)
    (h : results blame expressions assignments = .ok values) :
    ∀ v ∈ values, v.isNaN = false := by
  unfold results at h
  obtain ⟨rows, hrows, rfl⟩ := map_eq_ok h
  intro v hv
  obtain ⟨row, hrow, hv⟩ := List.mem_flatten.mp hv
  obtain ⟨a, ha, hrow⟩ := exists_of_mem_mapM hrows hrow
  unfold results.valuesAt at hrow
  obtain ⟨e, he, hvalue⟩ := exists_of_mem_mapM hrow hv
  obtain ⟨cs, hderives⟩ := hexpressions e he
  exact Node.not_isNaN_of_valueAt hderives (hassignments a ha) (mapError_eq_ok hvalue)

def summands (c : Computation) : Except ComputeError (List Float) := do
  let domains ← (Domain.parseSpec c.spec).mapError .domain
  let columns ← (domains.mapM Domain.sequence).mapError .domain
  let table ← (c.mode.table columns).mapError .domain
  let expressions ← Computation.parseExpressions c.expressions
  let assignments := table.map ((domains.map Domain.name).zip ·)
  (results (fun _ => .firstExpression) (expressions.take 1) assignments).mapError .aggregate

structure Numeric (expressions : List Expression) (assignments : List Assignment) : Prop where
  derives : ∀ e ∈ expressions, ∃ cs, Derives cs e.root
  numbers : ∀ a ∈ assignments, ∀ v ∈ a.map Prod.snd, v.isNaN = false
  length_lt : assignments.length < 18446744073709551616

theorem numeric_of_parse {domains : List Domain} {columns table : List (List Float)}
    {expressions : List Expression} (hcolumns : domains.mapM Domain.sequence = .ok columns)
    (htable : c.mode.table columns = .ok table)
    (hexpressions : Computation.parseExpressions c.expressions = .ok expressions) :
    Numeric expressions (table.map ((domains.map Domain.name).zip ·)) := by
  constructor
  . intro e he
    obtain ⟨source, -, hparse⟩ := exists_of_mem_mapM hexpressions he
    exact ⟨_, (Expression.derives_of_parse (mapError_eq_ok hparse)).1⟩
  . intro a ha v hv
    obtain ⟨row, hrow, rfl⟩ := List.mem_map.mp ha
    obtain ⟨⟨name, v⟩, hmem, rfl⟩ := List.mem_map.mp hv
    obtain ⟨xs, hxs, hv⟩ := TupleMode.mem_of_mem_table htable row hrow v (List.of_mem_zip hmem).2
    obtain ⟨d, -, hsequence⟩ := exists_of_mem_mapM hcolumns hxs
    exact Domain.not_isNaN_of_sequence hsequence v hv
  . rw [List.length_map]
    apply TupleMode.length_lt_of_table htable
    intro xs hxs
    obtain ⟨d, -, hsequence⟩ := exists_of_mem_mapM hcolumns hxs
    exact Domain.length_lt_of_sequence hsequence

theorem run_eq_ok (h : run c limit = .ok value) :
    ∃ expressions assignments,
      Numeric expressions assignments ∧
      summands c =
        (results (fun _ => .firstExpression) (expressions.take 1) assignments).mapError
          .aggregate ∧
      aggregate c.kind expressions assignments = .ok value := by
  unfold run at h
  obtain ⟨domains, hdomains, h⟩ := bind_eq_ok h
  obtain ⟨_, -, h⟩ := bind_eq_ok h
  obtain ⟨columns, hcolumns, h⟩ := bind_eq_ok h
  obtain ⟨table, htable, h⟩ := bind_eq_ok h
  obtain ⟨expressions, hexpressions, h⟩ := bind_eq_ok h
  refine ⟨expressions, _, ?_, ?_, mapError_eq_ok h⟩
  . exact numeric_of_parse (mapError_eq_ok hcolumns) (mapError_eq_ok htable) hexpressions
  . unfold summands
    rw [hdomains, bind_ok, hcolumns, bind_ok, htable, bind_ok, hexpressions, bind_ok]

variable {expressions : List Expression} {assignments : List Assignment}

theorem not_isNaN_of_aggregate {kind : AggregationKind} (hkind : kind ≠ .avg)
    (hnumeric : Numeric expressions assignments)
    (h : aggregate kind expressions assignments = .ok value) : value.isNaN = false := by
  unfold aggregate at h
  cases kind with
  | avg => contradiction
  | count =>
    cases h
    apply Number.isNaN_toFloat
  | min =>
    dsimp only at h
    split at h
    . contradiction
    . obtain ⟨values, hvalues, rfl⟩ := map_eq_ok h
      apply Aggregate.isNaN_foldl @Aggregate.isNaN_lesser
      . exact not_isNaN_of_results hnumeric.derives hnumeric.numbers hvalues
      . rfl
  | max =>
    dsimp only at h
    split at h
    . contradiction
    . obtain ⟨values, hvalues, rfl⟩ := map_eq_ok h
      apply Aggregate.isNaN_foldl @Aggregate.isNaN_greater
      . exact not_isNaN_of_results hnumeric.derives hnumeric.numbers hvalues
      . rfl

theorem isNaN_of_aggregate_avg (hnumeric : Numeric expressions assignments)
    (h : aggregate .avg expressions assignments = .ok value) :
    ∃ values,
      results (fun _ => .firstExpression) (expressions.take 1) assignments = .ok values ∧
      (value.isNaN = true ↔ ∃ before x after, values = before ++ x :: after ∧
        Number.Opposed (before.foldl (· + ·) 0) x) := by
  unfold aggregate at h
  dsimp only at h
  split at h
  . contradiction
  . next hempty =>
    obtain ⟨values, hvalues, rfl⟩ := map_eq_ok h
    have hlength : 0 < assignments.length.toUInt64.toNat := by
      have hne : 0 < assignments.length := by
        rw [List.length_pos_iff]
        simpa using hempty
      have := hnumeric.length_lt
      simp
      omega
    refine ⟨values, hvalues, ?_⟩
    rw [Number.isNaN_div_toFloat hlength]
    apply Number.isNaN_foldl_add_iff
    . rfl
    . apply not_isNaN_of_results _ hnumeric.numbers hvalues
      intro e he
      exact hnumeric.derives e (List.mem_of_mem_take he)

end Naive

namespace Computation

/--
A result that is not a number is an average whose summands, added up from the left, come to an
infinity just before the opposite one. No other request has such a result.
-/
theorem isNaN_run_iff {line : String} {c : Computation} {limit : Nat} {flag : CancelFlag}
    {value : Float} (h : parse line = .ok c) (hrun : c.run limit flag = .ok value) :
    value.isNaN = true ↔
      c.kind = .avg ∧ ∃ before x after, Naive.summands c = .ok (before ++ x :: after) ∧
        Number.Opposed (before.foldl (· + ·) 0) x := by
  rcases c.run_cases limit flag with hnever | hcancelled
  . rw [hnever, run_never_eq (.inr (expressions_ne_nil_of_parse h))] at hrun
    obtain ⟨expressions, assignments, hnumeric, hsummands, haggregate⟩ := Naive.run_eq_ok hrun
    by_cases hkind : c.kind = .avg
    . rw [hkind] at haggregate
      obtain ⟨values, hvalues, hvalue⟩ := Naive.isNaN_of_aggregate_avg hnumeric haggregate
      rw [hvalue, hsummands, hvalues]
      simp [hkind]
    . rw [Naive.not_isNaN_of_aggregate hkind hnumeric haggregate]
      simp [hkind]
  . rw [hcancelled] at hrun
    contradiction

theorem summands_opposed_avg_list :
    let c : Computation :=
      { kind := .avg, mode := .list, spec := "x:-1e307:2e307:1e307", expressions := ["(x*100)"] }
    parse "AVG_LIST;x:-1e307:2e307:1e307;(x*100)" = .ok c ∧
      ∃ value, c.run 10 (.after 5) = .ok value ∧
        ∃ before x after, Naive.summands c = .ok (before ++ x :: after) ∧
          Number.Opposed (before.foldl (· + ·) 0) x := by
  intro c
  have hparse : parse "AVG_LIST;x:-1e307:2e307:1e307;(x*100)" = .ok c := by
    rfl
  have hnan : (c.run 10 (.after 5)).toOption.any Float.isNaN = true := by
    decide +kernel
  obtain ⟨value, hrun, hvalue⟩ := exists_of_any_toOption hnan
  exact ⟨hparse, value, hrun, ((isNaN_run_iff hparse hrun).mp hvalue).2⟩

theorem isNaN_run_avg_grid :
    let c : Computation :=
      { kind := .avg, mode := .grid, spec := "x:-1e307:2e307:1e307", expressions := ["(x*100)"] }
    parse "AVG_GRID;x:-1e307:2e307:1e307;(x*100)" = .ok c ∧
      ∃ value, c.run 10 .never = .ok value ∧ value.isNaN = true := by
  intro c
  have hnan : (c.run 10 .never).toOption.any Float.isNaN = true := by
    decide +kernel
  exact ⟨rfl, exists_of_any_toOption hnan⟩

end Computation

end Sweep
