import Mathlib.Data.List.ProdSigma
import Sweep.Proofs.Enumeration
import Sweep.Proofs.Evaluation
import Sweep.Proofs.Extremes

/-!
This module contains the least and the greatest value that expressions have on the tuples of a
cursor: no value is beyond them, both are such values, and the first expression that fails decides
the error.
-/

namespace Sweep

namespace Aggregate

variable {t : Tuples} {expressions : List Expression} {lookup : Lookup} {values : List Float}
  {value : Float}

def Evaluated (t : Tuples) (expressions : List Expression) (lookup : Lookup) (value : Float) :
    Prop :=
  ∃ row ∈ t.upcoming, ∃ e ∈ expressions, e.root.evaluate lookup row = .ok value

inductive Culprit (lookup : Lookup) : List Float × Expression → AggregateError → Prop
  | intro {row : List Float} {e : Expression} {source : String} {cause : EvalError}
    (hparse : Expression.parse source = .ok e) (hcause : e.root.evaluate lookup row = .error cause) :
    Culprit lookup (row, e) (.evaluation source cause)

/-! The loop over tuples and the loop over expressions as one. -/

def outcome (lookup : Lookup) (p : List Float × Expression) : Except AggregateError Float :=
  (p.2.root.evaluate lookup p.1).mapError (.evaluation p.2.source)

def outcomes (t : Tuples) (expressions : List Expression) (lookup : Lookup) :
    Except AggregateError (List Float) :=
  (t.upcoming ×ˢ expressions).mapM (outcome lookup)

theorem extremum_eq {select : Float → Float → Float} (acc : Float) (row : List Float) :
    extremum select expressions lookup acc row
      =
    expressions.foldlM (fun acc e => (outcome lookup (row, e)).map (select acc)) acc := by
  unfold extremum
  congr
  funext acc e
  unfold outcome
  cases e.root.evaluate lookup row <;> rfl

theorem foldlM_product {f : σ → α × β → Except ε σ} (xs : List α) (ys : List β) (acc : σ) :
    (xs ×ˢ ys).foldlM f acc
      =
    xs.foldlM (fun acc x => ys.foldlM (fun acc y => f acc (x, y)) acc) acc := by
  induction xs generalizing acc with
  | nil => rfl
  | cons x xs ih =>
    rw [List.product_cons, List.foldlM_append, List.foldlM_map, List.foldlM_cons]
    congr
    funext acc'
    exact ih acc'

theorem fold_extremum (t : Tuples) (expressions : List Expression) (lookup : Lookup)
    (select : Float → Float → Float) (start : Float) :
    t.fold .never (extremum select expressions lookup) .cancelled start
      =
    (outcomes t expressions lookup).map (·.foldl select start) := by
  have hloops : t.upcoming.foldlM (extremum select expressions lookup) start
      = (t.upcoming ×ˢ expressions).foldlM (fun acc p => (outcome lookup p).map (select acc))
          start := by
    rw [foldlM_product]
    congr
    funext acc row
    exact extremum_eq acc row
  rw [Tuples.fold_never_eq, hloops]
  exact foldlM_eq_mapM (fun _ _ _ => rfl) start

theorem aggregate_eq_outcomes (ht : t.upcoming ≠ []) (hexpressions : expressions ≠ [])
    (lookup : Lookup) :
    aggregate .min t expressions lookup .never
      = (outcomes t expressions lookup).map (·.foldl lesser Number.infinity) ∧
    aggregate .max t expressions lookup .never
      = (outcomes t expressions lookup).map (·.foldl greater (-Number.infinity)) := by
  have hempty : ¬t.isEmpty = true := by
    unfold Tuples.isEmpty
    have := Tuples.upcoming_ne_nil_iff.mp ht
    rw [beq_iff_eq]
    omega
  cases expressions with
  | nil => contradiction
  | cons first others =>
    unfold aggregate
    dsimp only
    rw [if_neg hempty, if_neg hempty, fold_extremum, fold_extremum]
    exact ⟨rfl, rfl⟩

/-! Values. -/

theorem mem_outcomes_iff (h : outcomes t expressions lookup = .ok values) :
    value ∈ values ↔ Evaluated t expressions lookup value := by
  constructor
  . intro hvalue
    obtain ⟨⟨row, e⟩, hmem, houtcome⟩ := exists_of_mem_mapM h hvalue
    obtain ⟨hrow, he⟩ := List.mem_product.mp hmem
    exact ⟨row, hrow, e, he, mapError_eq_ok houtcome⟩
  . rintro ⟨row, hrow, e, he, hvalue⟩
    obtain ⟨value', hmem, houtcome⟩ := exists_mem_of_mapM h (List.mem_product.mpr ⟨hrow, he⟩)
    rw [outcome, hvalue] at houtcome
    cases houtcome
    exact hmem

theorem outcomes_ne_nil (ht : t.upcoming ≠ []) (hexpressions : expressions ≠ [])
    (h : outcomes t expressions lookup = .ok values) : values ≠ [] := by
  obtain ⟨row, hrow⟩ := List.exists_mem_of_ne_nil _ ht
  obtain ⟨e, he⟩ := List.exists_mem_of_ne_nil _ hexpressions
  obtain ⟨value, hvalue, -⟩ := exists_mem_of_mapM h (List.mem_product.mpr ⟨hrow, he⟩)
  exact List.ne_nil_of_mem hvalue

structure Aggregable (t : Tuples) (expressions : List Expression) : Prop where
  upcoming_ne_nil : t.upcoming ≠ []
  numbers : ∀ row ∈ t.upcoming, ∀ x ∈ row, x.isNaN = false
  expressions_ne_nil : expressions ≠ []
  parsed : ∀ e ∈ expressions, ∃ source, Expression.parse source = .ok e

theorem not_isNaN_of_outcomes (h : Aggregable t expressions)
    (hvalues : outcomes t expressions lookup = .ok values) :
    ∀ value ∈ values, value.isNaN = false := by
  intro value hmem
  obtain ⟨row, hrow, e, he, hvalue⟩ := (mem_outcomes_iff hvalues).mp hmem
  obtain ⟨source, hparse⟩ := h.parsed e he
  exact Node.not_isNaN_of_evaluate (Expression.derives_of_parse hparse).1 (h.numbers row hrow)
    hvalue

theorem extremum_spec (h : Aggregable t expressions)
    (hvalues : outcomes t expressions lookup = .ok values) {select : Float → Float → Float}
    {before : Float → Float → Prop} (hselect : Prefers select before) {start : Float}
    (hstart : start.isNaN = false) (hlast : ∀ x, x.isNaN = false → before x start) :
    (∀ v, Evaluated t expressions lookup v → before (values.foldl select start) v) ∧
      ∃ v, Evaluated t expressions lookup v ∧ (values.foldl select start == v) = true := by
  have hnumbers := not_isNaN_of_outcomes h hvalues
  have hne := outcomes_ne_nil h.upcoming_ne_nil h.expressions_ne_nil hvalues
  constructor
  . intro v hv
    apply hselect.foldl_before hnumbers hstart v
    exact List.mem_cons_of_mem start ((mem_outcomes_iff hvalues).mpr hv)
  . obtain ⟨v, hv, heq⟩ := hselect.foldl_attained hnumbers hstart hlast hne
    exact ⟨v, (mem_outcomes_iff hvalues).mp hv, heq⟩

/-! Errors. -/

theorem outcome_eq_error_iff {row : List Float} {e : Expression} {error : AggregateError}
    (hparsed : ∃ source, Expression.parse source = .ok e) :
    outcome lookup (row, e) = .error error ↔ Culprit lookup (row, e) error := by
  obtain ⟨source, hparse⟩ := hparsed
  unfold outcome
  constructor
  . intro h
    cases hcause : e.root.evaluate lookup row with
    | ok value =>
      rw [hcause] at h
      contradiction
    | error cause =>
      rw [hcause] at h
      cases h
      rw [(Expression.derives_of_parse hparse).2.2]
      exact .intro hparse hcause
  . intro h
    cases h with
    | intro hparse' hcause =>
      rw [hcause, (Expression.derives_of_parse hparse').2.2]
      rfl

theorem failsFirst_outcomes (h : Aggregable t expressions) :
    FailsFirst (Culprit lookup) (t.upcoming ×ˢ expressions)
      (outcomes t expressions lookup) := by
  intro error
  rw [outcomes, failsFirst_mapM (outcome lookup) (t.upcoming ×ˢ expressions) error]
  apply first_congr
  rintro ⟨row, e⟩ hmem error
  exact outcome_eq_error_iff (h.parsed e (List.mem_product.mp hmem).2)

theorem isOk_outcomes_iff (h : Aggregable t expressions) :
    (∃ values, outcomes t expressions lookup = .ok values) ↔
      ∀ row ∈ t.upcoming, ∀ e ∈ expressions, ∃ value, e.root.evaluate lookup row = .ok value := by
  constructor
  . rintro ⟨values, hvalues⟩ row hrow e he
    obtain ⟨value, -, houtcome⟩ :=
      exists_mem_of_mapM hvalues (List.mem_product.mpr ⟨hrow, he⟩)
    exact ⟨value, mapError_eq_ok houtcome⟩
  . intro hall
    rw [(failsFirst_outcomes h).isOk_iff]
    rintro ⟨row, e⟩ hmem error hculprit
    obtain ⟨hrow, he⟩ := List.mem_product.mp hmem
    obtain ⟨value, hvalue⟩ := hall row hrow e he
    cases hculprit with
    | intro _ hcause =>
      rw [hvalue] at hcause
      contradiction

end Aggregate

open Aggregate (Aggregable Evaluated Culprit)

section

variable {t : Tuples} {expressions : List Expression} {lookup : Lookup} {least greatest : Float}

theorem aggregate_min_spec (h : Aggregable t expressions)
    (hleast : aggregate .min t expressions lookup .never = .ok least) :
    (∀ v, Evaluated t expressions lookup v → least ≤ v) ∧
      ∃ v, Evaluated t expressions lookup v ∧ (least == v) = true := by
  rw [(Aggregate.aggregate_eq_outcomes h.upcoming_ne_nil h.expressions_ne_nil lookup).1] at hleast
  obtain ⟨values, hvalues, rfl⟩ := map_eq_ok hleast
  apply Aggregate.extremum_spec h hvalues Aggregate.prefers_lesser
  . rfl
  . intro x hx
    exact Number.le_infinity hx

theorem aggregate_max_spec (h : Aggregable t expressions)
    (hgreatest : aggregate .max t expressions lookup .never = .ok greatest) :
    (∀ v, Evaluated t expressions lookup v → v ≤ greatest) ∧
      ∃ v, Evaluated t expressions lookup v ∧ (greatest == v) = true := by
  rw [(Aggregate.aggregate_eq_outcomes h.upcoming_ne_nil h.expressions_ne_nil lookup).2]
    at hgreatest
  obtain ⟨values, hvalues, rfl⟩ := map_eq_ok hgreatest
  apply Aggregate.extremum_spec h hvalues Aggregate.prefers_greater
  . rfl
  . intro x hx
    exact Number.neg_infinity_le hx

theorem aggregate_extremum_failure (h : Aggregable t expressions) {kind : AggregationKind}
    (hkind : kind = .min ∨ kind = .max) :
    ((∃ value, aggregate kind t expressions lookup .never = .ok value) ↔
      ∀ row ∈ t.upcoming, ∀ e ∈ expressions, ∃ value, e.root.evaluate lookup row = .ok value) ∧
    FailsFirst (Culprit lookup) (t.upcoming ×ˢ expressions)
      (aggregate kind t expressions lookup .never) := by
  obtain ⟨hmin, hmax⟩ :=
    Aggregate.aggregate_eq_outcomes h.upcoming_ne_nil h.expressions_ne_nil lookup
  rcases hkind with rfl | rfl
  . rw [hmin, isOk_map_iff]
    exact ⟨Aggregate.isOk_outcomes_iff h, (Aggregate.failsFirst_outcomes h).map⟩
  . rw [hmax, isOk_map_iff]
    exact ⟨Aggregate.isOk_outcomes_iff h, (Aggregate.failsFirst_outcomes h).map⟩

/--
The least and the greatest value are there if and only if every expression has a value on every
tuple. They are bounds of all these values, and they are such values themselves. Otherwise the first
expression that fails decides the error, tuple by tuple.
-/
theorem aggregate_extrema (h : Aggregable t expressions) (lookup : Lookup) :
    (∀ kind, kind = .min ∨ kind = .max →
      ((∃ value, aggregate kind t expressions lookup .never = .ok value) ↔
        ∀ row ∈ t.upcoming, ∀ e ∈ expressions, ∃ value, e.root.evaluate lookup row = .ok value) ∧
      ∀ error, aggregate kind t expressions lookup .never = .error error ↔
        First (Culprit lookup) (t.upcoming ×ˢ expressions) error) ∧
    (∀ least, aggregate .min t expressions lookup .never = .ok least →
      (∀ v, Evaluated t expressions lookup v → least ≤ v) ∧
        ∃ v, Evaluated t expressions lookup v ∧ (least == v) = true) ∧
    (∀ greatest, aggregate .max t expressions lookup .never = .ok greatest →
      (∀ v, Evaluated t expressions lookup v → v ≤ greatest) ∧
        ∃ v, Evaluated t expressions lookup v ∧ (greatest == v) = true) ∧
    (∀ least greatest, aggregate .min t expressions lookup .never = .ok least →
      aggregate .max t expressions lookup .never = .ok greatest → least ≤ greatest) := by
  refine ⟨?_, ?_, ?_, ?_⟩
  . intro kind hkind
    exact aggregate_extremum_failure h hkind
  . intro least hleast
    exact aggregate_min_spec h hleast
  . intro greatest hgreatest
    exact aggregate_max_spec h hgreatest
  . intro least greatest hleast hgreatest
    obtain ⟨hlower, v, hv, -⟩ := aggregate_min_spec h hleast
    obtain ⟨hupper, -⟩ := aggregate_max_spec h hgreatest
    exact Number.le_trans (hlower v hv) (hupper v hv)

theorem aggregate_extrema_rows :
    let t : Tuples := { total := 2, emitted := 0, source := .rows [[1.5, -2.5], [-2.5, 0.5]] }
    let root : Node := .binary .multiply (.var "x") (.var "y")
    let e : Expression := { root, source := "(x * y)" }
    let lookup : Lookup := fun name => ["x", "y"].idxOf? name
    Aggregable t [e] ∧ ∃ least greatest, aggregate .min t [e] lookup .never = .ok least ∧
      aggregate .max t [e] lookup .never = .ok greatest ∧ least ≤ greatest := by
  intro t root e lookup
  have hparse : Expression.parse "(x * y)" = .ok e := by
    rfl
  have hupcoming : t.upcoming = [[1.5, -2.5], [-2.5, 0.5]] := by
    apply Tuples.upcoming_of_yields _ rfl
    exact ⟨rfl, rfl, trivial⟩
  have h : Aggregable t [e] := by
    constructor
    . rw [hupcoming]
      exact List.cons_ne_nil _ _
    . rw [hupcoming]
      decide +kernel
    . exact List.cons_ne_nil _ _
    . simpa using ⟨_, hparse⟩
  have hall : ∀ row ∈ t.upcoming, ∀ e' ∈ [e], ∃ value, e'.root.evaluate lookup row = .ok value := by
    rw [hupcoming]
    simp only [List.forall_mem_cons, List.not_mem_nil, false_implies, implies_true, and_true]
    exact ⟨⟨_, rfl⟩, ⟨_, rfl⟩⟩
  obtain ⟨hkinds, -, -, hle⟩ := aggregate_extrema h lookup
  obtain ⟨least, hleast⟩ := (hkinds .min (.inl rfl)).1.mpr hall
  obtain ⟨greatest, hgreatest⟩ := (hkinds .max (.inr rfl)).1.mpr hall
  exact ⟨h, least, greatest, hleast, hgreatest, hle least greatest hleast hgreatest⟩

end

end Sweep
