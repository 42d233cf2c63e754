import Sweep.Proofs.Capacity
import Sweep.Proofs.Enumeration

/-!
This module contains the agreement of computations with the naive ones, in which values, assignments
and results are lists.
-/

namespace Sweep

/-! Values of variables, in slots and by name. -/

theorem bind_findIdx?_eq_lookup {columns : List Column} {row : List Float}
    (h : row.length = columns.length) (name : String) :
    (columns.findIdx? (·.name == name)).bind (row[·]?)
      =
    ((columns.map Column.name).zip row).lookup name := by
  induction columns generalizing row with
  | nil => rfl
  | cons c columns ih =>
    cases row with
    | nil => contradiction
    | cons v row =>
      have hrest := ih (Nat.succ.inj h)
      rw [List.findIdx?_cons, List.map_cons, List.zip_cons_cons, List.lookup_cons]
      by_cases hname : c.name = name
      . simp [hname]
      . have hname' : (name == c.name) = false := by
          simpa using Ne.symm hname
        rw [hname', ← hrest]
        simp only [beq_iff_eq, hname, if_false]
        cases columns.findIdx? (·.name == name) <;> rfl

namespace Node

theorem combine_eq_operate (node : Node) (op : Operator) (left right : Float) :
    node.combine op left right = node.operate op left right := by
  unfold combine operate
  split
  . rfl
  . cases op with
    | add | subtract | multiply | power => rfl
    | divide =>
      by_cases hzero : (right == 0) = true
      . rw [if_pos ⟨rfl, hzero⟩]
        exact (if_pos hzero).symm
      . rw [if_neg fun h => hzero h.2]
        exact (if_neg hzero).symm

theorem evaluate_eq_valueAt {lookup : Lookup} {row : List Float} {assignment : Assignment}
    (h : ∀ name, (lookup name).bind (row[·]?) = assignment.lookup name) (node : Node) :
    node.evaluate lookup row = node.valueAt assignment := by
  induction node with
  | const value => rfl
  | var name =>
    unfold evaluate valueAt
    cases hvalue : assignment.lookup name with
    | none => simp only [h, hvalue]
    | some value => simp only [h, hvalue]
  | binary op left right ihleft ihright =>
    unfold evaluate valueAt
    simp only [ihleft, ihright, combine_eq_operate]

end Node

namespace Naive

theorem foldlM_eq_results {blame : Expression → EvalError → AggregateError}
    {expressions : List Expression} {assign : List Float → Assignment}
    {select : Float → Float → Float} {step : Float → List Float → Except AggregateError Float}
    {rows : List (List Float)}
    (h : ∀ row ∈ rows, ∀ acc, step acc row =
      (results.valuesAt blame expressions (assign row)).map (·.foldl select acc))
    (acc : Float) :
    rows.foldlM step acc
      =
    (results blame expressions (rows.map assign)).map (·.foldl select acc) := by
  rw [foldlM_eq_mapM h, results, List.mapM_map]
  show (rows.mapM (results.valuesAt blame expressions ∘ assign)).map _ = _
  cases rows.mapM (results.valuesAt blame expressions ∘ assign) with
  | error e => rfl
  | ok values => exact congrArg Except.ok List.foldl_flatten.symm

theorem extremum_eq_valuesAt {select : Float → Float → Float} {lookup : Lookup}
    {row : List Float} {assignment : Assignment}
    (h : ∀ name, (lookup name).bind (row[·]?) = assignment.lookup name)
    (expressions : List Expression) (acc : Float) :
    Aggregate.extremum select expressions lookup acc row
      =
    (results.valuesAt (.evaluation ·.source) expressions assignment).map (·.foldl select acc) := by
  apply foldlM_eq_mapM
  intro e _ acc
  rw [Node.evaluate_eq_valueAt h]
  cases e.root.valueAt assignment <;> rfl

theorem sum_eq_valuesAt {lookup : Lookup} {row : List Float} {assignment : Assignment}
    (h : ∀ name, (lookup name).bind (row[·]?) = assignment.lookup name)
    (first : Expression) (acc : Float) :
    Aggregate.sum first lookup acc row
      =
    (results.valuesAt (fun _ => .firstExpression) [first] assignment).map
      (·.foldl (· + ·) acc) := by
  unfold Aggregate.sum results.valuesAt
  rw [Node.evaluate_eq_valueAt h, List.mapM_cons]
  cases first.root.valueAt assignment <;> rfl

/-! The naive computation never misses an expression. -/

theorem results_ne_error {blame : Expression → EvalError → AggregateError} {e : AggregateError}
    (h : ∀ expression cause, blame expression cause ≠ e) (expressions : List Expression)
    (assignments : List Assignment) : results blame expressions assignments ≠ .error e := by
  unfold results
  apply map_ne_error
  apply mapM_ne_error
  intro assignment _
  apply mapM_ne_error
  intro expression _
  apply mapError_ne_error
  apply h

theorem aggregate_ne_noExpressions (kind : AggregationKind) (expressions : List Expression)
    (assignments : List Assignment) :
    aggregate kind expressions assignments ≠ .error .noExpressions := by
  unfold aggregate
  dsimp only
  split
  . simp
  . split
    . simp
    . split
      . apply map_ne_error
        apply results_ne_error
        simp
      . apply map_ne_error
        apply results_ne_error
        simp
      . apply map_ne_error
        apply results_ne_error
        simp

theorem run_ne_noExpressions (c : Computation) (limit : Nat) :
    run c limit ≠ .error (.aggregate .noExpressions) := by
  unfold run
  apply bind_ne_error (mapError_ne_error (by simp))
  intro domains
  apply bind_ne_error (mapError_ne_error (by simp))
  intro _
  apply bind_ne_error (mapError_ne_error (by simp))
  intro columns
  apply bind_ne_error (mapError_ne_error (by simp))
  intro table
  apply bind_ne_error
  . apply mapM_ne_error
    intro source _
    apply mapError_ne_error
    simp
  . intro expressions
    dsimp only
    generalize table.map ((domains.map Domain.name).zip ·) = assignments
    have hne := aggregate_ne_noExpressions c.kind expressions assignments
    cases haggregate : aggregate c.kind expressions assignments with
    | ok value => simp
    | error e =>
      rintro ⟨⟩
      contradiction

end Naive

/-! The columns of a request and the tuples that they make. -/

namespace Columns

theorem map_name_label {ds : List Domain} {columns : List (List Float)}
    (h : columns.length = ds.length) : (label ds columns).map Column.name = ds.map Domain.name := by
  unfold label
  induction ds generalizing columns with
  | nil => rfl
  | cons d ds ih =>
    cases columns with
    | nil => contradiction
    | cons xs columns =>
      rw [List.zipWith_cons_cons, List.map_cons, List.map_cons, ih (Nat.succ.inj h)]

theorem map_values_label {ds : List Domain} {columns : List (List Float)}
    (h : columns.length = ds.length) : (label ds columns).map Column.values = columns := by
  unfold label
  induction ds generalizing columns with
  | nil => exact (List.eq_nil_of_length_eq_zero h).symm
  | cons d ds ih =>
    cases columns with
    | nil => contradiction
    | cons xs columns =>
      rw [List.zipWith_cons_cons, List.map_cons, ih (Nat.succ.inj h)]

theorem columns_of_build {ds : List Domain} {limit : Nat} {flag flag' : CancelFlag} {cs : Columns}
    (h : build ds limit flag = .ok (cs, flag')) :
    checkSizes limit [] 0 ds = .ok () ∧
      ds.mapM Domain.sequence = .ok cs.values ∧ cs.toList.map Column.name = ds.map Domain.name := by
  rcases build_polled ds limit flag with ⟨-, hcancelled⟩ | ⟨flag'', -, hwhole⟩
  . rw [hcancelled] at h
    contradiction
  . rw [hwhole] at h
    obtain ⟨cs', hcs, heq⟩ := map_eq_ok h
    cases heq
    unfold ofDomains at hcs
    obtain ⟨⟨⟩, hsizes, hcs⟩ := bind_eq_ok hcs
    obtain ⟨columns, hcolumns, rfl⟩ := map_eq_ok hcs
    have hlength := length_of_mapM hcolumns
    refine ⟨hsizes, ?_, map_name_label hlength⟩
    rw [hcolumns]
    exact congrArg Except.ok (map_values_label hlength).symm

end Columns

section Aggregate

variable {tuples : Tuples} {rows : List (List Float)} {cs : Columns}

theorem fold_eq_results {step : Float → List Float → Except AggregateError Float}
    {blame : Expression → EvalError → AggregateError} {expressions : List Expression}
    {select : Float → Float → Float} (hyields : tuples.source.Yields rows)
    (htotal : tuples.total = tuples.emitted + rows.length)
    (hrows : ∀ row ∈ rows, row.length = cs.toList.length)
    (hstep : ∀ (row : List Float) (assignment : Assignment),
      (∀ name, (cs.slot? name).bind (row[·]?) = assignment.lookup name) →
      ∀ acc, step acc row =
        (Naive.results.valuesAt blame expressions assignment).map (·.foldl select acc))
    (acc : Float) :
    tuples.fold .never step .cancelled acc
      =
    (Naive.results blame expressions (rows.map ((cs.toList.map Column.name).zip ·))).map
      (·.foldl select acc) := by
  rw [Tuples.fold_eq_foldlM hyields htotal]
  apply Naive.foldlM_eq_results
  intro row hrow
  apply hstep
  exact bind_findIdx?_eq_lookup (hrows row hrow)

theorem aggregate_eq_naive {mode : TupleMode} {expressions : List Expression}
    (htable : mode.table cs.values = .ok rows) (htuples : Tuples.ofColumns cs mode = .ok tuples)
    {kind : AggregationKind} (hexpressions : kind = .count ∨ expressions ≠ []) :
    aggregate kind tuples expressions cs.slot? .never
      =
    Naive.aggregate kind expressions (rows.map ((cs.toList.map Column.name).zip ·)) := by
  obtain ⟨htotal, hemitted, hyields⟩ := Tuples.yields_of_ofColumns htable htuples
  have hcount : tuples.total = tuples.emitted + rows.length := by
    omega
  have hempty : tuples.isEmpty = rows.isEmpty := by
    unfold Tuples.isEmpty
    rw [htotal]
    cases rows <;> rfl
  have hrows : ∀ row ∈ rows, row.length = cs.toList.length := by
    intro row hrow
    rw [TupleMode.length_of_mem_table htable row hrow]
    apply List.length_map
  cases expressions with
  | nil =>
    obtain rfl := hexpressions.resolve_right (by simp)
    unfold aggregate Naive.aggregate
    dsimp only
    rw [htotal, List.length_map]
  | cons first others =>
    unfold aggregate Naive.aggregate
    dsimp only
    rw [hempty, htotal, List.isEmpty_map, List.length_map]
    cases kind with
    | count => rfl
    | min | max =>
      dsimp only
      split
      . rfl
      . apply fold_eq_results hyields hcount hrows
        intro row assignment hlookup acc
        apply Naive.extremum_eq_valuesAt hlookup
    | avg =>
      dsimp only
      split
      . rfl
      . have hsum : tuples.fold .never (Aggregate.sum first cs.slot?) .cancelled 0
            =
          (Naive.results (fun _ => .firstExpression) [first]
            (rows.map ((cs.toList.map Column.name).zip ·))).map (·.foldl (· + ·) 0) := by
          apply fold_eq_results hyields hcount hrows
          intro row assignment hlookup acc
          apply Naive.sum_eq_valuesAt hlookup
        rw [hsum, List.take_succ_cons, List.take_zero]
        cases Naive.results (fun _ => .firstExpression) [first] _ <;> rfl

end Aggregate

/-! The requests that are accepted have an expression. -/

namespace Computation

variable {c : Computation}

theorem expressions_ne_nil_of_parse {line : String} (h : parse line = .ok c) :
    c.expressions ≠ [] := by
  unfold parse at h
  split at h
  . next header spec expression expressions _ =>
    cases hheader : parseHeader header with
    | error e =>
      rw [hheader] at h
      contradiction
    | ok kinds =>
      rw [hheader] at h
      cases h
      simp
  . contradiction

theorem parseExpressions_ne_nil {sources : List String} {expressions : List Expression}
    (h : parseExpressions sources = .ok expressions) (hsources : sources ≠ []) :
    expressions ≠ [] := by
  intro hempty
  apply hsources
  apply List.eq_nil_of_length_eq_zero
  rw [← length_of_mapM h, hempty]
  rfl

theorem finish_never_eq {c : Computation} (h : c.kind = .count ∨ c.expressions ≠ [])
    (cs : Columns) :
    c.finish cs .never = (do
      let table ← (c.mode.table cs.values).mapError .domain
      let expressions ← parseExpressions c.expressions
      let assignments := table.map ((cs.toList.map Column.name).zip ·)
      (Naive.aggregate c.kind expressions assignments).mapError .aggregate) := by
  unfold finish
  rw [ComputeError.mapError_ofDomain (Tuples.ofColumns_ne_cancelled cs c.mode)]
  cases htable : c.mode.table cs.values with
  | error e =>
    rw [Tuples.ofColumns_eq, htable]
    rfl
  | ok rows =>
    have htuples := Tuples.ofColumns_of_table htable
    rw [htuples]
    cases hexpressions : parseExpressions c.expressions with
    | error e => rfl
    | ok expressions =>
      have hne : c.kind = .count ∨ expressions ≠ [] :=
        h.imp_right (parseExpressions_ne_nil hexpressions)
      show (aggregate c.kind _ expressions cs.slot? .never).mapError ComputeError.ofAggregate = _
      rw [ComputeError.mapError_ofAggregate (aggregate_ne_cancelled _ _ _ _)]
      rw [aggregate_eq_naive htable htuples hne]
      rfl

theorem build_never_eq (ds : List Domain) (limit : Nat) :
    (Columns.build ds limit .never).mapError ComputeError.ofDomain = (do
      (Columns.checkSizes limit [] 0 ds).mapError .domain
      let columns ← (ds.mapM Domain.sequence).mapError .domain
      .ok ({ toList := Columns.label ds columns }, .never)) := by
  rw [(Columns.build_polled ds limit .never).eq_of_never]
  rw [ComputeError.mapError_ofDomain (map_ne_error (Columns.ofDomains_ne_cancelled limit ds))]
  unfold Columns.ofDomains
  cases Columns.checkSizes limit [] 0 ds with
  | error e => rfl
  | ok _ => cases ds.mapM Domain.sequence <;> rfl

theorem run_never_eq {c : Computation} (h : c.kind = .count ∨ c.expressions ≠ []) (limit : Nat) :
    c.run limit .never = Naive.run c limit := by
  rw [run_eq]
  unfold Naive.run
  rw [ComputeError.mapError_ofDomain (Domain.parseSpec_ne_cancelled c.spec)]
  cases Domain.parseSpec c.spec with
  | error e => rfl
  | ok ds =>
    simp only [mapError_ok, bind_ok]
    rw [build_never_eq]
    cases Columns.checkSizes limit [] 0 ds with
    | error e => rfl
    | ok _ =>
      cases hcolumns : ds.mapM Domain.sequence with
      | error e => rfl
      | ok columns =>
        have hlength := length_of_mapM hcolumns
        have hfinish := finish_never_eq h { toList := Columns.label ds columns }
        unfold Columns.values at hfinish
        rw [Columns.map_name_label hlength, Columns.map_values_label hlength] at hfinish
        exact hfinish

theorem run_ne_ok_of_nil {c : Computation} (hkind : c.kind ≠ .count) (h : c.expressions = [])
    (limit : Nat) (flag : CancelFlag) (value : Float) : c.run limit flag ≠ .ok value := by
  intro hrun
  unfold run at hrun
  obtain ⟨domains, -, hrun⟩ := bind_eq_ok hrun
  obtain ⟨⟨columns, flag⟩, -, hrun⟩ := bind_eq_ok hrun
  obtain ⟨tuples, -, hrun⟩ := bind_eq_ok hrun
  obtain ⟨expressions, hexpressions, hrun⟩ := bind_eq_ok hrun
  rw [h] at hexpressions
  cases hexpressions
  have haggregate := mapError_eq_ok hrun
  unfold aggregate at haggregate
  cases hc : c.kind with
  | count => contradiction
  | min | max | avg =>
    rw [hc] at haggregate
    contradiction

theorem run_ne_noExpressions {line : String} (h : parse line = .ok c) (limit : Nat)
    (flag : CancelFlag) : c.run limit flag ≠ .error (.aggregate .noExpressions) := by
  rcases c.run_cases limit flag with hrun | hrun
  . rw [hrun, run_never_eq (.inr (expressions_ne_nil_of_parse h))]
    apply Naive.run_ne_noExpressions
  . rw [hrun]
    simp

/--
The worker of an accepted request comes to what the naive computation gives, unless there is no room
for the values of a variable. Since the request has an expression, it is never refused for having
none.
-/
theorem outcome_eq_naive {line : String} (h : parse line = .ok c) (limit : Nat) :
    (¬Naive.Overflows c limit → c.outcome limit .never = Naive.run c limit) ∧
    -- the worker breaks down only if the limit allows for values that there cannot be room for
    (Naive.Overflows c limit → c.outcome limit .never = .breakdown "N" "capacity overflow") ∧
    (limit < 1152921504606846975 → ¬Naive.Overflows c limit) ∧
    ∀ flag, c.outcome limit flag ≠ .error (.aggregate .noExpressions) := by
  refine ⟨?_, outcome_of_overflows, not_overflows_of_limit_lt, ?_⟩
  . intro hroom
    rw [outcome_of_not_overflows hroom]
    exact run_never_eq (.inr (expressions_ne_nil_of_parse h)) limit
  . intro flag
    unfold outcome
    split
    . simp [Outcome.breakdown]
    . exact run_ne_noExpressions h limit flag

theorem outcome_eq_naive_avg_list :
    let average : Computation :=
      { kind := .avg, mode := .list, spec := "x:0:1:2,y:1:2:5", expressions := ["(x+y)", "x"] }
    let least : Computation :=
      { kind := .min, mode := .grid, spec := "x:0:1:2,y:1:2:5", expressions := ["(x*y)", "(x-y)"] }
    parse "AVG_LIST;x:0:1:2,y:1:2:5;(x+y);x" = .ok average ∧
      parse "MIN_GRID;x:0:1:2,y:1:2:5;(x*y);(x-y)" = .ok least ∧
      average.outcome 100 .never = .ok 4 ∧ least.outcome 100 .never = .ok (-5) := by
  intro average least
  have haverage : parse "AVG_LIST;x:0:1:2,y:1:2:5;(x+y);x" = .ok average := by
    rfl
  have hleast : parse "MIN_GRID;x:0:1:2,y:1:2:5;(x*y);(x-y)" = .ok least := by
    rfl
  obtain ⟨haverage', -, hroom, -⟩ := outcome_eq_naive haverage 100
  obtain ⟨hleast', -, hroom', -⟩ := outcome_eq_naive hleast 100
  refine ⟨haverage, hleast, ?_, ?_⟩
  . rw [haverage' (hroom (by decide))]
    exact eq_ok_of_any_toOption (by decide +kernel)
  . rw [hleast' (hroom' (by decide))]
    exact eq_ok_of_any_toOption (by decide +kernel)

theorem outcome_ne_naive_count_grid :
    let c : Computation :=
      { kind := .count, mode := .grid, spec := "x:-inf:inf:0", expressions := ["x"] }
    parse "COUNT_GRID;x:-inf:inf:0;x" = .ok c ∧ Naive.run c maxCount = .ok 1 ∧
      c.outcome maxCount .never = .breakdown "N" "capacity overflow" := by
  intro c
  have hvalue : (Naive.run c maxCount).toOption.any (· = 1) = true := by
    decide +kernel
  have hbreaks : c.breaksDown maxCount .never = true := by
    decide +kernel
  exact ⟨rfl, eq_ok_of_any_toOption hvalue, if_pos hbreaks⟩

end Computation

end Sweep
