import Sweep.Proofs.Ascent
import Sweep.Proofs.Refinement
import Sweep.Proofs.Wholes

/-!
This module contains the number of tuples of a request: the product of the sizes of its columns for
a grid, and the size that they have in common for a list. The answer to the question for it is the
number of 64 bits that is nearest to it.
-/

namespace Sweep

open TupleMode (product table table_grid table_list)

namespace TupleMode

inductive Totals : TupleMode → List Nat → Nat → Prop
  | grid (sizes : List Nat) : Totals grid sizes sizes.prod
  -- the columns of a list have one size in common, and without columns there are no rows
  | list {sizes : List Nat} {n : Nat} (hsizes : ∀ size ∈ sizes, size = n)
    (hnil : sizes = [] → n = 0) : Totals list sizes n

variable {sizes : List Nat} {n : Nat}

theorem totals_list_iff :
    Totals list sizes n ↔ (∀ size ∈ sizes, size = n) ∧ (sizes = [] → n = 0) := by
  constructor
  . rintro ⟨⟩
    constructor <;> assumption
  . rintro ⟨hsizes, hnil⟩
    exact .list hsizes hnil

theorem length_product_eq (columns : List (List Float)) :
    (product columns).length = (columns.map List.length).prod := by
  rw [length_product, List.prod_eq_foldr]

end TupleMode

namespace Columns

variable {cs cs' : Columns} {n : Nat}

def sizes (cs : Columns) : List Nat :=
  cs.values.map List.length

/-! The number of tuples of columns. -/

theorem tupleCount_grid_eq (cs : Columns) :
    cs.tupleCount .grid =
      if cs.sizes.prod ≤ maxCount then .ok cs.sizes.prod else .error .tooManyTuples := by
  have hlength : (product cs.values).length = cs.sizes.prod := TupleMode.length_product_eq _
  rw [tupleCount_grid, table_grid, hlength]
  split
  . rw [map_ok, hlength]
  . rfl

theorem prod_sizes_of_mem_nil (h : [] ∈ cs.values) : cs.sizes.prod = 0 := by
  rw [List.prod_eq_zero_iff]
  exact List.mem_map_of_mem h

theorem tupleCount_grid_perm (h : cs'.toList.Perm cs.toList) :
    cs'.tupleCount .grid = cs.tupleCount .grid := by
  have hprod : cs'.sizes.prod = cs.sizes.prod := ((h.map _).map _).prod_eq
  rw [tupleCount_grid_eq, tupleCount_grid_eq, hprod]

theorem tupleCount_list_eq (cs : Columns) :
    cs.tupleCount .list =
      if ∀ a ∈ cs.sizes, ∀ b ∈ cs.sizes, a = b then
        .ok (cs.sizes.head?.getD 0)
      else
        .error .unequalLengths := by
  have hsizes : (∀ a ∈ cs.sizes, ∀ b ∈ cs.sizes, a = b) ↔
      ∀ xs ∈ cs.values, ∀ ys ∈ cs.values, xs.length = ys.length := by
    unfold sizes
    simp only [List.forall_mem_map]
  have hlength : (TupleMode.rows .list cs.values).length = cs.sizes.head?.getD 0 := by
    unfold sizes
    rw [List.head?_map]
    apply TupleMode.length_zipped
  rw [tupleCount_list, table_list]
  simp only [hsizes]
  split
  . rw [map_ok, hlength]
  . rfl

theorem tupleCount_list_eq_ok_iff :
    cs.tupleCount .list = .ok n ↔ TupleMode.Totals .list cs.sizes n := by
  rw [tupleCount_list_eq, TupleMode.totals_list_iff]
  cases cs.sizes with
  | nil => simp [eq_comm]
  | cons size sizes =>
    simp only [List.head?_cons, Option.getD_some, reduceCtorEq, false_implies, and_true]
    split
    . next hsizes =>
      rw [Except.ok.injEq]
      constructor
      . rintro rfl a ha
        exact hsizes a ha size List.mem_cons_self
      . intro h
        exact h size List.mem_cons_self
    . next hsizes =>
      simp only [reduceCtorEq, false_iff]
      intro h
      apply hsizes
      intro a ha b hb
      rw [h a ha, h b hb]

theorem totals_of_tupleCount {mode : TupleMode} (h : cs.tupleCount mode = .ok n) :
    mode.Totals cs.sizes n := by
  cases mode with
  | grid =>
    rw [tupleCount_grid_eq] at h
    split at h
    . cases h
      exact .grid _
    . contradiction
  | list => exact tupleCount_list_eq_ok_iff.mp h

theorem tupleCount_list_eq_error_iff :
    cs.tupleCount .list = .error .unequalLengths ↔ ∃ a ∈ cs.sizes, ∃ b ∈ cs.sizes, a ≠ b := by
  rw [tupleCount_list_eq]
  split
  . next hsizes =>
    simp only [reduceCtorEq, false_iff]
    rintro ⟨a, ha, b, hb, hne⟩
    exact hne (hsizes a ha b hb)
  . next hsizes => simpa using hsizes

/--
The tuples of a grid are counted exactly, unless the whole product of the sizes is too large, and
the order of the columns does not matter. A list has as many tuples as each of its columns has
values, unless two columns differ in size.
-/
theorem tupleCount_exact (cs : Columns) :
    ([] ∈ cs.values → cs.tupleCount .grid = .ok 0) ∧
    (cs.sizes.prod ≤ maxCount → cs.tupleCount .grid = .ok cs.sizes.prod) ∧
    (cs.tupleCount .grid = .error .tooManyTuples ↔ maxCount < cs.sizes.prod) ∧
    (∀ cs' : Columns, cs'.toList.Perm cs.toList → cs'.tupleCount .grid = cs.tupleCount .grid) ∧
    (cs.tupleCount .list = .error .unequalLengths ↔ ∃ a ∈ cs.sizes, ∃ b ∈ cs.sizes, a ≠ b) ∧
    (∀ n, cs.tupleCount .list = .ok n ↔ TupleMode.Totals .list cs.sizes n) := by
  refine ⟨?_, ?_, ?_, ?_, tupleCount_list_eq_error_iff, fun n => tupleCount_list_eq_ok_iff⟩
  . intro hnil
    rw [tupleCount_grid_eq, prod_sizes_of_mem_nil hnil, if_pos (Nat.zero_le _)]
  . intro hle
    rw [tupleCount_grid_eq, if_pos hle]
  . rw [tupleCount_grid_eq]
    split
    . next hle => simpa using hle
    . next hle => simpa using hle
  . intro cs' h
    exact tupleCount_grid_perm h

end Columns

/-! The number of tuples of a request. -/

namespace Naive

variable {c : Computation} {limit : Nat} {value : Float} {domains : List Domain}
  {columns : List (List Float)}

def sizes (c : Computation) : Except DomainError (List Nat) := do
  let domains ← Domain.parseSpec c.spec
  let columns ← domains.mapM Domain.sequence
  .ok (columns.map List.length)

theorem sizes_eq (hdomains : Domain.parseSpec c.spec = .ok domains)
    (hcolumns : domains.mapM Domain.sequence = .ok columns) :
    sizes c = .ok (columns.map List.length) := by
  unfold sizes
  rw [hdomains, bind_ok, hcolumns, bind_ok]

theorem totals_of_table {mode : TupleMode} {tuples : List (List Float)}
    (hcolumns : domains.mapM Domain.sequence = .ok columns)
    (htable : table mode columns = .ok tuples) :
    mode.Totals (columns.map List.length) tuples.length := by
  have hvalues := Columns.map_values_label (length_of_mapM hcolumns)
  have hcount :=
    Columns.tupleCount_eq { toList := Columns.label domains columns } mode
  unfold Columns.values at hcount
  rw [hvalues, htable, map_ok] at hcount
  have htotals := Columns.totals_of_tupleCount hcount
  unfold Columns.sizes Columns.values at htotals
  rwa [hvalues] at htotals

theorem exists_total_of_run (hkind : c.kind = .count) (h : run c limit = .ok value) :
    ∃ lengths n, sizes c = .ok lengths ∧ c.mode.Totals lengths n ∧ n < 18446744073709551616 ∧
      value = n.toUInt64.toFloat := by
  unfold run at h
  obtain ⟨domains, hdomains, h⟩ := bind_eq_ok h
  obtain ⟨_, -, h⟩ := bind_eq_ok h
  obtain ⟨columns, hcolumns, h⟩ := bind_eq_ok h
  obtain ⟨tuples, htable, h⟩ := bind_eq_ok h
  obtain ⟨expressions, -, h⟩ := bind_eq_ok h
  have hcolumns := mapError_eq_ok hcolumns
  have htable := mapError_eq_ok htable
  refine ⟨_, tuples.length, sizes_eq (mapError_eq_ok hdomains) hcolumns,
    totals_of_table hcolumns htable, ?_, ?_⟩
  . apply TupleMode.length_lt_of_table htable
    intro xs hxs
    obtain ⟨d, -, hsequence⟩ := exists_of_mem_mapM hcolumns hxs
    exact Domain.length_lt_of_sequence hsequence
  . have haggregate := mapError_eq_ok h
    rw [hkind] at haggregate
    cases haggregate
    rw [List.length_map]

end Naive

namespace Computation

variable {c : Computation} {limit : Nat} {flag : CancelFlag} {value : Float}

theorem exists_total_of_run (hkind : c.kind = .count) (h : c.run limit flag = .ok value) :
    ∃ lengths n, Naive.sizes c = .ok lengths ∧ c.mode.Totals lengths n ∧
      n < 18446744073709551616 ∧ value = n.toUInt64.toFloat := by
  rcases c.run_cases limit flag with hnever | hcancelled
  . rw [hnever, run_never_eq (.inl hkind)] at h
    exact Naive.exists_total_of_run hkind h
  . rw [hcancelled] at h
    contradiction

/--
The answer to the question for the number of tuples is the nearest number of 64 bits. It is exact if
and only if there is such a number, as there is up to `2 ^ 53`.
-/
theorem toRat_run_count (hkind : c.kind = .count) (hrun : c.run limit flag = .ok value) :
    ∃ sizes n, Naive.sizes c = .ok sizes ∧ c.mode.Totals sizes n ∧ n ≤ maxCount ∧
      value.isFinite ∧ Number.toRat value = Rounding.nearest n ∧
      (Number.toRat value = n ↔ Rounding.Representable n) ∧
      (n ≤ 2 ^ 53 → Number.toRat value = n) := by
  obtain ⟨sizes, n, hsizes, htotals, hlt, rfl⟩ := exists_total_of_run hkind hrun
  obtain ⟨hfinite, hnearest⟩ := Number.toRat_toFloat_eq_nearest hlt
  have hexact : Rounding.Representable n → Number.toRat n.toUInt64.toFloat = n := by
    intro hn
    rw [hnearest, Rounding.nearest_of_representable hn]
  refine ⟨sizes, n, hsizes, htotals, Nat.le_of_lt_succ hlt, hfinite, hnearest, ⟨?_, hexact⟩, ?_⟩
  . intro heq
    rw [← heq]
    exact Number.representable_toRat _
  . intro hle
    exact hexact (Rounding.representable_natCast hle)

theorem toRat_run_count_list :
    let c : Computation :=
      { kind := .count, mode := .list, spec := "x:0:0.1:1,y:1:1:11", expressions := ["(x/y)"] }
    c.kind = .count ∧ ∃ value, c.run 22 (.after 22) = .ok value ∧
      ∃ sizes n, Naive.sizes c = .ok sizes ∧ c.mode.Totals sizes n ∧
        (n ≤ 2 ^ 53 → Number.toRat value = n) := by
  intro c
  have hrun : (c.run 22 (.after 22)).toOption.any (· == 11) = true := by
    decide +kernel
  obtain ⟨value, hrun, -⟩ := exists_of_any_toOption hrun
  obtain ⟨sizes, n, hsizes, htotals, -, -, -, -, hexact⟩ := toRat_run_count (c := c) rfl hrun
  exact ⟨rfl, value, hrun, sizes, n, hsizes, htotals, hexact⟩

theorem run_count_grid {domains : List Domain} {columns : List (List Float)}
    {expressions : List Expression} (hkind : c.kind = .count) (hmode : c.mode = .grid)
    (hdomains : Domain.parseSpec c.spec = .ok domains)
    (hcheck : Columns.checkSizes limit [] 0 domains = .ok ())
    (hcolumns : domains.mapM Domain.sequence = .ok columns)
    (hle : (columns.map List.length).prod ≤ maxCount)
    (hexpressions : parseExpressions c.expressions = .ok expressions) :
    c.run limit .never = .ok (columns.map List.length).prod.toUInt64.toFloat := by
  have htable : table .grid columns = .ok (product columns) := by
    rw [table_grid, TupleMode.length_product_eq, if_pos hle]
  rw [run_never_eq (.inl hkind)]
  unfold Naive.run
  rw [hdomains, mapError_ok, bind_ok, hcheck, mapError_ok, bind_ok, hcolumns, mapError_ok, bind_ok,
    hmode, htable, mapError_ok, bind_ok, hexpressions, bind_ok, hkind]
  dsimp only [Naive.aggregate]
  rw [mapError_ok, List.length_map, TupleMode.length_product_eq]

theorem toRat_run_count_grid :
    let c : Computation := {
      kind := .count
      mode := .grid
      spec := "a:0:1:6,b:0:1:6,c:0:1:6,d:0:1:6,e:0:1:6,f:0:1:6,g:0:1:6,h:0:1:6,i:0:1:6,j:0:1:6," ++
        "k:0:1:6,l:0:1:6,m:0:1:6,n:0:1:6,o:0:1:6,p:0:1:6,q:0:1:6,r:0:1:6,s:0:1:6"
      expressions := ["a"]
    }
    parse ("COUNT_GRID;" ++ c.spec ++ ";a") = .ok c ∧ Naive.sizes c = .ok (List.replicate 19 7) ∧
      (List.replicate 19 7).prod = 11398895185373143 ∧
      ∃ value, c.run 133 .never = .ok value ∧ Number.toRat value = 11398895185373144 := by
  intro c
  have hparse : (parse ("COUNT_GRID;" ++ c.spec ++ ";a")).toOption.any (· == c) = true := by
    decide +kernel
  have hsizes : ((Domain.parseSpec c.spec).toOption.any fun domains =>
      (Columns.checkSizes 133 [] 0 domains).toOption.any fun _ =>
        (domains.mapM Domain.sequence).toOption.any fun columns =>
          columns.map List.length == List.replicate 19 7) = true := by
    decide +kernel
  have hprod : (List.replicate 19 7).prod = 11398895185373143 := by
    norm_num
  have heven : Rounding.Representable (11398895185373144 : Nat) := by
    have := Rounding.representable_mul_two_zpow (m := 5699447592686572) (e := 1) (by norm_num)
      (by norm_num)
    norm_num at this ⊢
    exact this
  obtain ⟨c', hparse, hc'⟩ := exists_of_any_toOption hparse
  obtain ⟨domains, hdomains, hsizes⟩ := exists_of_any_toOption hsizes
  obtain ⟨_, hcheck, hsizes⟩ := exists_of_any_toOption hsizes
  obtain ⟨columns, hcolumns, hlengths⟩ := exists_of_any_toOption hsizes
  rw [beq_iff_eq] at hc' hlengths
  have hle : (columns.map List.length).prod ≤ maxCount := by
    rw [hlengths, hprod]
    decide
  obtain ⟨expressions, hexpressions⟩ : ∃ es, parseExpressions c.expressions = .ok es := ⟨_, rfl⟩
  have hrun := run_count_grid (c := c) rfl rfl hdomains hcheck hcolumns hle hexpressions
  rw [hlengths, hprod] at hrun
  refine ⟨?_, ?_, hprod, _, hrun, ?_⟩
  . rw [hparse, hc']
  . rw [Naive.sizes_eq hdomains hcolumns, hlengths]
  . have hrounded : (11398895185373143 : Nat).toUInt64.toFloat =
        (11398895185373144 : Nat).toUInt64.toFloat := by
      rfl
    rw [hrounded, (Number.toRat_toFloat_eq_nearest (by norm_num)).2,
      Rounding.nearest_of_representable heven]
    norm_num

end Computation

end Sweep
