import Sweep.Proofs.Folding

/-!
This module contains the tuples that a cursor makes. The wheels of a grid show its rows in their
order and the columns of a list give its rows from the front, so that a fold over a cursor is the
fold over the rows.
-/

namespace Sweep

namespace TupleMode

theorem product_of_mem_nil {columns : List (List α)} (h : [] ∈ columns) :
    product columns = [] := by
  induction columns with
  | nil => contradiction
  | cons xs columns ih =>
    rcases List.mem_cons.mp h with rfl | h
    . rfl
    . simp [product, ih h]

theorem table_grid (columns : List (List Float)) :
    table .grid columns =
      if (product columns).length ≤ maxCount then
        .ok (product columns)
      else
        .error .tooManyTuples := by
  rfl

theorem table_list (columns : List (List Float)) :
    table .list columns =
      if ∀ xs ∈ columns, ∀ ys ∈ columns, xs.length = ys.length then
        .ok (rows .list columns)
      else
        .error .unequalLengths := by
  rfl

theorem length_of_mem_table {mode : TupleMode} {columns rows : List (List Float)}
    (h : table mode columns = .ok rows) : ∀ row ∈ rows, row.length = columns.length := by
  intro row hrow
  cases mode with
  | grid =>
    rw [table_grid] at h
    split at h
    . cases h
      exact length_of_mem_product hrow
    . contradiction
  | list =>
    rw [table_list] at h
    split at h
    . next hlengths =>
      cases h
      apply length_of_mem_zipped _ hrow
      cases columns with
      | nil => exact nofun
      | cons ys columns =>
        intro xs hxs
        exact hlengths xs hxs ys List.mem_cons_self
    . contradiction

end TupleMode

open TupleMode (product zipped rows table table_grid table_list product_of_mem_nil)

namespace Wheel

variable {w : Wheel} {ws : List Wheel}

def column (w : Wheel) : List Float :=
  w.first :: w.others

def upcoming : List Wheel → List (List Float)
  | [] => [[]]
  | w :: ws =>
    (upcoming ws).map (w.current :: ·) ++
      w.later.flatMap fun v => (product (ws.map column)).map (v :: ·)

theorem column_of_turn? {w' : Wheel} (h : w.turn? = some w') : w'.column = w.column := by
  unfold turn? at h
  split at h
  . contradiction
  . cases h
    rfl

theorem map_column_of_advance? {ws' : List Wheel} (h : advance? ws = some ws') :
    ws'.map column = ws.map column := by
  induction ws generalizing ws' with
  | nil => contradiction
  | cons w ws ih =>
    unfold advance? at h
    split at h
    . next hrest =>
      cases h
      rw [List.map_cons, List.map_cons, ih hrest]
    . obtain ⟨w', hturn, rfl⟩ := Option.map_eq_some_iff.mp h
      rw [List.map_cons, List.map_cons, column_of_turn? hturn, List.map_map]
      rfl

theorem upcoming_reset (ws : List Wheel) : upcoming (ws.map reset) = product (ws.map column) := by
  induction ws with
  | nil => rfl
  | cons w ws ih =>
    simp only [List.map_cons, upcoming, ih, product, List.map_map]
    rfl

theorem upcoming_eq (ws : List Wheel) :
    upcoming ws = ws.map current :: ((advance? ws).map upcoming).getD [] := by
  induction ws with
  | nil => rfl
  | cons w ws ih =>
    unfold advance?
    cases hrest : advance? ws with
    | some ws' =>
      -- the first wheel stays, so its part of the rows is that of the others
      rw [hrest] at ih
      simp only [upcoming, ih, Option.map_some, Option.getD_some, List.map_cons, List.cons_append,
        map_column_of_advance? hrest]
    | none =>
      rw [hrest] at ih
      cases hlater : w.later with
      | nil => simp [upcoming, ih, turn?, hlater]
      | cons v vs =>
        -- the first wheel turns and the others begin again
        have hcolumns : (ws.map reset).map column = ws.map column := by
          rw [List.map_map]
          rfl
        simp [upcoming, ih, turn?, hlater, upcoming_reset, hcolumns]

theorem upcoming_ofColumn? {columns : List (List Float)} (h : ∀ xs ∈ columns, xs ≠ []) :
    upcoming (columns.filterMap ofColumn?) = product columns ∧
      (columns.filterMap ofColumn?).map column = columns := by
  induction columns with
  | nil => exact ⟨rfl, rfl⟩
  | cons xs columns ih =>
    have hrest := ih fun ys hys => h ys (List.mem_cons_of_mem xs hys)
    cases xs with
    | nil =>
      have := h [] List.mem_cons_self
      contradiction
    | cons v vs =>
      simp [ofColumn?, upcoming, product, hrest.1, hrest.2, column]

end Wheel

namespace TupleSource

def Yields (s : TupleSource) : List (List Float) → Prop
  | [] => True
  | row :: rest => s.tuple = row ∧ s.next.Yields rest

theorem next_wheels (ws : List Wheel) :
    (wheels ws).next = wheels ((Wheel.advance? ws).getD ws) := by
  rfl

theorem yields_wheels (ws : List Wheel) : (wheels ws).Yields (Wheel.upcoming ws) := by
  rw [Wheel.upcoming_eq]
  refine ⟨rfl, ?_⟩
  rw [next_wheels]
  cases hadvance : Wheel.advance? ws with
  | none => trivial
  | some ws' =>
    have hlength : (Wheel.upcoming ws').length < (Wheel.upcoming ws).length := by
      rw [Wheel.upcoming_eq ws, hadvance]
      simp
    exact yields_wheels ws'
termination_by (Wheel.upcoming ws).length

theorem zipped_succ (length : Nat) (columns : List (List Float)) :
    zipped (length + 1) columns
      =
    columns.filterMap List.head? :: zipped length (columns.map List.tail) := by
  have hfirst : (fun xs : List Float => xs[0]?) = List.head? := by
    funext xs
    exact List.head?_eq_getElem?.symm
  have hlater : ∀ i, (fun xs : List Float => xs[i + 1]?) = (·[i]?) ∘ List.tail := by
    intro i
    funext xs
    exact List.getElem?_tail.symm
  unfold zipped
  rw [List.range_succ_eq_map, List.map_cons, List.map_map, hfirst]
  congr
  funext i
  simp [hlater, List.filterMap_map]

theorem yields_rows (length : Nat) (columns : List (List Float)) :
    (TupleSource.rows columns).Yields (zipped length columns) := by
  induction length generalizing columns with
  | zero => trivial
  | succ n ih =>
    rw [zipped_succ]
    exact ⟨rfl, ih _⟩

end TupleSource

namespace Columns

/-! The number of tuples. -/

theorem foldr_mul_pos {lengths : List Nat} (h : ∀ n ∈ lengths, 0 < n) :
    0 < lengths.foldr (· * ·) 1 := by
  induction lengths with
  | nil => exact Nat.one_pos
  | cons n ns ih =>
    apply Nat.mul_pos
    . exact h n List.mem_cons_self
    . apply ih
      intro m hm
      exact h m (List.mem_cons_of_mem n hm)

theorem product?_eq {lengths : List Nat} (h : ∀ n ∈ lengths, 0 < n) :
    product? lengths
      =
    if lengths.foldr (· * ·) 1 ≤ maxCount then some (lengths.foldr (· * ·) 1) else none := by
  have hone : 1 ≤ maxCount := by
    decide
  have hgo := go 1 hone lengths h
  rw [Nat.one_mul] at hgo
  exact hgo
where
  go (acc : Nat) (hacc : acc ≤ maxCount) (lengths : List Nat) (h : ∀ n ∈ lengths, 0 < n) :
      lengths.foldlM (fun n length => if n * length ≤ maxCount then some (n * length) else none) acc
        =
      if acc * lengths.foldr (· * ·) 1 ≤ maxCount then
        some (acc * lengths.foldr (· * ·) 1)
      else
        none := by
    induction lengths generalizing acc with
    | nil => simp [hacc]
    | cons n ns ih =>
      have hns := fun m hm => h m (List.mem_cons_of_mem n hm)
      have hpos := foldr_mul_pos hns
      rw [List.foldlM_cons, List.foldr_cons, ← Nat.mul_assoc]
      -- no factor makes the product smaller, so it stays too large once it is
      by_cases hn : acc * n ≤ maxCount
      . rw [if_pos hn]
        exact ih (acc * n) hn hns
      . rw [if_neg hn, if_neg]
        . rfl
        . intro hle
          apply hn
          exact Nat.le_trans (Nat.le_mul_of_pos_right _ hpos) hle

theorem tupleCount_grid (cs : Columns) :
    cs.tupleCount .grid = (table .grid cs.values).map List.length := by
  rw [table_grid]
  unfold tupleCount
  dsimp only
  by_cases hempty : [] ∈ cs.values
  . have hany : cs.values.any List.isEmpty = true := by
      simpa using hempty
    rw [if_pos hany, product_of_mem_nil hempty]
    rfl
  . have hany : ¬cs.values.any List.isEmpty = true := by
      simpa using hempty
    have hpos : ∀ n ∈ cs.values.map List.length, 0 < n := by
      intro n hn
      obtain ⟨xs, hxs, rfl⟩ := List.mem_map.mp hn
      apply List.length_pos_iff.mpr
      rintro rfl
      exact hempty hxs
    rw [if_neg hany, product?_eq hpos, ← TupleMode.length_product]
    by_cases hle : (product cs.values).length ≤ maxCount
    . rw [if_pos hle, if_pos hle]
      rfl
    . rw [if_neg hle, if_neg hle]
      rfl

theorem tupleCount_list (cs : Columns) :
    cs.tupleCount .list = (table .list cs.values).map List.length := by
  have hrows : (rows .list cs.values).length = (cs.values.head?.map List.length).getD 0 := by
    apply TupleMode.length_zipped
  have hall : (∀ xs ∈ cs.values, ∀ ys ∈ cs.values, xs.length = ys.length) ↔
      cs.values.all (·.length == (cs.values.head?.map List.length).getD 0) = true := by
    cases cs.values with
    | nil => simp
    | cons zs columns =>
      rw [List.all_eq_true]
      constructor
      . intro h xs hxs
        simpa using h xs hxs zs List.mem_cons_self
      . intro h xs hxs ys hys
        have hx : xs.length = zs.length := by
          simpa using h xs hxs
        have hy : ys.length = zs.length := by
          simpa using h ys hys
        rw [hx, hy]
  rw [table_list]
  unfold tupleCount
  dsimp only
  by_cases h : ∀ xs ∈ cs.values, ∀ ys ∈ cs.values, xs.length = ys.length
  . rw [if_pos (hall.mp h), if_pos h, ← hrows]
    rfl
  . rw [if_neg (h ∘ hall.mpr), if_neg h]
    rfl

theorem tupleCount_eq (cs : Columns) (mode : TupleMode) :
    cs.tupleCount mode = (table mode cs.values).map List.length := by
  cases mode with
  | grid => exact cs.tupleCount_grid
  | list => exact cs.tupleCount_list

end Columns

namespace Tuples

variable {t : Tuples} {step : σ → List Float → Except ε σ} {cancelled : ε}

theorem ofColumns_eq (cs : Columns) (mode : TupleMode) :
    ofColumns cs mode = (table mode cs.values).map fun rows =>
      { total := rows.length, emitted := 0, source := .ofColumns mode cs.values } := by
  unfold ofColumns
  rw [cs.tupleCount_eq mode]
  cases table mode cs.values <;> rfl

theorem ofColumns_of_table {cs : Columns} {mode : TupleMode} {rows : List (List Float)}
    (h : table mode cs.values = .ok rows) :
    ofColumns cs mode =
      .ok { total := rows.length, emitted := 0, source := .ofColumns mode cs.values } := by
  rw [ofColumns_eq, h]
  rfl

theorem yields_of_table {mode : TupleMode} {columns rows : List (List Float)}
    (h : table mode columns = .ok rows) : (TupleSource.ofColumns mode columns).Yields rows := by
  cases mode with
  | grid =>
    rw [table_grid] at h
    split at h
    . cases h
      by_cases hempty : [] ∈ columns
      . rw [product_of_mem_nil hempty]
        trivial
      . have hne : ∀ xs ∈ columns, xs ≠ [] := by
          rintro xs hxs rfl
          exact hempty hxs
        rw [← (Wheel.upcoming_ofColumn? hne).1]
        apply TupleSource.yields_wheels
    . contradiction
  | list =>
    rw [table_list] at h
    split at h
    . cases h
      apply TupleSource.yields_rows
    . contradiction

theorem yields_of_ofColumns {cs : Columns} {mode : TupleMode} {rows : List (List Float)}
    (htable : table mode cs.values = .ok rows) (h : ofColumns cs mode = .ok t) :
    t.total = rows.length ∧ t.emitted = 0 ∧ t.source.Yields rows := by
  rw [ofColumns_of_table htable] at h
  cases h
  exact ⟨rfl, rfl, yields_of_table htable⟩

theorem upcoming_of_yields {rows : List (List Float)} (h : t.source.Yields rows)
    (htotal : t.total = t.emitted + rows.length) : t.upcoming = rows := by
  induction rows generalizing t with
  | nil =>
    have hnext : t.next? = none := by
      unfold next?
      rw [if_neg]
      rw [htotal]
      exact Nat.lt_irrefl _
    exact upcoming_none hnext
  | cons row rows ih =>
    obtain ⟨rfl, hrest⟩ := h
    rw [List.length_cons] at htotal
    have hnext : t.next? = some (t.source.tuple,
        { t with emitted := t.emitted + 1, source := t.source.next }) := by
      unfold next?
      rw [if_pos]
      omega
    rw [upcoming_some hnext, ih hrest]
    dsimp only
    omega

theorem fold_eq_foldlM {rows : List (List Float)} (h : t.source.Yields rows)
    (htotal : t.total = t.emitted + rows.length) (acc : σ) :
    t.fold .never step cancelled acc = rows.foldlM step acc := by
  rw [fold_never_eq, upcoming_of_yields h htotal]

end Tuples

end Sweep
