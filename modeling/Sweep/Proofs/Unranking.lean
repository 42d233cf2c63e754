import Mathlib.Algebra.BigOperators.Group.List.Basic
import Sweep.Proofs.Enumeration

/-!
This module contains the tuples of a cursor by their numbers. A tuple is known from its number
alone, and a cursor gives them all in turn, however often its calls are cancelled in between.
-/

namespace Sweep

/-! The rows of columns by their numbers. -/

theorem getElem?_flatMap {f : α → List β} {n : Nat} {xs : List α}
    (hf : ∀ x ∈ xs, (f x).length = n) (hn : 0 < n) (i : Nat) :
    (xs.flatMap f)[i]? = xs[i / n]?.bind fun x => (f x)[i % n]? := by
  induction xs generalizing i with
  | nil => simp
  | cons x xs ih =>
    have hx := hf x List.mem_cons_self
    have hxs := ih fun y hy => hf y (List.mem_cons_of_mem x hy)
    rw [List.flatMap_cons]
    by_cases hi : i < n
    . rw [List.getElem?_append_left (by omega), Nat.div_eq_of_lt hi, Nat.mod_eq_of_lt hi]
      rfl
    . have hle : n ≤ i := by omega
      rw [List.getElem?_append_right (by omega), hx, hxs, Nat.div_eq_sub_div hn hle,
        Nat.mod_eq_sub_mod hle, List.getElem?_cons_succ]

namespace TupleMode

def stride (columns : List (List α)) (slot : Nat) : Nat :=
  ((columns.drop (slot + 1)).map List.length).prod

def place (mode : TupleMode) (columns : List (List α)) (row slot length : Nat) : Nat :=
  match mode with
  | grid => row / stride columns slot % length
  | list => row

def count (mode : TupleMode) (columns : List (List α)) : Nat :=
  match mode with
  | grid => (columns.map List.length).prod
  | list => (columns.head?.map List.length).getD 0

/--
The tuple is the row with the given number. It has a slot for every column, with a value that stands
in the column.
-/
structure IsRow (mode : TupleMode) (columns : List (List α)) (row : Nat) (tuple : List α) :
    Prop where
  length : tuple.length = columns.length
  slot : ∀ slot column, columns[slot]? = some column →
    ∃ h : place mode columns row slot column.length < column.length,
      tuple[slot]? = some (column[place mode columns row slot column.length])

theorem product_cons (xs : List α) (columns : List (List α)) :
    product (xs :: columns) = xs.flatMap fun x => (product columns).map (x :: ·) := by
  rfl

theorem length_product_cons (xs : List α) (columns : List (List α)) :
    (product (xs :: columns)).length = xs.length * (product columns).length := by
  simp only [length_product, List.map_cons, List.foldr_cons]

theorem place_grid (columns : List (List α)) (row slot length : Nat) :
    place grid columns row slot length = row / stride columns slot % length := by
  rfl

theorem stride_cons_zero (xs : List α) (columns : List (List α)) :
    stride (xs :: columns) 0 = (product columns).length := by
  rw [length_product, ← List.prod_eq_foldr]
  rfl

theorem stride_cons_succ (xs : List α) (columns : List (List α)) (slot : Nat) :
    stride (xs :: columns) (slot + 1) = stride columns slot := by
  rfl

theorem stride_mul_length_dvd {columns : List (List α)} {slot : Nat} {column : List α}
    (h : columns[slot]? = some column) :
    stride columns slot * column.length ∣ (product columns).length := by
  induction columns generalizing slot with
  | nil => contradiction
  | cons xs columns ih =>
    rw [length_product_cons]
    cases slot with
    | zero =>
      obtain rfl := Option.some.inj h
      rw [stride_cons_zero, Nat.mul_comm]
    | succ slot =>
      rw [stride_cons_succ]
      exact Dvd.dvd.mul_left (ih h) _

theorem mod_div_mod_of_dvd {m n k : Nat} (h : m * k ∣ n) (i : Nat) :
    i % n / m % k = i / m % k := by
  obtain ⟨q, rfl⟩ := h
  rw [Nat.mul_assoc, Nat.mod_mul_right_div_self, Nat.mod_mul_right_mod]

theorem exists_row_product {columns : List (List α)} {row : Nat}
    (h : row < (product columns).length) :
    ∃ tuple, (product columns)[row]? = some tuple ∧ IsRow grid columns row tuple := by
  induction columns generalizing row with
  | nil =>
    obtain rfl : row = 0 := by simpa [product] using h
    refine ⟨[], rfl, rfl, ?_⟩
    intro slot column hcolumn
    contradiction
  | cons xs columns ih =>
    rw [length_product_cons] at h
    have hpos : 0 < (product columns).length := Nat.pos_of_lt_mul_left h
    have hfirst : row / (product columns).length < xs.length := by
      apply Nat.div_lt_of_lt_mul
      rwa [Nat.mul_comm]
    -- the first column turns once in as many rows as the others make
    obtain ⟨tuple, htuple, hrow⟩ := ih (Nat.mod_lt row hpos)
    refine ⟨xs[row / (product columns).length] :: tuple, ?_, ?_, ?_⟩
    . rw [product_cons, getElem?_flatMap (n := (product columns).length) (by simp) hpos,
        List.getElem?_eq_getElem hfirst, Option.bind_some, List.getElem?_map, htuple]
      rfl
    . simp [hrow.length]
    . intro slot column hcolumn
      cases slot with
      | zero =>
        obtain rfl := Option.some.inj hcolumn
        have hplace : place grid (xs :: columns) row 0 xs.length
            = row / (product columns).length := by
          rw [place_grid, stride_cons_zero]
          exact Nat.mod_eq_of_lt hfirst
        simp only [hplace]
        exact ⟨hfirst, rfl⟩
      | succ slot =>
        have hslot : columns[slot]? = some column := hcolumn
        have hplace : place grid (xs :: columns) row (slot + 1) column.length
            = place grid columns (row % (product columns).length) slot column.length := by
          rw [place_grid, place_grid, stride_cons_succ]
          exact (mod_div_mod_of_dvd (stride_mul_length_dvd hslot) row).symm
        simp only [hplace]
        exact hrow.slot slot column hslot

theorem isRow_filterMap {columns : List (List α)} {row : Nat}
    (h : ∀ column ∈ columns, row < column.length) :
    IsRow list columns row (columns.filterMap (·[row]?)) := by
  induction columns with
  | nil => exact ⟨rfl, nofun⟩
  | cons xs columns ih =>
    have hxs := h xs List.mem_cons_self
    have hrow := ih fun column hcolumn => h column (List.mem_cons_of_mem xs hcolumn)
    have htuple : (xs :: columns).filterMap (·[row]?)
        = xs[row] :: columns.filterMap (·[row]?) := by
      exact List.filterMap_cons_some (f := (·[row]?)) (List.getElem?_eq_getElem hxs)
    rw [htuple]
    refine ⟨by simp [hrow.length], ?_⟩
    intro slot column hcolumn
    cases slot with
    | zero =>
      obtain rfl := Option.some.inj hcolumn
      exact ⟨hxs, rfl⟩
    | succ slot => exact hrow.slot slot column hcolumn

theorem isRow_table {mode : TupleMode} {columns table : List (List Float)}
    (htable : mode.table columns = .ok table) (row : Nat) (h : row < table.length) :
    IsRow mode columns row table[row] := by
  cases mode with
  | grid =>
    rw [table_grid] at htable
    split at htable
    . cases htable
      obtain ⟨tuple, htuple, hrow⟩ := exists_row_product h
      rw [List.getElem?_eq_getElem h] at htuple
      cases htuple
      exact hrow
    . contradiction
  | list =>
    rw [table_list] at htable
    split at htable
    . next hlengths =>
      cases htable
      unfold rows zipped at h ⊢
      rw [List.getElem_map, List.getElem_range]
      rw [List.length_map, List.length_range] at h
      apply isRow_filterMap
      intro column hcolumn
      cases columns with
      | nil => contradiction
      | cons xs columns =>
        rw [hlengths column hcolumn xs List.mem_cons_self]
        exact h
    . contradiction

theorem length_table {mode : TupleMode} {columns table : List (List Float)}
    (h : mode.table columns = .ok table) : table.length = mode.count columns := by
  cases mode with
  | grid =>
    rw [table_grid] at h
    split at h
    . cases h
      exact length_product columns
    . contradiction
  | list =>
    rw [table_list] at h
    split at h
    . cases h
      apply length_zipped
    . contradiction

end TupleMode

namespace Tuples

variable {t s : Tuples} {flag : CancelFlag} {rows : List (List Float)} {i : Nat}

/-! Calls of a cursor. -/

def afterCalls (t : Tuples) (flags : List CancelFlag) : Tuples :=
  flags.foldl (fun t flag => (t.call flag).2) t

def yielded (t : Tuples) : List CancelFlag → List (List Float)
  | [] => []
  | flag :: flags =>
    match t.call flag with
    | (.ok (some tuple), rest) => tuple :: rest.yielded flags
    | (_, rest) => rest.yielded flags

theorem call_of_isSet (t : Tuples) (h : flag.isSet) : t.call flag = (.error .cancelled, t) := by
  unfold call CancelFlag.check
  rw [if_pos h]

theorem call_of_not_isSet (t : Tuples) (h : ¬flag.isSet) :
    t.call flag =
      match t.next? with
      | none => (.ok none, t)
      | some (tuple, rest) => (.ok (some tuple), rest) := by
  have hcheck : flag.check = .ok flag.next := if_neg h
  cases hnext : t.next? <;> simp only [call, hcheck, hnext]

theorem afterCalls_cons (t : Tuples) (flag : CancelFlag) (flags : List CancelFlag) :
    t.afterCalls (flag :: flags) = (t.call flag).2.afterCalls flags := by
  rfl

theorem yielded_cons (t : Tuples) (flag : CancelFlag) (flags : List CancelFlag) :
    t.yielded (flag :: flags)
      =
    (t.call flag).1.toOption.join.toList ++ (t.call flag).2.yielded flags := by
  conv =>
    lhs
    unfold yielded
  rcases t.call flag with ⟨_ | _ | tuple, rest⟩ <;> rfl

structure At (rows : List (List Float)) (i : Nat) (t : Tuples) : Prop where
  total : t.total = rows.length
  emitted : t.emitted = i
  le : i ≤ rows.length
  source : t.source.Yields (rows.drop i)

theorem at_zero {cs : Columns} {mode : TupleMode} (htable : mode.table cs.values = .ok rows)
    (h : ofColumns cs mode = .ok t) : At rows 0 t := by
  obtain ⟨htotal, hemitted, hyields⟩ := yields_of_ofColumns htable h
  exact ⟨htotal, hemitted, Nat.zero_le _, hyields⟩

namespace At

theorem call_cases (h : At rows i t) (flag : CancelFlag) :
    (flag.isSet ∧ t.call flag = (.error .cancelled, t)) ∨
    (¬flag.isSet ∧ i = rows.length ∧ t.call flag = (.ok none, t)) ∨
    (¬flag.isSet ∧ ∃ (hi : i < rows.length) (rest : Tuples),
      t.call flag = (.ok (some rows[i]), rest) ∧ At rows (i + 1) rest) := by
  by_cases hset : flag.isSet
  . exact .inl ⟨hset, t.call_of_isSet hset⟩
  . right
    rw [t.call_of_not_isSet hset]
    unfold next?
    rcases Nat.lt_or_eq_of_le h.le with hi | hi
    . right
      have hsource := h.source
      rw [List.drop_eq_getElem_cons hi] at hsource
      rw [if_pos (by rw [h.emitted, h.total]; exact hi), hsource.1]
      refine ⟨hset, hi, _, rfl, h.total, ?_, hi, hsource.2⟩
      exact congrArg (· + 1) h.emitted
    . left
      rw [if_neg (by rw [h.emitted, h.total, hi]; exact Nat.lt_irrefl _)]
      exact ⟨hset, hi, rfl⟩

theorem exists_call_of_lt (h : At rows i t) (hset : ¬flag.isSet) (hi : i < rows.length) :
    ∃ rest, t.call flag = (.ok (some rows[i]), rest) := by
  rcases h.call_cases flag with ⟨hset', -⟩ | ⟨-, hall, -⟩ | ⟨-, _, rest, hcall, -⟩
  . exact absurd hset' hset
  . exact absurd hall (Nat.ne_of_lt hi)
  . exact ⟨rest, hcall⟩

theorem call_eq_none_iff (h : At rows i t) :
    (t.call flag).1 = .ok none ↔ ¬flag.isSet ∧ i = rows.length := by
  rcases h.call_cases flag with ⟨hset, hcall⟩ | ⟨hset, hall, hcall⟩ | ⟨-, hi, rest, hcall, -⟩
  . simp [hcall, hset]
  . simp [hcall, hset, hall]
  . simp [hcall, Nat.ne_of_lt hi]

theorem calls (h : At rows i t) (flags : List CancelFlag) :
    At rows (i + (t.yielded flags).length) (t.afterCalls flags) ∧
      t.yielded flags = (rows.drop i).take (flags.countP (!·.isSet)) := by
  induction flags generalizing t i with
  | nil => exact ⟨h, List.take_zero.symm⟩
  | cons flag flags ih =>
    rw [afterCalls_cons, yielded_cons, List.countP_cons]
    rcases h.call_cases flag with
      ⟨hset, hcall⟩ | ⟨hset, rfl, hcall⟩ | ⟨hset, hi, rest, hcall, hrest⟩
    . rw [hcall, if_neg (by simpa using hset)]
      exact ih h
    . rw [hcall, List.drop_length, List.take_nil]
      have hrest := ih h
      rw [List.drop_length, List.take_nil] at hrest
      exact hrest
    . obtain ⟨hat, hyielded⟩ := ih hrest
      have htake : (rows.drop i).take (flags.countP (!·.isSet) + 1)
          = rows[i] :: (rows.drop (i + 1)).take (flags.countP (!·.isSet)) := by
        rw [List.drop_eq_getElem_cons hi, List.take_succ_cons]
      rw [hcall, if_pos (by simpa using hset), htake, ← hyielded]
      refine ⟨?_, rfl⟩
      have hcount : i + (rows[i] :: rest.yielded flags).length
          = i + 1 + (rest.yielded flags).length := by
        rw [List.length_cons]
        omega
      exact hcount ▸ hat

theorem done (h : At rows rows.length t) (flags : List CancelFlag) :
    t.afterCalls flags = t ∧ t.yielded flags = [] := by
  induction flags with
  | nil => exact ⟨rfl, rfl⟩
  | cons flag flags ih =>
    rw [afterCalls_cons, yielded_cons]
    rcases h.call_cases flag with ⟨-, hcall⟩ | ⟨-, -, hcall⟩ | ⟨-, hi, -⟩
    . rw [hcall]
      exact ih
    . rw [hcall]
      exact ih
    . exact absurd hi (Nat.lt_irrefl _)

end At

/--
After any calls, a call whose flag is set fails and changes nothing, and any other one gives the
tuple whose number is that of the tuples given before, as long as there is one. The calls so far
have given the first tuples, each of them once and in order.
-/
theorem calls_unrank {cs : Columns} {mode : TupleMode} {t : Tuples}
    (h : ofColumns cs mode = .ok t) (flags : List CancelFlag) (flag : CancelFlag) :
    let given := t.yielded flags
    let now := t.afterCalls flags
    t.total = mode.count cs.values ∧
    -- the tuples that the calls have given
    given.length = min (flags.countP (!·.isSet)) t.total ∧
    (∀ i tuple, given[i]? = some tuple → mode.IsRow cs.values i tuple) ∧
    -- the next call
    (flag.isSet → now.call flag = (.error .cancelled, now)) ∧
    (¬flag.isSet → given.length < t.total →
      ∃ tuple, (now.call flag).1 = .ok (some tuple) ∧
        mode.IsRow cs.values given.length tuple) ∧
    ((now.call flag).1 = .ok none ↔ ¬flag.isSet ∧ given.length = t.total) ∧
    -- nothing happens any more once all tuples are given
    (given.length = t.total →
      ∀ later, now.afterCalls later = now ∧ now.yielded later = []) := by
  intro given now
  obtain ⟨rows, htable⟩ : ∃ rows, mode.table cs.values = .ok rows := by
    rw [ofColumns_eq] at h
    obtain ⟨rows, htable, -⟩ := map_eq_ok h
    exact ⟨rows, htable⟩
  have hzero := at_zero htable h
  have hrow := TupleMode.isRow_table htable
  obtain ⟨hnow, hgiven⟩ := hzero.calls flags
  rw [Nat.zero_add] at hnow
  rw [List.drop_zero] at hgiven
  rw [hzero.total]
  refine ⟨TupleMode.length_table htable, ?_, ?_, ?_, ?_, ?_, ?_⟩
  . show (t.yielded flags).length = _
    rw [hgiven, List.length_take]
  . intro i tuple htuple
    have htake : (rows.take (flags.countP (!·.isSet)))[i]? = some tuple := hgiven ▸ htuple
    obtain ⟨hi, rfl⟩ := List.getElem?_eq_some_iff.mp htake
    rw [List.getElem_take]
    apply hrow
  . exact now.call_of_isSet
  . intro hset hleft
    obtain ⟨rest, hcall⟩ := hnow.exists_call_of_lt hset hleft
    exact ⟨_, congrArg Prod.fst hcall, hrow _ hleft⟩
  . exact hnow.call_eq_none_iff
  . intro hall
    rw [hall] at hnow
    exact hnow.done

theorem calls_unrank_grid_interrupted :
    let cs : Columns :=
      { toList := [⟨"x", [0, 1]⟩, ⟨"y", [5]⟩, ⟨"z", [2, 3, 4]⟩] }
    let t : Tuples :=
      { total := 6, emitted := 0, source := .ofColumns .grid cs.values }
    let flags : List CancelFlag := [.never, .after 0, .never, .never, .after 0]
    ofColumns cs .grid = .ok t ∧
      ∃ tuple, ((t.afterCalls flags).call .never).1 = .ok (some tuple) ∧
        TupleMode.grid.IsRow cs.values 3 tuple := by
  intro cs t flags
  have h : ofColumns cs .grid = .ok t := by
    rfl
  obtain ⟨-, hlength, -, -, hcall, -⟩ := calls_unrank h flags .never
  have hthree : (t.yielded flags).length = 3 := hlength
  rw [hthree] at hcall
  exact ⟨h, hcall nofun (by decide)⟩

end Tuples

end Sweep
