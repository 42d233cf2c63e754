import Mathlib
import Sweep.Proofs.Outcomes
import Sweep.Tuples.Basic

/-!
This module contains what the check of the sizes of domains comes down to: names that are different,
no domain that is too large, and no more values in total than the limit allows. The error of a check
that fails is that of the first domain which is refused behind the ones before it.
-/

namespace Sweep

theorem Domain.estimatedLength_le (d : Domain) : d.estimatedLength ≤ maxCount := by
  unfold estimatedLength
  split
  . apply Nat.zero_le
  . dsimp only
    split
    . exact Nat.le_of_lt_succ (UInt64.toNat_lt _)
    . exact Nat.le_refl maxCount

namespace Columns

variable {limit : Nat} {ds ds' : List Domain}

def estimatedTotal (ds : List Domain) : Nat :=
  (ds.map Domain.estimatedLength).sum

theorem min_add_min (total length rest : Nat) :
    min (min (total + length) maxCount + rest) maxCount
      =
    min (total + (length + rest)) maxCount := by
  omega

theorem checkSizes_eq_ok_iff {seen : List String} {total : Nat}
    (htotal : min total maxCount ≤ limit) :
    checkSizes limit seen total ds = .ok () ↔
      (ds.map Domain.name).Nodup ∧ (∀ d ∈ ds, d.name ∉ seen) ∧
      (∀ d ∈ ds, d.estimatedLength ≤ limit) ∧
      min (total + estimatedTotal ds) maxCount ≤ limit := by
  induction ds generalizing seen total with
  | nil => simpa [checkSizes, estimatedTotal] using htotal
  | cons d ds ih =>
    have hsum : estimatedTotal (d :: ds) = d.estimatedLength + estimatedTotal ds := by
      simp [estimatedTotal]
    unfold checkSizes
    split
    . next hseen => simp [hseen]
    . next hseen =>
      split
      . next hlarge =>
        simp only [reduceCtorEq, false_iff]
        rintro ⟨-, -, hlengths, -⟩
        have := hlengths d List.mem_cons_self
        omega
      . next hlarge =>
        dsimp only
        split
        . next hexceeded =>
          simp only [reduceCtorEq, false_iff]
          rintro ⟨-, -, -, hle⟩
          rw [hsum] at hle
          omega
        . next hexceeded =>
          rw [ih (by omega), min_add_min, ← hsum, List.map_cons, List.nodup_cons]
          simp only [List.mem_cons, forall_eq_or_imp, List.mem_map]
          constructor
          . rintro ⟨hnodup, hnames, hlengths, hle⟩
            refine ⟨⟨?_, hnodup⟩, ⟨hseen, ?_⟩, ⟨Nat.not_lt.mp hlarge, hlengths⟩, hle⟩
            . rintro ⟨d', hd', hname⟩
              exact hnames d' hd' (.inl hname)
            . intro d' hd' hmem
              exact hnames d' hd' (.inr hmem)
          . rintro ⟨⟨hname, hnodup⟩, ⟨-, hnames⟩, ⟨-, hlengths⟩, hle⟩
            refine ⟨hnodup, ?_, hlengths, hle⟩
            rintro d' hd' (heq | hmem)
            . exact hname ⟨d', hd', heq⟩
            . exact hnames d' hd' hmem

theorem checkSizes_nil_eq_ok_iff :
    checkSizes limit [] 0 ds = .ok () ↔
      (ds.map Domain.name).Nodup ∧ (∀ d ∈ ds, d.estimatedLength ≤ limit) ∧
      min (estimatedTotal ds) maxCount ≤ limit := by
  rw [checkSizes_eq_ok_iff (by omega), Nat.zero_add]
  simp

theorem checkSizes_perm (h : ds.Perm ds') :
    checkSizes limit [] 0 ds = .ok () ↔ checkSizes limit [] 0 ds' = .ok () := by
  have htotal : estimatedTotal ds = estimatedTotal ds' := (h.map _).sum_eq
  have hlengths : (∀ d ∈ ds, d.estimatedLength ≤ limit) ↔
      ∀ d ∈ ds', d.estimatedLength ≤ limit := by
    simp only [h.mem_iff]
  rw [checkSizes_nil_eq_ok_iff, checkSizes_nil_eq_ok_iff, (h.map _).nodup_iff, htotal, hlengths]

/-! The first domain that is refused. -/

inductive Refuses (limit : Nat) (before : List Domain) (d : Domain) : DomainError → Prop
  | duplicate (hname : d.name ∈ before.map Domain.name) :
    Refuses limit before d (.duplicateVariable d.name)
  | tooLarge (hname : d.name ∉ before.map Domain.name) (hlength : limit < d.estimatedLength) :
    Refuses limit before d (.tooLarge d.name limit)
  | totalTooLarge (hname : d.name ∉ before.map Domain.name) (hlength : d.estimatedLength ≤ limit)
    (hlimit : limit < maxCount) (htotal : limit < estimatedTotal before + d.estimatedLength) :
    Refuses limit before d (.totalTooLarge limit)

def RefusedAt (limit : Nat) (ds : List Domain) (slot : Nat) (e : DomainError) : Prop :=
  ∃ d, ds[slot]? = some d ∧ Refuses limit (ds.take slot) d e

variable {before : List Domain} {d : Domain} {seen : List String} {total : Nat}
  {e e' : DomainError}

theorem Refuses.unique (h : Refuses limit before d e) (h' : Refuses limit before d e') :
    e = e' := by
  cases h with
  | duplicate hname =>
    cases h' with
    | duplicate => rfl
    | _ => contradiction
  | tooLarge hname hlength =>
    cases h' with
    | tooLarge => rfl
    | duplicate => contradiction
    | totalTooLarge => omega
  | totalTooLarge hname hlength =>
    cases h' with
    | totalTooLarge => rfl
    | duplicate => contradiction
    | tooLarge => omega

theorem Refuses.error_eq_iff {p : Prop} (h : Refuses limit before d e') :
    (Except.error e' : Except DomainError Unit) = .error e ↔
      Refuses limit before d e ∨ (∀ e, ¬Refuses limit before d e) ∧ p := by
  constructor
  . intro heq
    cases heq
    exact .inl h
  . rintro (h' | ⟨hnone, -⟩)
    . rw [h'.unique h]
    . exact absurd h (hnone e')

theorem refusedAt_length :
    RefusedAt limit (before ++ d :: ds) before.length e ↔ Refuses limit before d e := by
  simp [RefusedAt]

theorem estimatedTotal_append_singleton (before : List Domain) (d : Domain) :
    estimatedTotal (before ++ [d]) = estimatedTotal before + d.estimatedLength := by
  simp [estimatedTotal]

theorem checkSizes_cons_eq_error_iff (hseen : ∀ name, name ∈ seen ↔ name ∈ before.map Domain.name)
    (htotal : total = min (estimatedTotal before) maxCount) :
    checkSizes limit seen total (d :: ds) = .error e ↔
      Refuses limit before d e ∨ (∀ e, ¬Refuses limit before d e) ∧
        checkSizes limit (d.name :: seen) (min (total + d.estimatedLength) maxCount) ds
          =
        .error e := by
  have hle := d.estimatedLength_le
  rw [checkSizes]
  dsimp only
  split
  . next hname =>
    rw [hseen] at hname
    exact (Refuses.duplicate hname).error_eq_iff
  . next hname =>
    rw [hseen] at hname
    split
    . next hlarge => exact (Refuses.tooLarge hname hlarge).error_eq_iff
    . next hlarge =>
      split
      . next hexceeded =>
        have hrefuses : Refuses limit before d (.totalTooLarge limit) := by
          apply Refuses.totalTooLarge hname
          all_goals omega
        exact hrefuses.error_eq_iff
      . next hexceeded =>
        have hnone : ∀ e, ¬Refuses limit before d e := by
          rintro _ (hname' | ⟨-, hlarge'⟩ | ⟨-, -, hlimit, hexceeded'⟩)
          . contradiction
          . contradiction
          . omega
        simp only [hnone, not_false_eq_true, implies_true, true_and, false_or]

theorem checkSizes_eq_error_iff (hseen : ∀ name, name ∈ seen ↔ name ∈ before.map Domain.name)
    (htotal : total = min (estimatedTotal before) maxCount) :
    checkSizes limit seen total ds = .error e ↔
      First (RefusedAt limit (before ++ ds)) (List.range' before.length ds.length) e := by
  induction ds generalizing before seen total with
  | nil => simp [checkSizes, not_first_nil]
  | cons d ds ih =>
    have hseen' : ∀ name, name ∈ d.name :: seen ↔ name ∈ (before ++ [d]).map Domain.name := by
      intro name
      simp only [List.mem_cons, hseen, List.map_append, List.mem_append, List.map_cons,
        List.map_nil, List.not_mem_nil, or_false]
      exact or_comm
    have htotal' : min (total + d.estimatedLength) maxCount =
        min (estimatedTotal (before ++ [d])) maxCount := by
      rw [estimatedTotal_append_singleton]
      omega
    have hrest := ih hseen' htotal'
    rw [List.append_assoc, List.singleton_append, List.length_append, List.length_singleton]
      at hrest
    rw [checkSizes_cons_eq_error_iff hseen htotal, hrest, List.length_cons, List.range'_succ,
      first_cons_iff]
    simp only [refusedAt_length]

theorem failsFirst_checkSizes :
    FailsFirst (RefusedAt limit ds) (List.range ds.length) (checkSizes limit [] 0 ds) := by
  intro e
  have hseen : ∀ name : String, name ∈ [] ↔ name ∈ ([] : List Domain).map Domain.name := by
    simp
  rw [List.range_eq_range']
  exact checkSizes_eq_error_iff hseen rfl

theorem build_of_checkSizes (h : checkSizes limit [] 0 ds = .ok ()) (flag : CancelFlag) :
    build ds limit flag =
      (generate limit flag ds).map fun (columns, flag) => ({ toList := columns }, flag) := by
  unfold build
  rw [h, bind_ok]
  cases generate limit flag ds <;> rfl

theorem build_of_checkSizes_error (h : checkSizes limit [] 0 ds = .error e) (flag : CancelFlag) :
    build ds limit flag = .error e := by
  unfold build
  rw [h, bind_error]

theorem checkSizes_eq_ok_iff_of_lt (hlimit : limit < maxCount) :
    checkSizes limit [] 0 ds = .ok () ↔
      (ds.map Domain.name).Nodup ∧ estimatedTotal ds ≤ limit := by
  rw [checkSizes_nil_eq_ok_iff]
  constructor
  . rintro ⟨hnodup, -, htotal⟩
    exact ⟨hnodup, by omega⟩
  . rintro ⟨hnodup, htotal⟩
    refine ⟨hnodup, ?_, by omega⟩
    intro d hd
    have : d.estimatedLength ≤ estimatedTotal ds :=
      List.single_le_sum (fun _ _ => Nat.zero_le _) _ (List.mem_map_of_mem hd)
    omega

theorem checkSizes_maxCount_eq_ok_iff :
    checkSizes maxCount [] 0 ds = .ok () ↔ (ds.map Domain.name).Nodup := by
  rw [checkSizes_nil_eq_ok_iff]
  constructor
  . rintro ⟨hnodup, -, -⟩
    exact hnodup
  . intro hnodup
    exact ⟨hnodup, fun d _ => d.estimatedLength_le, Nat.min_le_right _ _⟩

theorem Refuses.eq_duplicateVariable (h : Refuses maxCount before d e) :
    e = .duplicateVariable d.name := by
  have hle := d.estimatedLength_le
  cases h with
  | duplicate => rfl
  | tooLarge => omega
  | totalTooLarge => omega

theorem exists_duplicateVariable (h : checkSizes maxCount [] 0 ds = .error e) :
    ∃ name, e = .duplicateVariable name := by
  obtain ⟨slot, -, d, -, hrefuses⟩ := ((failsFirst_checkSizes e).mp h).exists_mem
  exact ⟨d.name, hrefuses.eq_duplicateVariable⟩

/--
Values are generated if and only if all names are different and the exact total is within the
limit. Otherwise the first domain that is refused decides the error, whatever the flag is. With the
largest limit only a name that occurs again is an error.
-/
theorem build_guard_exact (ds : List Domain) (limit : Nat) :
    (limit < maxCount →
      (checkSizes limit [] 0 ds = .ok () ↔
        (ds.map Domain.name).Nodup ∧ estimatedTotal ds ≤ limit)) ∧
    (limit = maxCount →
      (checkSizes limit [] 0 ds = .ok () ↔ (ds.map Domain.name).Nodup) ∧
      ∀ e, checkSizes limit [] 0 ds = .error e → ∃ name, e = .duplicateVariable name) ∧
    FailsFirst (RefusedAt limit ds) (List.range ds.length) (checkSizes limit [] 0 ds) ∧
    (checkSizes limit [] 0 ds = .ok () → ∀ flag,
      build ds limit flag =
        (generate limit flag ds).map fun (columns, flag) => ({ toList := columns }, flag)) ∧
    (∀ e, checkSizes limit [] 0 ds = .error e → ∀ flag, build ds limit flag = .error e) := by
  refine ⟨checkSizes_eq_ok_iff_of_lt, ?_, failsFirst_checkSizes, build_of_checkSizes, ?_⟩
  . rintro rfl
    exact ⟨checkSizes_maxCount_eq_ok_iff, fun e h => exists_duplicateVariable h⟩
  . intro e h
    exact build_of_checkSizes_error h

end Columns

end Sweep
