import Sweep.Proofs.Polling

/-!
This module contains the folding of tuples under a cancel flag, one tuple after the other.
-/

namespace Sweep

namespace Tuples

variable {t rest : Tuples} {tuple : List Float} {flag flag' : CancelFlag}
  {step : σ → List Float → Except ε σ} {cancelled : ε} {acc : σ}

theorem nextChecked_of_check (h : flag.check = .ok flag') :
    t.nextChecked flag = .ok (t.next?, flag') := by
  unfold CancelFlag.check at h
  split at h
  . contradiction
  . next hset =>
    cases h
    exact t.nextChecked_of_not_isSet hset

theorem nextChecked_of_check_error {e : Cancelled} (h : flag.check = .error e) :
    t.nextChecked flag = .error e := by
  unfold nextChecked call
  rw [h]

theorem fold_eq :
    t.fold flag step cancelled acc =
      match t.nextChecked flag with
      | .error _ => .error cancelled
      | .ok (none, _) => .ok acc
      | .ok (some (tuple, rest), flag) => step acc tuple >>= rest.fold flag step cancelled := by
  conv =>
    lhs
    unfold fold
  split
  . next heq => rw [heq]
  . next heq => rw [heq]
  . next tuple _ _ heq =>
    conv =>
      rhs
      rw [heq]
    dsimp only
    cases step acc tuple <;> rfl

theorem fold_cancelled {e : Cancelled} (h : flag.check = .error e) :
    t.fold flag step cancelled acc = .error cancelled := by
  rw [fold_eq, nextChecked_of_check_error h]

theorem fold_none (h : flag.check = .ok flag') (ht : t.next? = none) :
    t.fold flag step cancelled acc = .ok acc := by
  rw [fold_eq, nextChecked_of_check h, ht]

theorem fold_some (h : flag.check = .ok flag') (ht : t.next? = some (tuple, rest)) :
    t.fold flag step cancelled acc
      =
    step acc tuple >>= rest.fold flag' step cancelled := by
  rw [fold_eq, nextChecked_of_check h, ht]

theorem fold_cases (t : Tuples) (flag : CancelFlag) (step : σ → List Float → Except ε σ)
    (cancelled : ε) (acc : σ) :
    (flag ≠ .never ∧ t.fold flag step cancelled acc = .error cancelled) ∨
    t.fold flag step cancelled acc = t.fold .never step cancelled acc := by
  -- one reading decides only whether the fold goes on, with a flag that is set no earlier
  rcases flag.check_cases with ⟨hset, hcheck⟩ | ⟨flag', hflag, hcheck⟩
  . left
    exact ⟨hset, fold_cancelled hcheck⟩
  . cases ht : t.next? with
    | none =>
      right
      rw [fold_none hcheck ht, fold_none CancelFlag.check_never ht]
    | some next =>
      obtain ⟨tuple, rest⟩ := next
      rw [fold_some hcheck ht, fold_some CancelFlag.check_never ht]
      cases step acc tuple with
      | error e =>
        right
        rfl
      | ok acc =>
        have := remaining_lt_of_next? ht
        rcases fold_cases rest flag' step cancelled acc with ⟨hset, hrest⟩ | hrest
        . left
          refine ⟨?_, hrest⟩
          intro hnever
          exact hset (hflag hnever)
        . right
          exact hrest
termination_by t.remaining

/-! The tuples that are left. -/

def upcoming (t : Tuples) : List (List Float) :=
  match h : t.next? with
  | none => []
  | some (tuple, rest) =>
    have := remaining_lt_of_next? h
    tuple :: rest.upcoming
termination_by t.remaining

theorem upcoming_none (h : t.next? = none) : t.upcoming = [] := by
  unfold upcoming
  split
  . rfl
  . next heq =>
    rw [h] at heq
    contradiction

theorem upcoming_some (h : t.next? = some (tuple, rest)) : t.upcoming = tuple :: rest.upcoming := by
  conv =>
    lhs
    unfold upcoming
  split
  . next heq =>
    rw [h] at heq
    contradiction
  . next heq =>
    rw [h] at heq
    cases heq
    rfl

theorem upcoming_ne_nil_iff : t.upcoming ≠ [] ↔ t.emitted < t.total := by
  by_cases h : t.emitted < t.total
  . have hnext : t.next? = some (t.source.tuple,
        { t with emitted := t.emitted + 1, source := t.source.next }) := if_pos h
    simp [upcoming_some hnext, h]
  . have hnext : t.next? = none := if_neg h
    simp [upcoming_none hnext, h]

theorem fold_never_eq (t : Tuples) (step : σ → List Float → Except ε σ) (cancelled : ε) (acc : σ) :
    t.fold .never step cancelled acc = t.upcoming.foldlM step acc := by
  cases ht : t.next? with
  | none =>
    rw [fold_none CancelFlag.check_never ht, upcoming_none ht]
    rfl
  | some next =>
    obtain ⟨tuple, rest⟩ := next
    have := remaining_lt_of_next? ht
    rw [fold_some CancelFlag.check_never ht, upcoming_some ht, List.foldlM_cons]
    congr
    funext acc'
    exact fold_never_eq rest step cancelled acc'
termination_by t.remaining

end Tuples

theorem aggregate_cases (kind : AggregationKind) (tuples : Tuples) (expressions : List Expression)
    (lookup : Lookup) (flag : CancelFlag) :
    (flag ≠ .never ∧ aggregate kind tuples expressions lookup flag = .error .cancelled) ∨
    aggregate kind tuples expressions lookup flag
      =
    aggregate kind tuples expressions lookup .never := by
  unfold aggregate
  split
  . right
    rfl
  . right
    rfl
  . next first others _ =>
    split
    . right
      rfl
    . split
      . apply Tuples.fold_cases
      . apply Tuples.fold_cases
      . rcases Tuples.fold_cases tuples flag (Aggregate.sum first lookup) .cancelled 0 with
          ⟨hset, hfold⟩ | hfold
        . left
          rw [hfold]
          exact ⟨hset, rfl⟩
        . right
          rw [hfold]

end Sweep
