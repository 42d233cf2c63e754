import Sweep.Proofs.Folding

/-!
This module contains the errors of computations without a cancel flag. None of them tells that the
computation was cancelled.
-/

namespace Sweep

namespace Domain

theorem number_ne_cancelled (entry : String) (field : List Char) :
    number entry field ≠ .error .cancelled := by
  unfold number
  dsimp only
  split <;> simp

theorem make_ne_cancelled (name : String) (lower step upper : Float) :
    make name lower step upper ≠ .error .cancelled := by
  unfold make
  split <;> simp

theorem parse_ne_cancelled (entry : String) : parse entry ≠ .error .cancelled := by
  unfold parse
  split
  . split
    . apply bind_ne_error (number_ne_cancelled _ _)
      intro lower
      apply bind_ne_error (number_ne_cancelled _ _)
      intro step
      apply bind_ne_error (number_ne_cancelled _ _)
      intro upper
      apply make_ne_cancelled
    . simp
  . simp

theorem parseSpec_ne_cancelled (spec : String) : parseSpec spec ≠ .error .cancelled := by
  apply mapM_ne_error
  intro entry _
  apply parse_ne_cancelled

theorem sequence.go_ne_cancelled (d : Domain) (value : Float) :
    go d value ≠ .error .cancelled := by
  unfold go
  split
  . split
    . simp
    . next hle hnext =>
      have := Rank.above_lt_of_not_le hle hnext
      apply map_ne_error
      apply go_ne_cancelled
  . simp
termination_by Rank.above value

theorem sequence_ne_cancelled (d : Domain) : d.sequence ≠ .error .cancelled := by
  apply sequence.go_ne_cancelled

end Domain

namespace Columns

theorem checkSizes_ne_cancelled (limit : Nat) (seen : List String) (total : Nat)
    (ds : List Domain) : checkSizes limit seen total ds ≠ .error .cancelled := by
  induction ds generalizing seen total with
  | nil => simp [checkSizes]
  | cons d ds ih =>
    unfold checkSizes
    split
    . simp
    . split
      . simp
      . dsimp only
        split
        . simp
        . apply ih

theorem ofDomains_ne_cancelled (limit : Nat) (ds : List Domain) :
    ofDomains limit ds ≠ .error .cancelled := by
  unfold ofDomains
  apply bind_ne_error
  . apply checkSizes_ne_cancelled
  . intro _
    apply map_ne_error
    apply mapM_ne_error
    intro d _
    apply Domain.sequence_ne_cancelled

theorem tupleCount_ne_cancelled (cs : Columns) (mode : TupleMode) :
    cs.tupleCount mode ≠ .error .cancelled := by
  unfold tupleCount
  split
  . split
    . simp
    . split <;> simp
  . dsimp only
    split <;> simp

end Columns

namespace Tuples

theorem ofColumns_ne_cancelled (cs : Columns) (mode : TupleMode) :
    ofColumns cs mode ≠ .error .cancelled := by
  unfold ofColumns
  apply bind_ne_error (cs.tupleCount_ne_cancelled mode)
  simp

theorem fold_ne_cancelled {step : σ → List Float → Except ε σ} {cancelled : ε}
    (h : ∀ acc tuple, step acc tuple ≠ .error cancelled) (t : Tuples) (acc : σ) :
    t.fold .never step cancelled acc ≠ .error cancelled := by
  cases ht : t.next? with
  | none =>
    rw [fold_none CancelFlag.check_never ht]
    simp
  | some next =>
    obtain ⟨tuple, rest⟩ := next
    have := remaining_lt_of_next? ht
    rw [fold_some CancelFlag.check_never ht]
    apply bind_ne_error (h acc tuple)
    intro acc'
    apply fold_ne_cancelled h
termination_by t.remaining

end Tuples

namespace Aggregate

theorem extremum_ne_cancelled (select : Float → Float → Float) (expressions : List Expression)
    (lookup : Lookup) (acc : Float) (tuple : List Float) :
    extremum select expressions lookup acc tuple ≠ .error .cancelled := by
  unfold extremum
  induction expressions generalizing acc with
  | nil => simp [pure, Except.pure]
  | cons e es ih =>
    rw [List.foldlM_cons]
    apply bind_ne_error
    . split <;> simp
    . exact ih

theorem sum_ne_cancelled (first : Expression) (lookup : Lookup) (acc : Float)
    (tuple : List Float) : sum first lookup acc tuple ≠ .error .cancelled := by
  unfold sum
  split <;> simp

end Aggregate

theorem aggregate_ne_cancelled (kind : AggregationKind) (tuples : Tuples)
    (expressions : List Expression) (lookup : Lookup) :
    aggregate kind tuples expressions lookup .never ≠ .error .cancelled := by
  unfold aggregate
  split
  . simp
  . simp
  . split
    . simp
    . split
      . apply Tuples.fold_ne_cancelled
        apply Aggregate.extremum_ne_cancelled
      . apply Tuples.fold_ne_cancelled
        apply Aggregate.extremum_ne_cancelled
      . apply bind_ne_error
        . apply Tuples.fold_ne_cancelled
          apply Aggregate.sum_ne_cancelled
        . simp

namespace ComputeError

theorem ofDomain_ne_domain (e : DomainError) : ofDomain e ≠ .domain .cancelled := by
  cases e <;> simp [ofDomain]

theorem ofDomain_ne_aggregate (e : DomainError) (cause : AggregateError) :
    ofDomain e ≠ .aggregate cause := by
  cases e <;> simp [ofDomain]

theorem ofAggregate_ne_aggregate (e : AggregateError) :
    ofAggregate e ≠ .aggregate .cancelled := by
  cases e <;> simp [ofAggregate]

theorem ofAggregate_ne_domain (e : AggregateError) (cause : DomainError) :
    ofAggregate e ≠ .domain cause := by
  cases e <;> simp [ofAggregate]

theorem mapError_ofDomain {x : Except DomainError α} (h : x ≠ .error .cancelled) :
    x.mapError ofDomain = x.mapError .domain := by
  cases x with
  | error e =>
    cases e with
    | cancelled => contradiction
    | _ => rfl
  | ok a => rfl

theorem mapError_ofAggregate {x : Except AggregateError α} (h : x ≠ .error .cancelled) :
    x.mapError ofAggregate = x.mapError .aggregate := by
  cases x with
  | error e =>
    cases e with
    | cancelled => contradiction
    | _ => rfl
  | ok a => rfl

end ComputeError

end Sweep
