import Sweep.Proofs.Uncancelled

/-!
This module contains the cancellation of computations. It is all or nothing: a computation whose
flag is set at some time either gives the result that it has without a flag, or it is cancelled.
-/

namespace Sweep

namespace CancelFlag

theorem check_of_isSet {flag : CancelFlag} (h : flag.isSet) : flag.check = .error .cancelled := by
  unfold check
  rw [if_pos h]

end CancelFlag

namespace Domain

variable {d : Domain} {limit : Nat} {flag : CancelFlag}

theorem values_of_isEmpty (h : d.isEmpty) (limit : Nat) (flag : CancelFlag) :
    d.values limit flag = .ok ([], flag) := by
  have hlength : d.estimatedLength = 0 := by
    unfold estimatedLength
    rw [if_pos h]
  have hle : ¬d.lower ≤ d.upper := by
    simpa [isEmpty] using h
  unfold values values.go
  rw [hlength, if_neg (Nat.not_lt_zero limit), dif_neg hle]

theorem values_of_isSet (h : flag.isSet) (hempty : ¬d.isEmpty) (limit : Nat) :
    ∃ e, d.values limit flag = .error e := by
  have hle : d.lower ≤ d.upper := by
    simpa [isEmpty] using hempty
  unfold values
  split
  . exact ⟨_, rfl⟩
  . refine ⟨.cancelled, ?_⟩
    unfold values.go
    rw [dif_pos hle, CancelFlag.check_of_isSet h]

end Domain

namespace Columns

theorem generate_of_isSet {flag : CancelFlag} (h : flag.isSet) (limit : Nat) {ds : List Domain}
    (hds : ∃ d ∈ ds, ¬d.isEmpty) : ∃ e, generate limit flag ds = .error e := by
  induction ds with
  | nil =>
    obtain ⟨d, hd, -⟩ := hds
    contradiction
  | cons d ds ih =>
    unfold generate
    by_cases hempty : d.isEmpty
    . rw [Domain.values_of_isEmpty hempty]
      have hrest : ∃ d' ∈ ds, ¬d'.isEmpty := by
        obtain ⟨d', hd', hd'empty⟩ := hds
        rcases List.mem_cons.mp hd' with rfl | hd'
        . contradiction
        . exact ⟨d', hd', hd'empty⟩
      obtain ⟨e, he⟩ := ih hrest
      refine ⟨e, ?_⟩
      simp only [bind_ok, he, bind_error]
    . obtain ⟨e, he⟩ := Domain.values_of_isSet h hempty limit
      refine ⟨e, ?_⟩
      rw [he, bind_error]

theorem build_of_isSet {flag : CancelFlag} (h : flag.isSet) (limit : Nat) {ds : List Domain}
    (hds : ∃ d ∈ ds, ¬d.isEmpty) : ∃ e, build ds limit flag = .error e := by
  obtain ⟨e, he⟩ := generate_of_isSet h limit hds
  unfold build
  cases checkSizes limit [] 0 ds with
  | error e => exact ⟨e, rfl⟩
  | ok _ =>
    refine ⟨e, ?_⟩
    simp only [bind_ok, he, bind_error]

end Columns

namespace Computation

def finish (c : Computation) (columns : Columns) (flag : CancelFlag) :
    Except ComputeError Float := do
  let tuples ← (Tuples.ofColumns columns c.mode).mapError .ofDomain
  let expressions ← parseExpressions c.expressions
  (aggregate c.kind tuples expressions columns.slot? flag).mapError .ofAggregate

theorem run_eq (c : Computation) (limit : Nat) (flag : CancelFlag) :
    c.run limit flag = (do
      let domains ← (Domain.parseSpec c.spec).mapError .ofDomain
      let (columns, flag) ← (Columns.build domains limit flag).mapError .ofDomain
      c.finish columns flag) := by
  rfl

theorem finish_cases (c : Computation) (columns : Columns) (flag : CancelFlag) :
    c.finish columns flag = c.finish columns .never ∨
    c.finish columns flag = .error .cancelled := by
  unfold finish
  cases Tuples.ofColumns columns c.mode with
  | error e =>
    left
    rfl
  | ok tuples =>
    cases parseExpressions c.expressions with
    | error e =>
      left
      rfl
    | ok expressions =>
      simp only [mapError_ok, bind_ok]
      rcases aggregate_cases c.kind tuples expressions columns.slot? flag with ⟨-, h⟩ | h
      . right
        rw [h]
        rfl
      . left
        rw [h]

theorem finish_ne_error (c : Computation) (columns : Columns) (flag : CancelFlag)
    {e : ComputeError} (hdomain : ∀ cause, ComputeError.ofDomain cause ≠ e)
    (hparse : ∀ source cause, ComputeError.parse source cause ≠ e)
    (haggregate : ∀ cause, ComputeError.ofAggregate cause ≠ e) :
    c.finish columns flag ≠ .error e := by
  unfold finish
  apply bind_ne_error (mapError_ne_error hdomain)
  intro tuples
  apply bind_ne_error
  . apply mapM_ne_error
    intro source _
    exact mapError_ne_error (hparse source)
  . intro expressions
    exact mapError_ne_error haggregate

theorem run_ne_error (c : Computation) (limit : Nat) (flag : CancelFlag) {e : ComputeError}
    (hdomain : ∀ cause, ComputeError.ofDomain cause ≠ e)
    (hparse : ∀ source cause, ComputeError.parse source cause ≠ e)
    (haggregate : ∀ cause, ComputeError.ofAggregate cause ≠ e) :
    c.run limit flag ≠ .error e := by
  rw [run_eq]
  apply bind_ne_error (mapError_ne_error hdomain)
  intro domains
  apply bind_ne_error (mapError_ne_error hdomain)
  intro built
  exact c.finish_ne_error _ _ hdomain hparse haggregate

theorem run_cases (c : Computation) (limit : Nat) (flag : CancelFlag) :
    c.run limit flag = c.run limit .never ∨ c.run limit flag = .error .cancelled := by
  rw [run_eq, run_eq]
  cases Domain.parseSpec c.spec with
  | error e =>
    left
    rfl
  | ok ds =>
    simp only [mapError_ok, bind_ok]
    rw [(Columns.build_polled ds limit .never).eq_of_never]
    rcases Columns.build_polled ds limit flag with ⟨-, hbuild⟩ | ⟨flag', -, hbuild⟩
    . right
      rw [hbuild]
      rfl
    . rw [hbuild]
      cases Columns.ofDomains limit ds with
      | error e =>
        left
        rfl
      | ok columns => exact c.finish_cases columns flag'

theorem finish_never_ne_cancelled (c : Computation) (columns : Columns) :
    c.finish columns .never ≠ .error .cancelled := by
  unfold finish
  apply bind_ne_error
  . rw [ComputeError.mapError_ofDomain (Tuples.ofColumns_ne_cancelled columns c.mode)]
    apply mapError_ne_error
    simp
  . intro tuples
    apply bind_ne_error
    . apply mapM_ne_error
      intro source _
      apply mapError_ne_error
      simp
    . intro expressions
      rw [ComputeError.mapError_ofAggregate (aggregate_ne_cancelled _ _ _ _)]
      apply mapError_ne_error
      simp

theorem run_never_ne_cancelled (c : Computation) (limit : Nat) :
    c.run limit .never ≠ .error .cancelled := by
  rw [run_eq, ComputeError.mapError_ofDomain (Domain.parseSpec_ne_cancelled c.spec)]
  apply bind_ne_error (mapError_ne_error (by simp))
  intro ds
  rw [(Columns.build_polled ds limit .never).eq_of_never]
  rw [ComputeError.mapError_ofDomain (map_ne_error (Columns.ofDomains_ne_cancelled limit ds))]
  cases Columns.ofDomains limit ds with
  | error e => simp
  | ok columns => exact c.finish_never_ne_cancelled columns

theorem run_of_isSet (c : Computation) (limit : Nat) {flag : CancelFlag} (h : flag.isSet)
    {ds : List Domain} (hspec : Domain.parseSpec c.spec = .ok ds) (hds : ∃ d ∈ ds, ¬d.isEmpty)
    (value : Float) : c.run limit flag ≠ .ok value := by
  obtain ⟨e, he⟩ := Columns.build_of_isSet h limit hds
  rw [run_eq, hspec]
  rw [mapError_ok, bind_ok, he, mapError_error, bind_error]
  simp

/--
A computation that can be cancelled at any time gives its whole result or none, and it does not
complete if it is cancelled before it begins and has something to do.
-/
theorem run_whole_or_cancelled (c : Computation) (limit : Nat) (flag : CancelFlag) :
    (c.run limit flag = c.run limit .never ∨ c.run limit flag = .error .cancelled) ∧
    c.run limit .never ≠ .error .cancelled ∧
    c.run limit flag ≠ .error (.domain .cancelled) ∧
    c.run limit flag ≠ .error (.aggregate .cancelled) ∧
    (flag.isSet → ∀ ds, Domain.parseSpec c.spec = .ok ds → (∃ d ∈ ds, ¬d.isEmpty) →
      ∀ value, c.run limit flag ≠ .ok value) := by
  refine ⟨?_, ?_, ?_, ?_, ?_⟩
  . exact c.run_cases limit flag
  . exact c.run_never_ne_cancelled limit
  . apply run_ne_error
    . exact ComputeError.ofDomain_ne_domain
    . simp
    . intro cause
      exact ComputeError.ofAggregate_ne_domain cause .cancelled
  . apply run_ne_error
    . intro cause
      exact ComputeError.ofDomain_ne_aggregate cause .cancelled
    . simp
    . exact ComputeError.ofAggregate_ne_aggregate
  . intro h ds hspec hds
    exact c.run_of_isSet limit h hspec hds

end Computation

end Sweep
