import Sweep.Proofs.Outcomes
import Sweep.Request.Naive

/-!
This module contains what a cancel flag can do to a computation that polls it: either the
computation is cancelled, or its result is the one that it has without a flag.
-/

namespace Sweep

def Polled (cancelled : ε) (flag : CancelFlag) (x : Except ε (α × CancelFlag))
    (whole : Except ε α) : Prop :=
  -- only a flag that is set at some time can keep the outcome from being whole
  (flag ≠ .never ∧ x = .error cancelled) ∨
  ∃ flag', (flag = .never → flag' = .never) ∧ x = whole.map (·, flag')

namespace Polled

variable {cancelled : ε} {flag flag' : CancelFlag} {x : Except ε (α × CancelFlag)}
  {whole : Except ε α}

theorem error (e : ε) :
    Polled cancelled flag (.error e : Except ε (α × CancelFlag)) (.error e) := by
  right
  exact ⟨flag, id, rfl⟩

theorem ok (a : α) : Polled cancelled flag (.ok (a, flag)) (.ok a) := by
  right
  exact ⟨flag, id, rfl⟩

theorem of_later (h : Polled cancelled flag' x whole) (hflag : flag = .never → flag' = .never) :
    Polled cancelled flag x whole := by
  rcases h with ⟨hset, hx⟩ | ⟨flag'', hflag', hx⟩
  . left
    refine ⟨?_, hx⟩
    intro hnever
    exact hset (hflag hnever)
  . right
    refine ⟨flag'', ?_, hx⟩
    intro hnever
    exact hflag' (hflag hnever)

theorem bind {f : α × CancelFlag → Except ε (β × CancelFlag)} {g : α → Except ε β}
    (h : Polled cancelled flag x whole)
    (hf : ∀ a flag', Polled cancelled flag' (f (a, flag')) (g a)) :
    Polled cancelled flag (x >>= f) (whole >>= g) := by
  rcases h with ⟨hset, rfl⟩ | ⟨flag', hflag, rfl⟩
  . left
    exact ⟨hset, rfl⟩
  . cases whole with
    | error e => exact error e
    | ok a => exact (hf a flag').of_later hflag

theorem eq_of_never (h : Polled cancelled .never x whole) : x = whole.map (·, .never) := by
  rcases h with ⟨hset, -⟩ | ⟨flag', hflag, hx⟩
  . contradiction
  . rw [hx, hflag rfl]

end Polled

theorem CancelFlag.check_cases (flag : CancelFlag) :
    (flag ≠ .never ∧ flag.check = .error .cancelled) ∨
    ∃ flag', (flag = .never → flag' = .never) ∧ flag.check = .ok flag' := by
  match flag with
  | .never =>
    right
    exact ⟨.never, id, rfl⟩
  | .after 0 =>
    left
    exact ⟨nofun, rfl⟩
  | .after (n + 1) =>
    right
    exact ⟨.after n, nofun, rfl⟩

namespace Domain

theorem values.go_polled (d : Domain) (value : Float) (flag : CancelFlag) (acc : Array Float) :
    Polled .cancelled flag (go d value flag acc) ((sequence.go d value).map (acc.toList ++ ·)) := by
  unfold go sequence.go
  split
  . rcases flag.check_cases with ⟨hset, hcheck⟩ | ⟨flag', hflag, hcheck⟩
    . left
      simp only [hcheck]
      exact ⟨hset, trivial⟩
    . simp only [hcheck]
      split
      . apply Polled.error
      . next hle hnext =>
        have := Rank.above_lt_of_not_le hle hnext
        have hlater := go_polled d (d.next value) flag' (acc.push value)
        apply Polled.of_later _ hflag
        cases hsequence : sequence.go d (d.next value) with
        | error e =>
          rw [hsequence] at hlater
          exact hlater
        | ok vs =>
          rw [hsequence] at hlater
          simpa using hlater
  . have hacc : acc.toList ++ [] = acc.toList := List.append_nil _
    rw [map_ok, hacc]
    apply Polled.ok
termination_by Rank.above value

theorem values_polled {d : Domain} {limit : Nat} (h : d.estimatedLength ≤ limit)
    (flag : CancelFlag) :
    Polled .cancelled flag (d.values limit flag) d.sequence := by
  unfold values sequence
  rw [if_neg (Nat.not_lt.mpr h)]
  have hgo := values.go_polled d d.lower flag #[]
  cases hsequence : sequence.go d d.lower with
  | error e =>
    rw [hsequence] at hgo
    exact hgo
  | ok vs =>
    rw [hsequence] at hgo
    exact hgo

end Domain

namespace Columns

def label (ds : List Domain) (columns : List (List Float)) : List Column :=
  List.zipWith (fun d values => { name := d.name, values }) ds columns

def ofDomains (limit : Nat) (ds : List Domain) : Except DomainError Columns := do
  checkSizes limit [] 0 ds
  (ds.mapM Domain.sequence).map fun columns => { toList := label ds columns }

theorem le_limit_of_checkSizes {limit : Nat} {seen : List String} {total : Nat} {ds : List Domain}
    (h : checkSizes limit seen total ds = .ok ()) : ∀ d ∈ ds, d.estimatedLength ≤ limit := by
  induction ds generalizing seen total with
  | nil => simp
  | cons d ds ih =>
    unfold checkSizes at h
    split at h
    . contradiction
    . split at h
      . contradiction
      . next hlimit =>
        dsimp only at h
        split at h
        . contradiction
        . intro d' hd'
          rcases List.mem_cons.mp hd' with rfl | hd'
          . exact Nat.not_lt.mp hlimit
          . exact ih h d' hd'

theorem generate_polled {limit : Nat} {ds : List Domain} (h : ∀ d ∈ ds, d.estimatedLength ≤ limit)
    (flag : CancelFlag) :
    Polled .cancelled flag (generate limit flag ds)
      ((ds.mapM Domain.sequence).map (label ds)) := by
  induction ds generalizing flag with
  | nil =>
    apply Polled.ok
  | cons d ds ih =>
    have hvalues := Domain.values_polled (h d List.mem_cons_self) flag
    have hrest := ih fun d' hd' => h d' (List.mem_cons_of_mem d hd')
    have hwhole : ((d :: ds).mapM Domain.sequence).map (label (d :: ds)) = (do
        let values ← d.sequence
        let columns ← (ds.mapM Domain.sequence).map (label ds)
        .ok ({ name := d.name, values } :: columns)) := by
      rw [List.mapM_cons]
      cases d.sequence with
      | error e => rfl
      | ok values => cases ds.mapM Domain.sequence <;> rfl
    rw [hwhole]
    apply hvalues.bind
    intro values flag'
    apply (hrest flag').bind
    intro columns flag''
    apply Polled.ok

theorem build_polled (ds : List Domain) (limit : Nat) (flag : CancelFlag) :
    Polled .cancelled flag (build ds limit flag) (ofDomains limit ds) := by
  unfold build ofDomains
  cases hsizes : checkSizes limit [] 0 ds with
  | error e => apply Polled.error
  | ok _ =>
    have hwhole : ((ds.mapM Domain.sequence).map fun columns => Columns.mk (label ds columns)) = (do
        let columns ← (ds.mapM Domain.sequence).map (label ds)
        .ok { toList := columns }) := by
      cases ds.mapM Domain.sequence <;> rfl
    rw [bind_ok, bind_ok, hwhole]
    apply (generate_polled (le_limit_of_checkSizes hsizes) flag).bind
    intro columns flag'
    apply Polled.ok

end Columns

end Sweep
