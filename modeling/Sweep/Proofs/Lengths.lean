import Sweep.Proofs.Ascent
import Sweep.Proofs.Refinement
import Sweep.Proofs.Sizes
import Sweep.Proofs.Strides

/-!
This module contains the number of values that domains have, compared with the number that is
estimated before they are generated.
-/

namespace Sweep

open Rounding (Representable nearest)
open Number (toRat)

namespace Domain

theorem sequence.go_of_not_le {d : Domain} {value : Float} (h : ¬value ≤ d.upper) :
    go d value = .ok [] := by
  unfold go
  rw [dif_neg h]

theorem sequence.go_length_le (d : Domain) (value : Float) (place : Float → ℚ → Prop)
    {values : List Float} {p pace top : ℚ}
    (hstep : ∀ v p, place v p → v ≤ d.upper → ¬d.next v ≤ v → d.next v ≤ d.upper →
      ∃ p', place (d.next v) p' ∧ pace ≤ p' - p)
    (htop : ∀ v p, place v p → v ≤ d.upper → p ≤ top) (hplace : place value p)
    (hle : value ≤ d.upper) (h : go d value = .ok values) :
    values.length * pace ≤ top - p + pace := by
  unfold go at h
  rw [dif_pos hle] at h
  split at h
  . contradiction
  . next hnext =>
    have := Rank.above_lt_of_not_le hle hnext
    obtain ⟨later, hgo, rfl⟩ := map_eq_ok h
    rw [List.length_cons]
    push_cast
    by_cases hle' : d.next value ≤ d.upper
    . obtain ⟨p', hplace', hadvance⟩ := hstep value p hplace hle hnext hle'
      have hlater := go_length_le d (d.next value) place hstep htop hplace' hle' hgo
      linarith
    . rw [go_of_not_le hle'] at hgo
      cases hgo
      have := htop value p hplace hle
      rw [List.length_nil]
      push_cast
      linarith
termination_by Rank.above value

/-! The estimate. -/

variable {d : Domain} {values : List Float}

theorem nearest_floor_add_one {q : ℚ} (hq : 0 ≤ q) :
    ∃ m : ℤ, nearest (⌊nearest q⌋ + 1) = m ∧ 1 ≤ m ∧ q - q / 2 ^ 53 ≤ m := by
  have hpos := Rounding.le_nearest Rounding.representable_zero hq
  have hfloor : (0 : ℚ) ≤ ⌊nearest q⌋ := by exact_mod_cast Int.floor_nonneg.mpr hpos
  obtain ⟨m, hm⟩ := Rounding.nearest_intCast (⌊nearest q⌋ + 1)
  push_cast at hm
  have hone : (1 : ℚ) ≤ m := by
    rw [← hm]
    apply Rounding.le_nearest _ (by linarith)
    exact_mod_cast Rounding.representable_intCast (n := 1) (by norm_num)
  have habove : nearest q ≤ m := by
    rw [← hm]
    exact Rounding.le_nearest (Rounding.representable_nearest q) (Int.lt_floor_add_one _).le
  refine ⟨m, hm, by exact_mod_cast hone, ?_⟩
  rcases le_total q 1 with hle | hge
  . linarith
  . have hpower : (2 : ℚ) ^ (-1022 : ℤ) ≤ 1 := zpow_le_one_of_nonpos₀ (by norm_num) (by norm_num)
    have herror := abs_le.mp
      (Rounding.abs_nearest_sub_le_abs (.inl (hpower.trans (hge.trans (le_abs_self q)))))
    rw [abs_of_nonneg hq] at herror
    linarith

def steps (d : Domain) : Float :=
  Number.floor ((d.upper - d.lower) / d.step) + 1

theorem toRat_one : (1 : Float).isFinite ∧ toRat 1 = 1 := by
  have h := Number.toRat_of_unpack (x := 1) (m := 2 ^ 52) (e := -52) (h := by norm_num) rfl
  norm_num [Rounding.value] at h ⊢
  exact h

theorem toRat_overflow :
    (18446744073709551616 : Float).isFinite ∧ toRat 18446744073709551616 = 2 ^ 64 := by
  have h := Number.toRat_of_unpack (x := 18446744073709551616) (m := 2 ^ 52) (e := 12)
    (h := by norm_num) rfl
  norm_num [Rounding.value] at h ⊢
  exact h

theorem estimatedLength_eq (hle : d.lower ≤ d.upper) (hmax : d.estimatedLength < maxCount) :
    d.steps.isFinite ∧ toRat d.steps < 2 ^ 64 ∧ d.estimatedLength = d.steps.toUInt64.toNat := by
  obtain ⟨hoverflow, hpower⟩ := toRat_overflow
  have hestimate : d.estimatedLength
      = if d.steps.isFinite && d.steps < 18446744073709551616 then d.steps.toUInt64.toNat
        else maxCount := by
    unfold estimatedLength isEmpty
    rw [decide_eq_true hle]
    rfl
  rw [hestimate] at hmax ⊢
  by_cases hsteps : (d.steps.isFinite && d.steps < 18446744073709551616) = true
  . rw [if_pos hsteps]
    rw [Bool.and_eq_true, decide_eq_true_eq] at hsteps
    obtain ⟨hfinite, hlt⟩ := hsteps
    rw [Number.lt_iff_toRat hfinite hoverflow, hpower] at hlt
    exact ⟨hfinite, hlt, rfl⟩
  . rw [if_neg hsteps] at hmax
    exact (Nat.lt_irrefl _ hmax).elim

theorem toRat_step_pos (d : Domain) (h : d.step.isFinite) : 0 < toRat d.step := by
  have hzero : (0 : Float).isFinite ∧ toRat 0 = 0 := ⟨rfl, rfl⟩
  rw [← hzero.2, ← Number.lt_iff_toRat hzero.1 h]
  exact d.step_pos

theorem toRat_step_nonneg (d : Domain) : 0 ≤ toRat d.step := by
  by_cases h : d.step.isFinite
  . exact (d.toRat_step_pos h).le
  . rw [Number.toRat_of_not_isFinite h]

theorem toRat_steps (h : d.steps.isFinite) :
    d.lower.isFinite ∧ d.upper.isFinite ∧
      toRat d.steps
        = nearest (⌊nearest (nearest (toRat d.upper - toRat d.lower) / toRat d.step)⌋ + 1) := by
  have hfloor := (Number.isFinite_of_isFinite_add h).1
  have hquotient := Number.isFinite_of_isFinite_floor hfloor
  have hdistance := Number.isFinite_of_isFinite_div hquotient
  obtain ⟨hupper, hlower⟩ := Number.isFinite_of_isFinite_sub hdistance
  refine ⟨hlower, hupper, ?_⟩
  calc
    toRat d.steps = nearest (toRat (Number.floor ((d.upper - d.lower) / d.step)) + toRat 1) :=
      Number.toRat_add h
    _ = nearest (⌊toRat ((d.upper - d.lower) / d.step)⌋ + 1) := by
      rw [(Number.toRat_floor hquotient).2, toRat_one.2]
    _ = _ := by rw [Number.toRat_div hquotient, Number.toRat_sub hdistance]

theorem toRat_sub_le (hle : d.lower ≤ d.upper) (hmax : d.estimatedLength < maxCount) :
    d.lower.isFinite ∧ d.upper.isFinite ∧ 1 ≤ d.estimatedLength ∧
      (d.step.isFinite →
        (1 - 2 / 2 ^ 53) * (toRat d.upper - toRat d.lower) ≤ d.estimatedLength * toRat d.step) := by
  obtain ⟨hsteps, hlt, hestimate⟩ := estimatedLength_eq hle hmax
  obtain ⟨hlower, hupper, heq⟩ := toRat_steps hsteps
  have hstep := d.toRat_step_nonneg
  have hrange := sub_nonneg.mpr ((Number.le_iff_toRat hlower hupper).mp hle)
  have hrange' := Rounding.le_nearest Rounding.representable_zero hrange
  obtain ⟨m, hm, hpos, hratio⟩ := nearest_floor_add_one (div_nonneg hrange' hstep)
  rw [hm] at heq
  have hpos' : (1 : ℚ) ≤ m := by exact_mod_cast hpos
  have hcount := Number.toNat_toUInt64 hsteps (by linarith) hlt
  rw [← hestimate, heq, Int.floor_intCast] at hcount
  refine ⟨hlower, hupper, by omega, ?_⟩
  intro hfinite
  have hstep' := d.toRat_step_pos hfinite
  have hclose := abs_le.mp ((Number.representable_toRat d.upper).abs_nearest_add_sub_le
    (Number.representable_toRat d.lower).neg)
  rw [← sub_eq_add_neg, abs_of_nonneg hrange] at hclose
  have hscaled := mul_le_mul_of_nonneg_right hratio hstep
  have hquotient := div_mul_cancel₀ (nearest (toRat d.upper - toRat d.lower)) hstep'.ne'
  have hcount' : (d.estimatedLength : ℚ) = m := by exact_mod_cast hcount
  rw [hcount']
  linarith [hclose.1]

/-! The number of values. -/

theorem toRat_lt_of_not_le {x y : Float} (hx : x.isFinite) (hy : y.isFinite) (h : ¬x ≤ y) :
    toRat y < toRat x := by
  rw [← not_le, ← Number.le_iff_toRat hx hy]
  exact h

theorem sequence.go_next_length_le {later : List Float} {pace : ℚ}
    (hpace : pace ≤ max (1 / 10 ^ 12) (25 * toRat d.step / 73)) (hlower : d.lower.isFinite)
    (hupper : d.upper.isFinite) (hfinite : (d.next d.lower).isFinite)
    (hnext : ¬d.next d.lower ≤ d.lower) (hle : d.next d.lower ≤ d.upper)
    (h : go d (d.next d.lower) = .ok later) :
    later.length * pace ≤ toRat d.upper - toRat d.lower + 23 / 25 / 10 ^ 12 + pace := by
  obtain ⟨p, ha⟩ := (stride_next hfinite).exists_anchor
  have hlength : later.length * pace ≤ toRat d.upper + 23 / 50 / 10 ^ 12 - p + pace := by
    apply go_length_le d (d.next d.lower)
      (fun value p => value.isFinite ∧ Anchor (toRat value) p) ?_ ?_ ⟨hfinite, ha⟩ hle h
    . rintro value p ⟨hvalue, ha⟩ - hnext hle
      have hfinite := Number.isFinite_of_le hvalue hupper hle hnext
      have hlt := toRat_lt_of_not_le hfinite hvalue hnext
      obtain ⟨p', ha', hunit, hstep⟩ := (stride_next hfinite).advance ha hlt
      refine ⟨p', ⟨hfinite, ha'⟩, hpace.trans (max_le hunit ?_)⟩
      rw [div_le_iff₀ (by norm_num)]
      linarith
    . rintro value p ⟨hvalue, ha⟩ hle
      have hplace := abs_le.mp ha.abs_sub_le
      have hbelow := (Number.le_iff_toRat hvalue hupper).mp hle
      linarith
  have hplace := abs_le.mp ha.abs_sub_le
  have hlt := toRat_lt_of_not_le hfinite hlower hnext
  linarith

theorem length_sequence_le (hmax : d.estimatedLength < maxCount) (h : d.sequence = .ok values) :
    values.length ≤ 3 * d.estimatedLength + 2 := by
  unfold sequence sequence.go at h
  split at h
  . next hle =>
    split at h
    . contradiction
    . next hnext =>
      obtain ⟨hlower, hupper, hone, hestimate⟩ := toRat_sub_le hle hmax
      obtain ⟨later, hgo, rfl⟩ := map_eq_ok h
      rw [List.length_cons]
      by_cases hle' : d.next d.lower ≤ d.upper
      . have hfinite := Number.isFinite_of_le hlower hupper hle' hnext
        have hsum := Number.isFinite_of_roundToPrecision hfinite
        have hestimate := hestimate (Number.isFinite_of_isFinite_add hsum).2
        have hlength := sequence.go_next_length_le le_rfl hlower hupper hfinite hnext hle' hgo
        generalize hpace : max (1 / 10 ^ 12) (25 * toRat d.step / 73) = pace at hlength
        have hunit : 1 / 10 ^ 12 ≤ pace := hpace ▸ le_max_left _ _
        have hthird : 25 * toRat d.step / 73 ≤ pace := hpace ▸ le_max_right _ _
        have hpos : 0 < pace := hunit.trans_lt' (by norm_num)
        have hsteps := mul_le_mul_of_nonneg_left hthird (Nat.cast_nonneg d.estimatedLength)
        have hcount : (0 : ℚ) ≤ d.estimatedLength * pace :=
          mul_nonneg (Nat.cast_nonneg _) hpos.le
        have hscaled : later.length * pace < (3 * d.estimatedLength + 2 : Nat) * pace := by
          push_cast
          linarith
        have hlength := lt_of_mul_lt_mul_right hscaled hpos.le
        have hlength : later.length < 3 * d.estimatedLength + 2 := by exact_mod_cast hlength
        omega
      . rw [sequence.go_of_not_le hle'] at hgo
        cases hgo
        rw [List.length_nil]
        omega
  . cases h
    exact Nat.zero_le _

/-! Domains with long steps. -/

def slip (d : Domain) : ℚ :=
  -- one step loses this much to the decimal places and to the arithmetic between the ends
  3 / 2 / 10 ^ 12 + (|toRat d.lower| + |toRat d.upper| + toRat d.step) / 2 ^ 53

/--
The roundings of all estimated steps together are short compared with one step.
-/
def Steady (d : Domain) : Prop :=
  8 * (d.estimatedLength * d.slip) ≤ toRat d.step

instance (d : Domain) : Decidable d.Steady :=
  inferInstanceAs (Decidable (_ ≤ _))

theorem slip_pos (d : Domain) : 0 < d.slip := by
  have := d.toRat_step_nonneg
  unfold slip
  positivity

theorem sub_next_le {value : Float} (hfinite : (d.next value).isFinite)
    (hlower : toRat d.lower ≤ toRat value) (hupper : toRat value ≤ toRat d.upper) :
    toRat value + toRat d.step - toRat (d.next value) ≤ d.slip := by
  have hstride := (stride_next hfinite).sub_le (Number.representable_toRat value)
    (Number.representable_toRat d.step)
  have habs : |toRat value + toRat d.step| ≤ |toRat d.lower| + |toRat d.upper| + toRat d.step := by
    have hstep := d.toRat_step_nonneg
    have hlow := neg_abs_le (toRat d.lower)
    have hhigh := le_abs_self (toRat d.upper)
    have := abs_nonneg (toRat d.lower)
    have := abs_nonneg (toRat d.upper)
    rw [abs_le]
    constructor <;> linarith
  have := div_le_div_of_nonneg_right habs (by norm_num : (0 : ℚ) ≤ 2 ^ 53)
  unfold slip
  linarith

theorem sequence.length_mul_le (hlower : d.lower.isFinite) (hupper : d.upper.isFinite)
    (hle : d.lower ≤ d.upper) (h : d.sequence = .ok values) :
    values.length * (toRat d.step - d.slip)
      ≤ toRat d.upper - toRat d.lower + (toRat d.step - d.slip) := by
  apply go_length_le d d.lower
    (fun value p => value.isFinite ∧ toRat d.lower ≤ p ∧ p = toRat value) ?_ ?_
    ⟨hlower, le_rfl, rfl⟩ hle h
  . rintro value _ ⟨hvalue, hbetween, rfl⟩ hle hnext hle'
    have hfinite := Number.isFinite_of_le hvalue hupper hle' hnext
    have hlt := toRat_lt_of_not_le hfinite hvalue hnext
    have := sub_next_le hfinite hbetween ((Number.le_iff_toRat hvalue hupper).mp hle)
    exact ⟨_, ⟨hfinite, hbetween.trans hlt.le, rfl⟩, by linarith⟩
  . rintro value _ ⟨hvalue, -, rfl⟩ hle
    exact (Number.le_iff_toRat hvalue hupper).mp hle

theorem Steady.length_sequence_le (hsteady : d.Steady) (hmax : d.estimatedLength < maxCount)
    (h : d.sequence = .ok values) : values.length ≤ d.estimatedLength + 1 := by
  by_cases hle : d.lower ≤ d.upper
  . obtain ⟨hlower, hupper, hone, hestimate⟩ := toRat_sub_le hle hmax
    have hlength := sequence.length_mul_le hlower hupper hle h
    have hslip := d.slip_pos
    have hone : (1 : ℚ) ≤ d.estimatedLength := by exact_mod_cast hone
    have hsum := mul_le_mul_of_nonneg_right hone hslip.le
    unfold Steady at hsteady
    have hfinite : d.step.isFinite := by
      by_contra hinfinite
      rw [Number.toRat_of_not_isFinite hinfinite] at hsteady
      linarith
    have hestimate := hestimate hfinite
    have hrange : (toRat d.upper - toRat d.lower) / 2 ^ 53 ≤ d.slip := by
      have hhigh := le_abs_self (toRat d.upper)
      have hlow := neg_abs_le (toRat d.lower)
      have hstep := d.toRat_step_nonneg
      unfold slip
      linarith
    have hscaled : values.length * (toRat d.step - d.slip)
        < (d.estimatedLength + 2 : Nat) * (toRat d.step - d.slip) := by
      push_cast
      linarith
    have hlength := lt_of_mul_lt_mul_right hscaled (by linarith)
    have hlength : values.length < d.estimatedLength + 2 := by exact_mod_cast hlength
    omega
  . unfold sequence at h
    rw [sequence.go_of_not_le hle] at h
    cases h
    exact Nat.zero_le _

end Domain

namespace Columns

variable {limit : Nat} {ds : List Domain}

theorem sum_length_le {columns : List (List Float)} {a b : Nat}
    (hlength : ∀ d ∈ ds, ∀ values, d.sequence = .ok values →
      values.length ≤ a * d.estimatedLength + b)
    (h : ds.mapM Domain.sequence = .ok columns) :
    (columns.map List.length).sum ≤ a * estimatedTotal ds + b * ds.length := by
  induction ds generalizing columns with
  | nil =>
    cases h
    exact Nat.zero_le _
  | cons d ds ih =>
    obtain ⟨values, later, hvalues, hlater, rfl⟩ := mapM_cons_eq_ok h
    have hfirst := hlength d List.mem_cons_self values hvalues
    have hrest := ih (fun d' hd' => hlength d' (List.mem_cons_of_mem d hd')) hlater
    unfold estimatedTotal at *
    simp only [List.map_cons, List.sum_cons, List.length_cons]
    linarith

/--
The check of the sizes bounds the number of values that are generated, with one more value for each
domain as long as its steps are long enough. A step may otherwise be rounded to less than it was
declared, but there are never more than three values for each one estimated.
-/
theorem sum_length_build_le {flag flag' : CancelFlag} {cs : Columns} (hlimit : limit < maxCount)
    (h : build ds limit flag = .ok (cs, flag')) :
    ((∀ d ∈ ds, d.Steady) → (cs.values.map List.length).sum ≤ limit + ds.length) ∧
      (cs.values.map List.length).sum ≤ 3 * limit + 2 * ds.length := by
  obtain ⟨hsizes, hcolumns, -⟩ := columns_of_build h
  obtain ⟨-, hlengths, htotal⟩ := checkSizes_nil_eq_ok_iff.mp hsizes
  have hmax : ∀ d ∈ ds, d.estimatedLength < maxCount := by
    intro d hd
    have := hlengths d hd
    omega
  constructor
  . intro hsteady
    have hlength : ∀ d ∈ ds, ∀ values, d.sequence = .ok values →
        values.length ≤ 1 * d.estimatedLength + 1 := by
      intro d hd values hvalues
      rw [one_mul]
      exact (hsteady d hd).length_sequence_le (hmax d hd) hvalues
    have := sum_length_le hlength hcolumns
    omega
  . have hlength : ∀ d ∈ ds, ∀ values, d.sequence = .ok values →
        values.length ≤ 3 * d.estimatedLength + 2 := by
      intro d hd values hvalues
      exact d.length_sequence_le (hmax d hd) hvalues
    have := sum_length_le hlength hcolumns
    omega

theorem sum_length_build_le_fractions :
    ∃ ds cs flag, Domain.parseSpec "x:0:0.1:0.3,y:-1:1.5:2" = .ok ds ∧ (∀ d ∈ ds, d.Steady) ∧
      build ds 6 .never = .ok (cs, flag) ∧ (cs.values.map List.length).sum ≤ 6 + ds.length := by
  have hbuild : ((Domain.parseSpec "x:0:0.1:0.3,y:-1:1.5:2").toOption.any fun ds =>
      (∀ d ∈ ds, d.Steady) && (build ds 6 .never).toOption.any fun _ => true) = true := by
    decide +kernel
  obtain ⟨ds, hparse, hbuild⟩ := exists_of_any_toOption hbuild
  rw [Bool.and_eq_true, decide_eq_true_eq] at hbuild
  obtain ⟨⟨cs, flag⟩, hcolumns, -⟩ := exists_of_any_toOption hbuild.2
  exact ⟨ds, cs, flag, hparse, hbuild.1, hcolumns,
    (sum_length_build_le (by decide) hcolumns).1 hbuild.1⟩

theorem build_rounded_steps :
    ∃ d cs flag, Domain.parse "x:0:1.4e-12:1.4e-11" = .ok d ∧ d.estimatedLength = 11 ∧
      build [d] 11 .never = .ok (cs, flag) ∧ (cs.values.map List.length).sum = 15 := by
  have hbuild : ((Domain.parse "x:0:1.4e-12:1.4e-11").toOption.any fun d =>
      d.estimatedLength == 11 && (build [d] 11 .never).toOption.any fun built =>
        (built.1.values.map List.length).sum == 15) = true := by
    decide +kernel
  obtain ⟨d, hparse, hbuild⟩ := exists_of_any_toOption hbuild
  rw [Bool.and_eq_true, beq_iff_eq] at hbuild
  obtain ⟨⟨cs, flag⟩, hcolumns, hsum⟩ := exists_of_any_toOption hbuild.2
  exact ⟨d, cs, flag, hparse, hbuild.1, hcolumns, eq_of_beq hsum⟩

end Columns

end Sweep
