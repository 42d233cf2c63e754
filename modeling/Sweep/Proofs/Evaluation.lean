import Sweep.Expression.Semantics
import Sweep.Proofs.Decimals
import Sweep.Proofs.NotANumber
import Sweep.Proofs.Outcomes
import Sweep.Proofs.Parsing

/-!
This module contains the evaluation of expressions: a tree has a value if and only if no tree within
it fails, and otherwise the first one that fails is to blame.
-/

open Float.Model (UnpackedFloat)

namespace Sweep

open Grammar (Numeral Derives)

namespace Number

variable {x : Float}

theorem beq_zero_iff : (x == 0) = true ↔ x = 0 ∨ x = -0 := by
  have hbeq : (x == 0) = (x.toModel.unpack.compare (.zero .positive) == some .eq) := by
    rfl
  have hzero : (0 : Float).toModel.unpack = .zero .positive := by
    rfl
  have hneg : (-0 : Float).toModel.unpack = .zero .negative := by
    rfl
  rw [hbeq, eq_iff_unpack_eq, eq_iff_unpack_eq, hzero, hneg]
  cases x.toModel.unpack with
  | notANumber => simp [UnpackedFloat.compare]
  | infinity s => cases s <;> simp [UnpackedFloat.compare]
  | zero s => cases s <;> simp [UnpackedFloat.compare]
  | finite s m e h => cases s <;> simp [UnpackedFloat.compare]

end Number

namespace Operator

variable {op : Operator} {a b value : Float} {blame blame' : Node → EvalError} {node : Node}

theorem yields_iff : op.Yields a b value ↔ value = op.apply a b := by
  constructor
  . intro h
    cases h <;> rfl
  . rintro rfl
    cases op with
    | add => exact .add a b
    | subtract => exact .subtract a b
    | multiply => exact .multiply a b
    | divide => exact .divide a b
    | power => exact .power a b

theorem Fault.unique (h : op.Fault a b blame) (h' : op.Fault a b blame') : blame = blame' := by
  cases h with
  | zeroOverZero hleft hright =>
    cases h' with
    | zeroOverZero => rfl
    | divisionByZero hleft' => contradiction
    | notANumber hdefined => exact absurd ⟨rfl, hright⟩ hdefined
  | divisionByZero hleft hright =>
    cases h' with
    | zeroOverZero => contradiction
    | divisionByZero hleft' => rfl
    | notANumber hdefined => exact absurd ⟨rfl, hright⟩ hdefined
  | notANumber hdefined =>
    cases h' with
    | zeroOverZero _ hright => exact absurd ⟨rfl, hright⟩ hdefined
    | divisionByZero _ hright => exact absurd ⟨rfl, hright⟩ hdefined
    | notANumber => rfl

theorem Fault.message (h : op.Fault a b blame) (node : Node) :
    ∃ reason, (blame node).message = reason ++ " at node '" ++ node.text ++ "'" := by
  cases h with
  | zeroOverZero => exact ⟨"Undefined result (0/0)", rfl⟩
  | divisionByZero => exact ⟨"Division by zero", rfl⟩
  | notANumber => exact ⟨"NaN obtained during computation", rfl⟩

end Operator

namespace Node

variable {node t left right : Node} {op : Operator} {a b value : Float} {lookup : Lookup}
  {tuple : List Float} {error : EvalError} {cs : List Char}

/-! One operation. -/

theorem not_isNaN_of_combine (h : node.combine op a b = .ok value) : value.isNaN = false := by
  unfold combine at h
  split at h
  . contradiction
  . split at h
    . contradiction
    . dsimp only at h
      split at h
      . contradiction
      . next hvalue =>
        cases h
        simpa using hvalue

theorem combine_cases (node : Node) (op : Operator) (ha : a.isNaN = false) (hb : b.isNaN = false) :
    (node.combine op a b = .ok (op.apply a b) ∧ ∀ blame, ¬op.Fault a b blame) ∨
    ∃ blame, op.Fault a b blame ∧ node.combine op a b = .error (blame node) := by
  unfold combine
  simp only [ha, hb, Number.beq_zero_iff]
  by_cases hdivide : op = .divide ∧ (b = 0 ∨ b = -0)
  . obtain ⟨rfl, hzero⟩ := hdivide
    right
    by_cases ha : a = 0 ∨ a = -0
    . exact ⟨.zeroOverZero, .zeroOverZero ha hzero, by simp [ha, hzero]⟩
    . exact ⟨.divisionByZero, .divisionByZero ha hzero, by simp [ha, hzero]⟩
  . cases hvalue : (op.apply a b).isNaN with
    | true =>
      right
      have hfault := Operator.Fault.notANumber hdivide (Operator.yields_iff.mpr rfl) hvalue
      exact ⟨.notANumber, hfault, by simp [hdivide]⟩
    | false =>
      left
      refine ⟨by simp [hdivide], ?_⟩
      intro blame hfault
      cases hfault with
      | zeroOverZero _ hzero => exact hdivide ⟨rfl, hzero⟩
      | divisionByZero _ hzero => exact hdivide ⟨rfl, hzero⟩
      | notANumber _ hyields hnan =>
        rw [Operator.yields_iff.mp hyields, hvalue] at hnan
        contradiction

theorem combine_eq_ok_iff (ha : a.isNaN = false) (hb : b.isNaN = false) :
    node.combine op a b = .ok value ↔ (∀ blame, ¬op.Fault a b blame) ∧ value = op.apply a b := by
  rcases combine_cases node op ha hb with ⟨heq, hnone⟩ | ⟨blame, hfault, heq⟩
  . rw [heq]
    simp [hnone, eq_comm]
  . rw [heq]
    simp only [reduceCtorEq, false_iff]
    rintro ⟨hnone, -⟩
    exact hnone blame hfault

theorem combine_eq_error_iff (ha : a.isNaN = false) (hb : b.isNaN = false) :
    node.combine op a b = .error error ↔ ∃ blame, op.Fault a b blame ∧ error = blame node := by
  rcases combine_cases node op ha hb with ⟨heq, hnone⟩ | ⟨blame, hfault, heq⟩
  . rw [heq]
    simp [hnone]
  . rw [heq]
    constructor
    . intro h
      cases h
      exact ⟨blame, hfault, rfl⟩
    . rintro ⟨blame', hfault', rfl⟩
      rw [hfault.unique hfault']

/-! Values. -/

theorem not_isNaN_of_numeral (h : Numeral cs value) : value.isNaN = false := by
  cases h <;> exact Number.not_isNaN_of_signed (Decimal.signed_toFloat _)

theorem evaluate_binary :
    (binary op left right).evaluate lookup tuple
      =
    left.evaluate lookup tuple >>= fun a =>
      right.evaluate lookup tuple >>= fun b => (binary op left right).combine op a b := by
  rfl

theorem not_isNaN_of_evaluate (ht : Derives cs t) (htuple : ∀ x ∈ tuple, x.isNaN = false)
    (h : t.evaluate lookup tuple = .ok value) : value.isNaN = false := by
  cases ht with
  | number hnumeral =>
    cases h
    exact not_isNaN_of_numeral hnumeral
  | identifier _ =>
    unfold evaluate at h
    split at h
    . next hslot =>
      cases h
      obtain ⟨slot, -, hget⟩ := Option.bind_eq_some_iff.mp hslot
      exact htuple value (List.mem_of_getElem? hget)
    . contradiction
  | operation op _ _ =>
    rw [evaluate_binary] at h
    obtain ⟨a, -, h⟩ := bind_eq_ok h
    obtain ⟨b, -, h⟩ := bind_eq_ok h
    exact not_isNaN_of_combine h

theorem evaluate_eq_ok_iff (ht : Derives cs t) (htuple : ∀ x ∈ tuple, x.isNaN = false) :
    t.evaluate lookup tuple = .ok value ↔ Evaluates lookup tuple t value := by
  induction ht generalizing value with
  | number _ =>
    constructor
    . intro h
      cases h
      exact .const _
    . intro h
      cases h
      rfl
  | identifier _ =>
    unfold evaluate
    constructor
    . intro h
      split at h
      . next hslot =>
        cases h
        exact .var hslot
      . contradiction
    . intro h
      cases h with
      | var hslot => rw [hslot]
  | operation op hleft hright ihleft ihright =>
    rw [evaluate_binary]
    constructor
    . intro h
      obtain ⟨a, ha, h⟩ := bind_eq_ok h
      obtain ⟨b, hb, h⟩ := bind_eq_ok h
      rw [combine_eq_ok_iff (not_isNaN_of_evaluate hleft htuple ha)
        (not_isNaN_of_evaluate hright htuple hb)] at h
      exact .binary (ihleft.mp ha) (ihright.mp hb) h.1 (Operator.yields_iff.mpr h.2)
    . intro h
      cases h with
      | binary ha hb hnone hyields =>
        have ha := ihleft.mpr ha
        have hb := ihright.mpr hb
        rw [ha, bind_ok, hb, bind_ok, combine_eq_ok_iff (not_isNaN_of_evaluate hleft htuple ha)
          (not_isNaN_of_evaluate hright htuple hb)]
        exact ⟨hnone, Operator.yields_iff.mp hyields⟩

theorem not_isNaN_of_evaluates (ht : Derives cs t) (htuple : ∀ x ∈ tuple, x.isNaN = false)
    (h : Evaluates lookup tuple t value) : value.isNaN = false := by
  apply not_isNaN_of_evaluate ht htuple
  exact (evaluate_eq_ok_iff ht htuple).mpr h

/-! Errors. -/

theorem fails_binary_iff :
    Fails lookup tuple (binary op left right) error ↔
      ∃ a b blame, Evaluates lookup tuple left a ∧ Evaluates lookup tuple right b ∧
        op.Fault a b blame ∧ error = blame (binary op left right) := by
  constructor
  . intro h
    cases h with
    | binary hleft hright hfault => exact ⟨_, _, _, hleft, hright, hfault, rfl⟩
  . rintro ⟨a, b, blame, hleft, hright, hfault, rfl⟩
    exact .binary hleft hright hfault

theorem failsFirst_combine (hleft : Derives cs left) {cs' : List Char} (hright : Derives cs' right)
    (htuple : ∀ x ∈ tuple, x.isNaN = false) (ha : left.evaluate lookup tuple = .ok a)
    (hb : right.evaluate lookup tuple = .ok b) :
    FailsFirst (Fails lookup tuple) [binary op left right]
      ((binary op left right).combine op a b) := by
  intro error
  rw [combine_eq_error_iff (not_isNaN_of_evaluate hleft htuple ha)
    (not_isNaN_of_evaluate hright htuple hb)]
  simp only [first_cons_iff, not_first_nil, and_false, or_false, fails_binary_iff,
    ← evaluate_eq_ok_iff hleft htuple, ← evaluate_eq_ok_iff hright htuple, ha, hb,
    Except.ok.injEq, exists_and_left, exists_eq_left']

theorem failsFirst_evaluate (ht : Derives cs t) (htuple : ∀ x ∈ tuple, x.isNaN = false) :
    FailsFirst (Fails lookup tuple) t.postorder (t.evaluate lookup tuple) := by
  induction ht with
  | number _ =>
    intro error
    have hnone : ∀ value error, ¬Fails lookup tuple (const value) error := nofun
    simp [postorder, evaluate, first_cons_iff, not_first_nil, hnone]
  | @identifier _ name _ =>
    intro error
    have hfails : Fails lookup tuple (var name) error ↔
        (lookup name).bind (tuple[·]?) = none ∧ error = .unknownVariable name := by
      constructor
      . intro h
        cases h with
        | var hslot => exact ⟨hslot, rfl⟩
      . rintro ⟨hslot, rfl⟩
        exact .var hslot
    simp only [postorder, evaluate, first_cons_iff, not_first_nil, and_false, or_false, hfails]
    cases (lookup name).bind (tuple[·]?) with
    | none => simp [eq_comm]
    | some value => simp
  | operation op hleft hright ihleft ihright =>
    rw [evaluate_binary, postorder, List.append_assoc]
    apply ihleft.bind
    intro a ha
    apply ihright.bind
    intro b hb
    exact failsFirst_combine hleft hright htuple ha hb

theorem derives_of_mem_postorder (ht : Derives cs t) (h : node ∈ t.postorder) :
    ∃ cs', Derives cs' node := by
  induction ht with
  | number hnumeral =>
    rw [postorder, List.mem_singleton] at h
    rw [h]
    exact ⟨_, .number hnumeral⟩
  | identifier hname =>
    rw [postorder, List.mem_singleton] at h
    rw [h]
    exact ⟨_, .identifier hname⟩
  | operation op hleft hright ihleft ihright =>
    rw [postorder, List.mem_append, List.mem_append, List.mem_singleton] at h
    rcases h with (h | h) | h
    . exact ihleft h
    . exact ihright h
    . rw [h]
      exact ⟨_, .operation op hleft hright⟩

end Node

namespace Expression

open Node (Evaluates Fails)

variable {e : Expression} {source : String} {lookup : Lookup} {tuple : List Float}

/--
An expression has a value, and then a number, if and only if no tree within it fails. Otherwise the
error is that of the first tree that fails, the operands of an operation before the operation
itself. An operation is named in its error only if both of its operands are numbers.
-/
theorem evaluate_first_failure (h : parse source = .ok e) (htuple : ∀ x ∈ tuple, x.isNaN = false) :
    (∀ value, e.root.evaluate lookup tuple = .ok value ↔ Evaluates lookup tuple e.root value) ∧
    (∀ value, e.root.evaluate lookup tuple = .ok value → value.isNaN = false) ∧
    ((∃ value, e.root.evaluate lookup tuple = .ok value) ↔
      ∀ node ∈ e.root.postorder, ∀ error, ¬Fails lookup tuple node error) ∧
    (∀ error, e.root.evaluate lookup tuple = .error error ↔
      First (Fails lookup tuple) e.root.postorder error) ∧
    (∀ op left right error, .binary op left right ∈ e.root.postorder →
      Fails lookup tuple (.binary op left right) error →
      ∃ a b reason, Evaluates lookup tuple left a ∧ Evaluates lookup tuple right b ∧
        a.isNaN = false ∧ b.isNaN = false ∧
        error.message = reason ++ " at node '" ++ (Node.binary op left right).text ++ "'") := by
  have hroot := (derives_of_parse h).1
  have hfails : FailsFirst (Fails lookup tuple) e.root.postorder
      (e.root.evaluate lookup tuple) := Node.failsFirst_evaluate hroot htuple
  refine ⟨?_, ?_, hfails.isOk_iff, hfails, ?_⟩
  . intro value
    exact Node.evaluate_eq_ok_iff hroot htuple
  . intro value hvalue
    exact Node.not_isNaN_of_evaluate hroot htuple hvalue
  . intro op left right error hmem herror
    obtain ⟨a, b, blame, ha, hb, hfault, rfl⟩ := Node.fails_binary_iff.mp herror
    obtain ⟨reason, hmessage⟩ := hfault.message (.binary op left right)
    obtain ⟨cs, hderives⟩ := Node.derives_of_mem_postorder hroot hmem
    cases hderives with
    | operation _ hleft hright =>
      exact ⟨a, b, reason, ha, hb, Node.not_isNaN_of_evaluates hleft htuple ha,
        Node.not_isNaN_of_evaluates hright htuple hb, hmessage⟩

theorem evaluate_first_failure_quotient :
    let quotient : Node := .binary .divide (.var "x") (.binary .subtract (.var "y") (.var "y"))
    let product : Node := .binary .multiply (.binary .add (.var "x") (.const 2)) (.var "y")
    let lookup : Lookup := fun name => ["x", "y"].idxOf? name
    parse "(x / (y - y))" = .ok { root := quotient, source := "(x / (y - y))" } ∧
      parse "((x + 2) * y)" = .ok { root := product, source := "((x + 2) * y)" } ∧
      (∀ x ∈ [1.5, -2.5], x.isNaN = false) ∧
      First (Fails lookup [1.5, -2.5]) quotient.postorder (.divisionByZero quotient) ∧
      ∃ value, Evaluates lookup [1.5, -2.5] product value ∧ value = -8.75 := by
  intro quotient product lookup
  have hquotient : parse "(x / (y - y))" = .ok { root := quotient, source := "(x / (y - y))" } := by
    rfl
  have hproduct : parse "((x + 2) * y)" = .ok { root := product, source := "((x + 2) * y)" } := by
    rfl
  have htuple : ∀ x ∈ [1.5, -2.5], x.isNaN = false := by
    decide +kernel
  refine ⟨hquotient, hproduct, htuple, ?_, ?_⟩
  . apply ((evaluate_first_failure hquotient htuple).2.2.2.1 _).mp
    rfl
  . refine ⟨(1.5 + 2) * -2.5, ((evaluate_first_failure hproduct htuple).1 _).mp rfl, ?_⟩
    decide +kernel

end Expression

end Sweep
