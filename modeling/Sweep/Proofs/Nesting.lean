import Sweep.Proofs.Lexemes

/-!
This module contains the nesting of brackets in derivable texts. The brackets of such a text are
balanced, and they are nested exactly as deep as the operations of its tree.
-/

namespace Sweep.Grammar

open Lexeme (isDigit isIdentifierChar)

variable {cs ds ls rs : List Char} {t : Node}

@[simp]
theorem openBrackets_nil : openBrackets [] = 0 := by
  rfl

@[simp]
theorem openBrackets_append (cs ds : List Char) :
    openBrackets (cs ++ ds) = openBrackets cs + openBrackets ds := by
  simp only [openBrackets, List.count_append]
  omega

theorem openBrackets_cons (c : Char) (cs : List Char) :
    openBrackets (c :: cs) = openBrackets [c] + openBrackets cs := by
  rw [← openBrackets_append]
  rfl

@[simp]
theorem openBrackets_opening (cs : List Char) :
    openBrackets ('(' :: cs) = 1 + openBrackets cs := by
  apply openBrackets_cons

@[simp]
theorem openBrackets_closing (cs : List Char) :
    openBrackets (')' :: cs) = -1 + openBrackets cs := by
  apply openBrackets_cons

@[simp]
theorem openBrackets_symbol (op : Operator) (cs : List Char) :
    openBrackets (op.symbol :: cs) = openBrackets cs := by
  rw [openBrackets_cons]
  cases op <;> apply Int.zero_add

@[simp]
theorem nestsWithin_nil {levels : Int} : NestsWithin levels [] ↔ 0 ≤ levels := by
  simp [NestsWithin]

theorem nestsWithin_cons {levels : Int} {c : Char} :
    NestsWithin levels (c :: cs) ↔ 0 ≤ levels ∧ NestsWithin (levels - openBrackets [c]) cs := by
  constructor
  . intro h
    constructor
    . apply h []
      apply List.nil_prefix
    . intro before hbefore
      have := h (c :: before) (List.cons_prefix_cons.mpr ⟨rfl, hbefore⟩)
      rw [openBrackets_cons] at this
      omega
  . intro h before hbefore
    rcases List.prefix_cons_iff.mp hbefore with rfl | ⟨rest, rfl, hrest⟩
    . exact h.1
    . have := h.2 rest hrest
      rw [openBrackets_cons]
      omega

@[simp]
theorem nestsWithin_append {levels : Int} :
    NestsWithin levels (cs ++ ds) ↔
      NestsWithin levels cs ∧ NestsWithin (levels - openBrackets cs) ds := by
  induction cs generalizing levels with
  | nil =>
    simp only [List.nil_append, nestsWithin_nil, openBrackets_nil, Int.sub_zero]
    constructor
    . intro h
      exact ⟨h [] List.nil_prefix, h⟩
    . intro h
      exact h.2
  | cons c cs ih =>
    simp only [List.cons_append, nestsWithin_cons, ih]
    rw [openBrackets_cons c cs, Int.sub_sub, and_assoc]

@[simp]
theorem nestsWithin_opening {levels : Int} :
    NestsWithin levels ('(' :: cs) ↔ 0 ≤ levels ∧ NestsWithin (levels - 1) cs := by
  apply nestsWithin_cons

@[simp]
theorem nestsWithin_closing {levels : Int} :
    NestsWithin levels (')' :: cs) ↔ 0 ≤ levels ∧ NestsWithin (levels + 1) cs := by
  rw [nestsWithin_cons, openBrackets_closing, openBrackets_nil, Int.sub_eq_add_neg]
  rfl

@[simp]
theorem nestsWithin_symbol {levels : Int} (op : Operator) :
    NestsWithin levels (op.symbol :: cs) ↔ 0 ≤ levels ∧ NestsWithin levels cs := by
  rw [nestsWithin_cons, openBrackets_symbol, openBrackets_nil, Int.sub_zero]

theorem nestsWithin_mono {levels more : Int} (h : NestsWithin levels cs) (hle : levels ≤ more) :
    NestsWithin more cs := by
  intro before hbefore
  apply Int.le_trans (h before hbefore) hle

/-! Texts without brackets. -/

theorem openBrackets_of_plain (h : ∀ c ∈ cs, isIdentifierChar c ∨ c = '.') :
    openBrackets cs = 0 := by
  have hopening : cs.count '(' = 0 := by
    apply List.count_eq_zero_of_not_mem
    intro hc
    have := h '(' hc
    contradiction
  have hclosing : cs.count ')' = 0 := by
    apply List.count_eq_zero_of_not_mem
    intro hc
    have := h ')' hc
    contradiction
  simp [openBrackets, hopening, hclosing]

theorem nestsWithin_of_plain {levels : Int} (h : ∀ c ∈ cs, isIdentifierChar c ∨ c = '.') :
    NestsWithin levels cs ↔ 0 ≤ levels := by
  constructor
  . intro hcs
    apply hcs []
    apply List.nil_prefix
  . intro hlevels before hbefore
    rw [openBrackets_of_plain]
    . exact hlevels
    . intro c hc
      apply h c
      apply hbefore.subset hc

theorem plain_of_numeral {value : Float} (h : Numeral cs value) :
    ∀ c ∈ cs, isIdentifierChar c ∨ c = '.' := by
  intro c hc
  cases h with
  | whole h =>
    left
    apply Lexeme.isIdentifierChar_of_isDigit (h.2 c hc)
  | point hwhole hfraction =>
    rcases List.mem_append.mp hc with hc | hc
    . left
      apply Lexeme.isIdentifierChar_of_isDigit (hwhole.2 c hc)
    . rcases List.mem_cons.mp hc with rfl | hc
      . right
        rfl
      . left
        apply Lexeme.isIdentifierChar_of_isDigit (hfraction.2 c hc)

theorem plain_of_identifier {name : String} (h : Identifier cs name) :
    ∀ c ∈ cs, isIdentifierChar c ∨ c = '.' := by
  intro c hc
  left
  cases h with
  | intro hfirst hrest =>
    rcases List.mem_cons.mp hc with rfl | hc
    . simp [isIdentifierChar, hfirst]
    . exact hrest c hc

/-! Derivable texts. -/

theorem openBrackets_of_derives (h : Derives cs t) : openBrackets cs = 0 := by
  induction h with
  | number h => exact openBrackets_of_plain (plain_of_numeral h)
  | identifier h => exact openBrackets_of_plain (plain_of_identifier h)
  | operation op _ _ ihleft ihright => simp [ihleft, ihright]

theorem nestsWithin_iff_height_le {levels : Int} (h : Derives cs t) :
    NestsWithin levels cs ↔ t.height ≤ levels := by
  induction h generalizing levels with
  | number h => exact nestsWithin_of_plain (plain_of_numeral h)
  | identifier h => exact nestsWithin_of_plain (plain_of_identifier h)
  | operation op hleft hright ihleft ihright =>
    simp only [nestsWithin_opening, nestsWithin_append, nestsWithin_symbol, nestsWithin_closing,
      nestsWithin_nil, ihleft, ihright, openBrackets_of_derives hleft,
      openBrackets_of_derives hright, Node.height]
    omega

/-! The first bracket that is nested too deep. -/

variable {before after : List Char} {levels : Nat}

theorem exceeds_zero (cs : List Char) : Exceeds 0 ('(' :: cs) [] cs := by
  constructor
  . rfl
  . rfl
  . simp

theorem Exceeds.of_left (h : Exceeds levels ls before after) (ds : List Char) :
    Exceeds (levels + 1) ('(' :: (ls ++ ds)) ('(' :: before) (after ++ ds) := by
  constructor
  . rw [h.text_eq]
    simp
  . rw [openBrackets_opening, h.openBrackets_eq]
    omega
  . rw [nestsWithin_opening]
    constructor
    . omega
    . apply nestsWithin_mono h.nestsWithin
      omega

theorem Exceeds.of_right (hleft : Derives ls t) (hheight : t.height ≤ levels)
    (h : Exceeds levels rs before after) (op : Operator) (ds : List Char) :
    Exceeds (levels + 1) ('(' :: (ls ++ op.symbol :: (rs ++ ds)))
      ('(' :: (ls ++ op.symbol :: before)) (after ++ ds) := by
  constructor
  . rw [h.text_eq]
    simp
  . simp only [openBrackets_opening, openBrackets_append, openBrackets_symbol,
      openBrackets_of_derives hleft, h.openBrackets_eq]
    omega
  . simp only [nestsWithin_opening, nestsWithin_append, nestsWithin_symbol,
      openBrackets_of_derives hleft, nestsWithin_iff_height_le hleft]
    refine ⟨?_, ?_, ?_, ?_⟩
    . omega
    . omega
    . omega
    . apply nestsWithin_mono h.nestsWithin
      omega

end Sweep.Grammar
