import Sweep.Proofs.Parsing
import Sweep.Proofs.Printing

/-!
This module contains the reading of canonical texts. The text of a tree is read back as that tree,
except that a constant too large for 64 bits is printed as a name and read back as a variable.
-/

open Float.Model (UnpackedFloat)
open Float.Model.UnpackedFloat

namespace Sweep

open Grammar
open Packing (Signed)
open Rounding (Magnitude)

namespace Text

theorem not_isBlank_of_isGraphic {c : Char} (hlow : 0x21 ≤ c.toNat) (hhigh : c.toNat ≤ 0x7e) :
    ¬isBlank c := by
  intro hblank
  obtain ⟨range, hrange, hfirst, hlast⟩ := (CodeTable.contains_iff blanks c).mp hblank
  have hbetween : ∀ range ∈ blanks.ranges, range.2 ≤ 0x20 ∨ 0x7f ≤ range.1 := by
    decide
  have := hbetween range hrange
  omega

theorem not_isBlank_of_isIdentifierChar {c : Char} (h : Lexeme.isIdentifierChar c) :
    ¬isBlank c := by
  simp only [Lexeme.isIdentifierChar, Lexeme.isLower, Number.isDigit, Bool.or_eq_true,
    Bool.and_eq_true, decide_eq_true_eq, Char.le_def, UInt32.le_iff_toNat_le] at h
  have hcode : (0x61 ≤ c.toNat ∧ c.toNat ≤ 0x7a) ∨ (0x30 ≤ c.toNat ∧ c.toNat ≤ 0x39) := h
  apply not_isBlank_of_isGraphic
  . omega
  . omega

end Text

namespace Node

def reread : Node → Node
  -- the text of an infinite constant is a name
  | const value => if value.isInf then var "inf" else const value
  | var name => var name
  | binary op left right => binary op left.reread right.reread

def constants : Node → List Float
  | const value => [value]
  | var _ => []
  | binary _ left right => left.constants ++ right.constants

theorem height_reread (t : Node) : t.reread.height = t.height := by
  induction t with
  | const value =>
    unfold reread
    split <;> rfl
  | var name => rfl
  | binary op left right ihleft ihright => simp [reread, height, ihleft, ihright]

theorem reread_eq_self_iff {t : Node} :
    t.reread = t ↔ ∀ value ∈ t.constants, value.isInf = false := by
  induction t with
  | const value => simp [reread, constants]
  | var name => simp [reread, constants]
  | binary op left right ihleft ihright =>
    simp only [reread, constants, binary.injEq, true_and, ihleft, ihright, List.mem_append]
    constructor
    . rintro ⟨hleft, hright⟩ value (hvalue | hvalue)
      . exact hleft value hvalue
      . exact hright value hvalue
    . intro h
      exact ⟨fun value hvalue => h value (.inl hvalue), fun value hvalue => h value (.inr hvalue)⟩

end Node

namespace Grammar

variable {cs : List Char} {t : Node} {value : Float}

theorem signed_of_numeral (h : Numeral cs value) : Signed .positive value.toModel.unpack := by
  cases h <;> apply Decimal.signed_toFloat

theorem identifier_inf : Identifier ['i', 'n', 'f'] "inf" := by
  apply Identifier.intro
  . rfl
  . simp [Lexeme.isIdentifierChar, Lexeme.isLower]

theorem derives_toText (h : Numeral cs value) :
    Derives (Number.toText value).toList (Node.const value).reread := by
  have hisInf : value.isInf = value.toModel.unpack.isInf := by rfl
  unfold Node.reread
  rcases Number.magnitude_or_eq_infinity (signed_of_numeral h) with hmagnitude | rfl
  . have hnumeral := Number.numeral_toText hmagnitude
    generalize value.toModel.unpack = u at hisInf hmagnitude
    rw [hisInf, if_neg (by cases hmagnitude <;> simp [UnpackedFloat.isInf])]
    exact Derives.number hnumeral
  . rw [if_pos (by rfl), Number.toText_infinity]
    exact Derives.identifier identifier_inf

theorem derives_text (h : Derives cs t) : Derives t.text.toList t.reread := by
  induction h with
  | number h => exact derives_toText h
  | @identifier cs name h =>
    have htext : (Node.var name).text.toList = cs := by
      cases h
      simp [Node.text]
    rw [htext]
    exact Derives.identifier h
  | @operation ls rs left right op _ _ ihleft ihright =>
    have htext : (Node.binary op left right).text.toList
        = '(' :: (left.text.toList ++ op.symbol :: (right.text.toList ++ [')'])) := by
      simp [Node.text]
    rw [htext]
    exact Derives.operation op ihleft ihright

inductive IsSymbol : Char → Prop
  | word {c : Char} (h : Lexeme.isIdentifierChar c) : IsSymbol c
  | point : IsSymbol '.'
  | opening : IsSymbol '('
  | operator (op : Operator) : IsSymbol op.symbol
  | closing : IsSymbol ')'

theorem isSymbol_of_plain {c : Char} (h : Lexeme.isIdentifierChar c ∨ c = '.') : IsSymbol c := by
  rcases h with hword | rfl
  . exact .word hword
  . exact .point

theorem isSymbol_of_derives (h : Derives cs t) : ∀ c ∈ cs, IsSymbol c := by
  induction h with
  | number h =>
    intro c hc
    exact isSymbol_of_plain (plain_of_numeral h c hc)
  | identifier h =>
    intro c hc
    exact isSymbol_of_plain (plain_of_identifier h c hc)
  | operation op _ _ ihleft ihright =>
    intro c hc
    simp only [List.mem_cons, List.mem_append, List.not_mem_nil, or_false] at hc
    rcases hc with rfl | hc | rfl | hc | rfl
    . exact .opening
    . exact ihleft c hc
    . exact .operator op
    . exact ihright c hc
    . exact .closing

theorem IsSymbol.not_isBlank {c : Char} (h : IsSymbol c) : ¬Text.isBlank c := by
  cases h with
  | word hword => exact Text.not_isBlank_of_isIdentifierChar hword
  | point | opening | closing => decide
  | operator op => cases op <;> decide

theorem not_isBlank_of_derives (h : Derives cs t) : ∀ c ∈ cs, ¬Text.isBlank c := by
  intro c hc
  exact (isSymbol_of_derives h c hc).not_isBlank

end Grammar

namespace Expression

/--
The canonical text of an accepted expression is accepted again and read to its end. The tree is the
same one if and only if no number in the expression is too large for 64 bits.
-/
theorem parse_text_root {source : String} {e : Expression} (h : parse source = .ok e) :
    parse e.root.text = .ok { root := e.root.reread, source := e.root.text } ∧
    (∃ c, (Cursor.start e.root.text.toList).read = .ok (e.root.reread, c) ∧ c.rest = []) ∧
    (e.root.reread = e.root ↔ ∀ value ∈ e.root.constants, value.isInf = false) := by
  obtain ⟨hderives, hheight, -⟩ := derives_of_parse h
  have hagain := derives_text hderives
  rw [← Node.height_reread] at hheight
  refine ⟨?_, ?_, Node.reread_eq_self_iff⟩
  . apply parse_of_derives _ hheight
    rw [Text.strip_eq_self (not_isBlank_of_derives hagain)]
    exact hagain
  . have hread := Cursor.readNode_append hagain hheight Lexeme.stops_nil 0
    rw [List.append_nil] at hread
    exact ⟨_, hread, rfl⟩

theorem parse_text_root_overflow :
    let digits := List.replicate 310 '1'
    let e : Expression := {
      root := .binary .add (.var "x") (.const (Decimal.ofDigits digits [] 0).toFloat)
      source := String.ofList ('(' :: (['x'] ++ '+' :: (digits ++ [')'])))
    }
    parse e.source = .ok e ∧
      parse e.root.text = .ok {
        root := .binary .add (.var "x") (.var "inf")
        source := e.root.text
      } ∧
      e.root.reread ≠ e.root := by
  intro digits
  have hdigits : IsDigits digits := by
    constructor
    . exact nofun
    . intro c hc
      rw [List.eq_of_mem_replicate hc]
      rfl
  have hinf : (Decimal.ofDigits digits [] 0).toFloat.isInf = true := by
    decide +kernel
  clear_value digits
  intro e
  have hderives : Derives ('(' :: (['x'] ++ '+' :: (digits ++ [')']))) e.root :=
    .operation .add (.identifier (.intro rfl (by simp))) (.number (.whole hdigits))
  have hparse : parse e.source = .ok e := by
    apply parse_of_derives
    . rw [String.toList_ofList, Text.strip_eq_self (not_isBlank_of_derives hderives)]
      exact hderives
    . show (1 : Nat) ≤ 256
      decide
  have hreread : e.root.reread = .binary .add (.var "x") (.var "inf") := by
    simp [e, Node.reread, hinf]
  obtain ⟨hagain, -, hself⟩ := parse_text_root hparse
  rw [hreread] at hagain hself
  refine ⟨hparse, hagain, ?_⟩
  rw [hreread, ne_eq, hself]
  intro hfinite
  have := hfinite (Decimal.ofDigits digits [] 0).toFloat (by simp [e, Node.constants])
  rw [hinf] at this
  contradiction

end Expression

end Sweep
