import Sweep.Expression.Grammar

/-!
This module contains the agreement of the lexemes of expressions with the grammar: a recognised text
is one that the grammar allows, and a text that the grammar allows is recognised to its end.
-/

namespace Sweep

open Grammar (IsDigits Numeral Identifier)

theorem Grammar.Identifier.eq_ofList {cs : List Char} {name : String} (h : Identifier cs name) :
    name = String.ofList cs := by
  cases h
  rfl

namespace Lexeme

def Stops (cs : List Char) : Prop :=
  ∀ c ∈ cs.head?, isIdentifierChar c = false ∧ c ≠ '.'

theorem stops_nil : Stops [] := by
  simp [Stops]

theorem stops_symbol (op : Operator) (cs : List Char) : Stops (op.symbol :: cs) := by
  intro c hc
  cases hc
  cases op <;> decide

theorem stops_closing (cs : List Char) : Stops (')' :: cs) := by
  intro c hc
  cases hc
  decide

theorem isIdentifierChar_of_isDigit {c : Char} (h : isDigit c) : isIdentifierChar c := by
  simp [isIdentifierChar, h]

theorem isDigit_false_of_isLower {c : Char} (h : isLower c) : isDigit c = false := by
  simp only [isLower, Bool.and_eq_true, decide_eq_true_eq] at h
  simp only [isDigit, Bool.and_eq_false_iff, decide_eq_false_iff_not]
  right
  intro hc
  have := Char.le_trans h.1 hc
  contradiction

theorem takeWhile_of_stops {p : Char → Bool} {cs : List Char} (h : Stops cs)
    (hp : ∀ c, p c → isIdentifierChar c) : cs.takeWhile p = [] := by
  cases cs with
  | nil => rfl
  | cons c cs =>
    apply List.takeWhile_cons_of_neg
    intro hc
    have := (h c rfl).1
    rw [hp c hc] at this
    contradiction

theorem dropWhile_of_stops {p : Char → Bool} {cs : List Char} (h : Stops cs)
    (hp : ∀ c, p c → isIdentifierChar c) : cs.dropWhile p = cs := by
  have hcs := List.takeWhile_append_dropWhile (p := p) (l := cs)
  rw [takeWhile_of_stops h hp] at hcs
  exact hcs

theorem fraction_of_stops {cs : List Char} (h : Stops cs) : fraction cs = [] := by
  unfold fraction
  split
  . have := (h '.' rfl).2
    contradiction
  . rfl

theorem number?_eq_none {c : Char} {cs : List Char} (h : isDigit c = false) :
    number? (c :: cs) = none := by
  simp [number?, h]

theorem numeral_of_number? {cs : List Char} {l : Lexeme Float} (h : number? cs = some l) :
    Numeral l.text l.value := by
  unfold number? at h
  simp only at h
  split at h
  . contradiction
  . next hwhole =>
    have hdigits : IsDigits (cs.takeWhile isDigit) := by
      constructor
      . simpa using hwhole
      . exact List.all_eq_true.mp List.all_takeWhile
    split at h
    . cases h
      apply Numeral.whole hdigits
    . next hfraction =>
      cases h
      apply Numeral.point hdigits
      constructor
      . simpa using hfraction
      . unfold fraction
        split
        . exact List.all_eq_true.mp List.all_takeWhile
        . simp

theorem identifier_of_identifier? {cs : List Char} {l : Lexeme String}
    (h : identifier? cs = some l) : Identifier l.text l.value := by
  unfold identifier? at h
  split at h
  . contradiction
  . next c rest =>
    split at h
    . next hfirst =>
      cases h
      apply Identifier.intro hfirst
      exact List.all_eq_true.mp List.all_takeWhile
    . contradiction

theorem number?_append {cs rest : List Char} {value : Float} (h : Numeral cs value)
    (hrest : Stops rest) : number? (cs ++ rest) = some { value, text := cs, rest } := by
  have htake := takeWhile_of_stops hrest @isIdentifierChar_of_isDigit
  have hdrop := dropWhile_of_stops hrest @isIdentifierChar_of_isDigit
  cases h with
  | whole h =>
    simp [number?, List.takeWhile_append_of_pos h.2, List.dropWhile_append_of_pos h.2, htake, hdrop,
      fraction_of_stops hrest, h.1]
  | @point ds fs hwhole hfraction =>
    have hpoint : isDigit '.' = false := by decide
    simp [number?, List.takeWhile_append_of_pos hwhole.2, List.dropWhile_append_of_pos hwhole.2,
      hpoint, fraction, List.takeWhile_append_of_pos hfraction.2,
      List.dropWhile_append_of_pos hfraction.2, htake, hdrop, hwhole.1, hfraction.1]

theorem number?_of_identifier {cs : List Char} {name : String} (h : Identifier cs name)
    (rest : List Char) : number? (cs ++ rest) = none := by
  cases h with
  | intro hfirst _ => exact number?_eq_none (isDigit_false_of_isLower hfirst)

theorem identifier?_append {cs rest : List Char} {name : String} (h : Identifier cs name)
    (hrest : Stops rest) : identifier? (cs ++ rest) = some { value := name, text := cs, rest } := by
  have htake := takeWhile_of_stops hrest fun _ hc => hc
  have hdrop := dropWhile_of_stops hrest fun _ hc => hc
  cases h with
  | intro hfirst h =>
    simp [identifier?, hfirst, List.takeWhile_append_of_pos h, List.dropWhile_append_of_pos h,
      htake, hdrop]

end Lexeme

end Sweep
