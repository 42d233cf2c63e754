import Sweep.Proofs.Breaks
import Sweep.Proofs.RoundTrip

/-!
This module contains the places that the errors of expressions name. What stands in front of such a
place can be completed to an expression, and what is found there ends every hope of that, unless it
is a point behind a whole number.
-/

namespace Sweep

open Grammar
open Lexeme (isDigit isIdentifierChar)

/-! The points of a text. -/

namespace Grammar

def EndsInWhole (cs : List Char) : Prop :=
  ∃ before ds, cs = before ++ ds ∧ IsDigits ds ∧
    ∀ c ∈ before.getLast?, isIdentifierChar c = false ∧ c ≠ '.'

def Pointed (cs : List Char) : Prop :=
  ∀ before after, cs = before ++ '.' :: after →
    EndsInWhole before ∧ ∃ d ∈ after.head?, isDigit d

variable {cs ds before : List Char} {c : Char} {t : Node}

theorem EndsInWhole.append (h : EndsInWhole ds) (hc : isIdentifierChar c = false ∧ c ≠ '.')
    (cs : List Char) : EndsInWhole (cs ++ c :: ds) := by
  obtain ⟨before, digits, rfl, hdigits, hlast⟩ := h
  refine ⟨cs ++ c :: before, digits, by simp, hdigits, ?_⟩
  cases hbefore : before.getLast? with
  | none =>
    rw [List.getLast?_eq_none_iff.mp hbefore]
    simpa using hc
  | some last =>
    rw [hbefore] at hlast
    simpa [List.getLast?_append, List.getLast?_cons, hbefore] using hlast

theorem pointed_of_not_mem (h : '.' ∉ cs) : Pointed cs := by
  rintro before after rfl
  simp at h

theorem Pointed.join (hcs : Pointed cs) (hds : Pointed ds)
    (hc : isIdentifierChar c = false ∧ c ≠ '.') : Pointed (cs ++ c :: ds) := by
  intro before after heq
  rcases List.append_eq_append_iff.mp heq with ⟨before', rfl, hafter⟩ | ⟨after', rfl, hafter⟩
  . -- the point stands behind `c`
    cases before' with
    | nil =>
      have := (List.cons.inj hafter).1
      exact absurd this hc.2
    | cons c' before' =>
      obtain ⟨rfl, rfl⟩ := List.cons.inj hafter
      obtain ⟨hwhole, hdigit⟩ := hds _ _ rfl
      exact ⟨hwhole.append hc cs, hdigit⟩
  . -- the point stands in front of `c`
    cases after' with
    | nil =>
      have := (List.cons.inj hafter).1
      exact absurd this.symm hc.2
    | cons point after' =>
      obtain ⟨rfl, rfl⟩ := List.cons.inj hafter
      obtain ⟨hwhole, d, hd, hdigit⟩ := hcs _ _ rfl
      refine ⟨hwhole, d, ?_, hdigit⟩
      obtain ⟨rest, rfl⟩ := List.head?_eq_some_iff.mp hd
      rfl

theorem pointed_of_numeral {value : Float} (h : Numeral cs value) : Pointed cs := by
  have hpoint : ∀ {ds : List Char}, IsDigits ds → '.' ∉ ds := by
    intro ds hdigits hmem
    have := hdigits.2 '.' hmem
    contradiction
  cases h with
  | whole hdigits => exact pointed_of_not_mem (hpoint hdigits)
  | @point ds fs hwhole hfraction =>
    intro before after heq
    obtain ⟨rfl, -, rfl⟩ :=
      (List.append_cons_inj_of_notMem (hpoint hwhole) (hpoint hfraction)).mp heq
    refine ⟨⟨[], ds, rfl, hwhole, by simp⟩, ?_⟩
    obtain ⟨d, fs, rfl⟩ := List.exists_cons_of_ne_nil hfraction.1
    exact ⟨d, rfl, hfraction.2 d List.mem_cons_self⟩

theorem pointed_of_identifier {name : String} (h : Identifier cs name) : Pointed cs := by
  apply pointed_of_not_mem
  intro hmem
  cases h with
  | intro hfirst hrest =>
    rcases List.mem_cons.mp hmem with rfl | hmem
    . contradiction
    . have := hrest '.' hmem
      contradiction

theorem pointed_of_operation {ls rs : List Char} (hls : Pointed ls) (op : Operator)
    (hrs : Pointed rs) : Pointed ('(' :: (ls ++ op.symbol :: rs)) := by
  have hopening : isIdentifierChar '(' = false ∧ '(' ≠ '.' := by
    decide
  have hnil : Pointed [] := pointed_of_not_mem (by simp)
  exact hnil.join (hls.join hrs (Lexeme.stops_symbol op [] _ rfl)) hopening

theorem pointed_of_derives (h : Derives cs t) : Pointed cs := by
  induction h with
  | number h => exact pointed_of_numeral h
  | identifier h => exact pointed_of_identifier h
  | operation op _ _ ihleft ihright =>
    have hnil : Pointed [] := pointed_of_not_mem (by simp)
    exact pointed_of_operation ihleft op (ihright.join hnil (Lexeme.stops_closing [] _ rfl))

/-! What a derivable text can be lengthened by. -/

inductive Lengthens (cs : List Char) : List Char → Prop
  | nothing : Lengthens cs []
  | fraction (h : EndsInWhole cs) : Lengthens cs ['.', '0']

theorem EndsInWhole.of_append (h : EndsInWhole (cs ++ c :: ds)) (hc : isDigit c = false) :
    EndsInWhole ds := by
  obtain ⟨before, digits, heq, hdigits, hlast⟩ := h
  have hnot : c ∉ digits := by
    intro hmem
    have := hdigits.2 c hmem
    rw [hc] at this
    contradiction
  rcases List.append_eq_append_iff.mp heq with ⟨before', rfl, htail⟩ | ⟨after', rfl, rfl⟩
  . cases before' with
    | nil =>
      subst htail
      simp at hnot
    | cons c' before' =>
      obtain ⟨rfl, rfl⟩ := List.cons.inj htail
      refine ⟨before', digits, rfl, hdigits, ?_⟩
      intro last hmem
      rw [Option.mem_def] at hmem
      apply hlast
      simp [List.getLast?_append, List.getLast?_cons, hmem]
  . simp at hnot

theorem not_endsInWhole_nil : ¬EndsInWhole [] := by
  rintro ⟨before, digits, heq, hdigits, -⟩
  exact hdigits.1 (List.append_eq_nil_iff.mp heq.symm).2

theorem Lengthens.of_append {more : List Char} (cs : List Char)
    (h : Lengthens (cs ++ c :: ds) more) (hc : isDigit c = false) : Lengthens ds more := by
  cases h with
  | nothing => exact .nothing
  | fraction h => exact .fraction (h.of_append hc)

theorem Lengthens.eq_nil {more : List Char} (h : Lengthens [] more) : more = [] := by
  cases h with
  | nothing => rfl
  | fraction h => exact absurd h not_endsInWhole_nil

theorem isDigits_of_plain (hplain : ∀ c ∈ cs, isIdentifierChar c ∨ c = '.') (h : EndsInWhole cs) :
    IsDigits cs := by
  obtain ⟨before, digits, rfl, hdigits, hlast⟩ := h
  cases hbefore : before.getLast? with
  | none =>
    rw [List.getLast?_eq_none_iff.mp hbefore]
    exact hdigits
  | some c =>
    have hc := hlast c hbefore
    have := hplain c (List.mem_append_left _ (List.mem_of_getLast? hbefore))
    simp [hc] at this

theorem isDigits_zero : IsDigits ['0'] := by
  constructor <;> simp [isDigit]

theorem derives_fraction (h : IsDigits cs) :
    ∃ value, Derives (cs ++ ['.', '0']) (.const value) := by
  exact ⟨_, .number (.point h isDigits_zero)⟩

theorem Lengthens.derives {more : List Char} (h : Lengthens cs more) (hcs : Derives cs t) :
    ∃ t', Derives (cs ++ more) t' ∧ t'.height = t.height := by
  cases h with
  | nothing => exact ⟨t, by simpa using hcs, rfl⟩
  | fraction h =>
    cases hcs with
    | number hcs =>
      obtain ⟨value, hvalue⟩ := derives_fraction (isDigits_of_plain (plain_of_numeral hcs) h)
      exact ⟨_, hvalue, rfl⟩
    | identifier hcs =>
      obtain ⟨value, hvalue⟩ := derives_fraction (isDigits_of_plain (plain_of_identifier hcs) h)
      exact ⟨_, hvalue, rfl⟩
    | @operation ls rs _ _ op _ _ =>
      have hsplit : '(' :: (ls ++ op.symbol :: (rs ++ [')']))
          = '(' :: (ls ++ op.symbol :: rs) ++ [')'] := by
        simp
      rw [hsplit] at h
      exact absurd (h.of_append (by decide)) not_endsInWhole_nil

theorem isDigit_symbol (op : Operator) : isDigit op.symbol = false := by
  cases op <;> decide

theorem derives_zero : Derives ['0'] (.const (Decimal.ofDigits ['0'] [] 0).toFloat) := by
  apply Derives.number
  exact Numeral.whole isDigits_zero

theorem derives_add_zero (h : Derives cs t) :
    ∃ t', Derives ('(' :: (cs ++ ['+', '0', ')'])) t' ∧ t'.height = t.height + 1 := by
  refine ⟨_, Derives.operation .add h derives_zero, ?_⟩
  simp [Node.height]

end Grammar

/-! What can still be completed where the reading of a tree breaks off. -/

namespace Cursor.Breaks

variable {levels : Nat} {before rest : List Char} {blame : Nat → Char → ParseError}

theorem pointed (h : Breaks levels before rest blame) : Pointed before := by
  have hopening : isIdentifierChar '(' = false ∧ '(' ≠ '.' := by
    decide
  have hnil : Pointed [] := pointed_of_not_mem (by simp)
  induction h with
  | operand | level => exact hnil
  | left _ ih => exact hnil.join ih hopening
  | operator hleft | symbol hleft => exact hnil.join (pointed_of_derives hleft.derives) hopening
  | right hleft _ op _ ih => exact pointed_of_operation (pointed_of_derives hleft) op ih
  | closing hleft _ op hright =>
    exact pointed_of_operation (pointed_of_derives hleft) op (pointed_of_derives hright.derives)

theorem completes {longer : List Char} (h : Breaks levels before rest blame)
    (hlonger : Lengthens before longer) :
    ∃ more t, Derives (before ++ longer ++ more) t ∧ t.height ≤ levels := by
  -- what is begun is ended with the least height: a zero, or a zero that is added
  induction h with
  | operand | level =>
    rw [hlonger.eq_nil]
    exact ⟨_, _, derives_zero, Nat.zero_le _⟩
  | left _ ih =>
    obtain ⟨more, left, hleft, hheight⟩ := ih (hlonger.of_append [] (by decide))
    obtain ⟨t, hderives, ht⟩ := derives_add_zero hleft
    exact ⟨more ++ ['+', '0', ')'], t, by simpa using hderives, by omega⟩
  | operator hleft hheight | symbol hleft hheight =>
    obtain ⟨left, hleft, hsame⟩ := (hlonger.of_append [] (by decide)).derives hleft.derives
    obtain ⟨t, hderives, ht⟩ := derives_add_zero hleft
    exact ⟨['+', '0', ')'], t, by simpa using hderives, by omega⟩
  | @right _ ls _ _ left _ hleft hheight op _ ih =>
    obtain ⟨more, right, hright, hheight'⟩ :=
      ih (hlonger.of_append ('(' :: ls) (isDigit_symbol op))
    refine ⟨more ++ [')'], .binary op left right, ?_, ?_⟩
    . simpa using Derives.operation op hleft hright
    . simp [Node.height, hheight, hheight']
  | @closing _ ls _ _ left _ hleft hheight op hright hheight' =>
    obtain ⟨right, hright, hsame⟩ :=
      (hlonger.of_append ('(' :: ls) (isDigit_symbol op)).derives hright.derives
    refine ⟨[')'], .binary op left right, ?_, ?_⟩
    . simpa using Derives.operation op hleft hright
    . simp [Node.height, hheight, hheight', hsame]

end Cursor.Breaks

/-! The places that errors name. -/

namespace ParseError

def position : ParseError → Nat
  | unexpectedEnd position => position
  | unexpectedChar position _ => position
  | expectedDelimiter position _ _ => position
  | expectedOperator position _ => position
  | unknownOperator position _ => position
  | tooDeep position _ => position
  | trailingInput position _ => position

def found? : ParseError → Option Char
  | unexpectedEnd _ => none
  | unexpectedChar _ found => some found
  | expectedDelimiter _ _ found => some found
  | expectedOperator _ found => some found
  | unknownOperator _ found => some found
  | tooDeep _ _ => none
  | trailingInput _ found => some found

def PointsAt (error : ParseError) (position : Nat) (c : Char) : Prop :=
  error.position = position ∧
    -- a bracket that is one too many is not shown
    (error.found? = some c ∨ error = .tooDeep position Cursor.maxNesting ∧ c = '(')

end ParseError

theorem Cursor.Breaks.pointsAt {levels : Nat} {before rest : List Char} {c : Char}
    {blame : Nat → Char → ParseError} (h : Breaks levels before (c :: rest) blame)
    (position : Nat) : (blame position c).PointsAt position c := by
  generalize hrest : c :: rest = behind at h
  induction h with
  | level =>
    cases hrest
    exact ⟨rfl, .inr ⟨rfl, rfl⟩⟩
  | left _ ih | right _ _ _ _ ih => exact ih hrest
  | operand | operator | symbol | closing => exact ⟨rfl, .inl rfl⟩

namespace Expression

/--
The text can be completed to one without blanks that is accepted.
-/
def Viable (cs : List Char) : Prop :=
  ∃ text e, parse text = .ok e ∧ (∀ c ∈ text.toList, ¬Text.isBlank c) ∧ cs <+: text.toList

inductive Breaks (before rest : List Char) : (Nat → Char → ParseError) → Prop
  | inside {blame : Nat → Char → ParseError}
    (h : Cursor.Breaks Cursor.maxNesting before rest blame) : Breaks before rest blame
  | behind {t : Node} (h : Cursor.Ends before t rest) (hheight : t.height ≤ Cursor.maxNesting)
    (hrest : rest ≠ []) : Breaks before rest .trailingInput

variable {source : String} {cs before rest rest' : List Char} {c : Char} {t : Node}
  {blame : Nat → Char → ParseError}

theorem strip_ofList_of_derives (h : Derives cs t) : Text.strip (String.ofList cs).toList = cs := by
  rw [String.toList_ofList, Text.strip_eq_self (not_isBlank_of_derives h)]

theorem viable_iff :
    Viable cs ↔ ∃ more t, Derives (cs ++ more) t ∧ t.height ≤ Cursor.maxNesting := by
  constructor
  . rintro ⟨text, e, hparse, hblanks, more, htext⟩
    obtain ⟨hderives, hheight, -⟩ := derives_of_parse hparse
    rw [Text.strip_eq_self hblanks, ← htext] at hderives
    exact ⟨more, e.root, hderives, hheight⟩
  . rintro ⟨more, t, hderives, hheight⟩
    have hparse : Derives (Text.strip (String.ofList (cs ++ more)).toList) t := by
      rwa [strip_ofList_of_derives hderives]
    refine ⟨String.ofList (cs ++ more), _, parse_of_derives hparse hheight, ?_, ?_⟩
    . rw [String.toList_ofList]
      exact not_isBlank_of_derives hderives
    . rw [String.toList_ofList]
      exact List.prefix_append cs more

theorem parse_cases (source : String) :
    (∃ e, parse source = .ok e) ∨
    ∃ before rest blame, Text.strip source.toList = before ++ rest ∧ Breaks before rest blame := by
  generalize hcs : Text.strip source.toList = cs
  cases Cursor.halts Cursor.maxNesting cs with
  | @breaks before rest blame h => exact .inr ⟨before, rest, blame, rfl, .inside h⟩
  | @ends cs rest t h hheight =>
    cases rest with
    | nil =>
      left
      refine ⟨_, parse_of_derives ?_ hheight⟩
      rw [hcs, List.append_nil]
      exact h.derives
    | cons c rest =>
      right
      exact ⟨cs, c :: rest, _, rfl, .behind h hheight nofun⟩

namespace Breaks

theorem parse_eq (h : Breaks before rest blame) (hcs : Text.strip source.toList = before ++ rest) :
    parse source
      =
    .error (Cursor.stuck { position := Text.byteLength before, rest } blame).error := by
  cases h with
  | inside h =>
    have hread := Cursor.readNode_of_breaks h 0
    unfold parse Cursor.start Cursor.read
    rw [hcs, hread, Nat.zero_add]
  | behind h hheight hrest =>
    have hread := Cursor.readNode_of_ends h hheight 0
    obtain ⟨c, rest, rfl⟩ := List.exists_cons_of_ne_nil hrest
    unfold parse Cursor.start Cursor.read
    rw [hcs, hread, Nat.zero_add]
    rfl

theorem congr (h : Breaks before rest blame) (hrest : rest' ≠ [])
    (hglance : Lexeme.glance rest = Lexeme.glance rest') : Breaks before rest' blame := by
  cases h with
  | inside h => exact .inside (h.congr hglance)
  | behind h hheight => exact .behind (h.congr hglance) hheight hrest

theorem pointed (h : Breaks before rest blame) : Pointed before := by
  cases h with
  | inside h => exact h.pointed
  | behind h => exact pointed_of_derives h.derives

theorem viable {longer : List Char} (h : Breaks before rest blame)
    (hlonger : Lengthens before longer) : Viable (before ++ longer) := by
  rw [viable_iff]
  cases h with
  | inside h => exact h.completes hlonger
  | behind h hheight =>
    obtain ⟨t, hderives, hsame⟩ := hlonger.derives h.derives
    exact ⟨[], t, by simpa using hderives, by omega⟩

theorem pointsAt (h : Breaks before (c :: rest) blame) (position : Nat) :
    (blame position c).PointsAt position c := by
  cases h with
  | inside h => exact h.pointsAt position
  | behind => exact ⟨rfl, .inl rfl⟩

theorem glance_ne (h : Breaks before rest blame) (hderives : Derives (before ++ rest') t)
    (hheight : t.height ≤ Cursor.maxNesting) (hrest : rest' ≠ []) :
    Lexeme.glance rest ≠ Lexeme.glance rest' := by
  intro hglance
  have htext := strip_ofList_of_derives hderives
  have hrefused := (h.congr hrest hglance).parse_eq htext
  rw [← htext] at hderives
  rw [parse_of_derives hderives hheight] at hrefused
  contradiction

theorem viable_append_iff (h : Breaks before (c :: rest) blame) :
    Viable (before ++ [c]) ↔
      c = '.' ∧ EndsInWhole before ∧ ∀ d ∈ rest.head?, isDigit d = false := by
  constructor
  . intro hviable
    obtain ⟨more, t, hderives, hheight⟩ := viable_iff.mp hviable
    rw [List.append_assoc, List.singleton_append] at hderives
    have hglance := h.glance_ne hderives hheight (List.cons_ne_nil c more)
    have hc : c = '.' := by
      by_contra hc
      exact hglance (Lexeme.glance_cons hc rest more)
    subst hc
    obtain ⟨hwhole, d, hd, hdigit⟩ := pointed_of_derives hderives before more rfl
    refine ⟨rfl, hwhole, ?_⟩
    intro d' hd'
    rw [← Bool.not_eq_true]
    intro hdigit'
    exact hglance (Lexeme.glance_point hd' hdigit' hd hdigit)
  . rintro ⟨rfl, hwhole, -⟩
    rw [viable_iff]
    obtain ⟨more, t, hderives, hheight⟩ := viable_iff.mp (h.viable (.fraction hwhole))
    exact ⟨'0' :: more, t, by simpa using hderives, hheight⟩

theorem dangling_of_viable (h : Breaks before (c :: rest) blame)
    (hviable : Viable (before ++ c :: rest)) : c = '.' ∧ EndsInWhole before ∧ rest = [] := by
  obtain ⟨more, t, hderives, hheight⟩ := viable_iff.mp hviable
  rw [List.append_assoc, List.cons_append] at hderives
  have hfound : Viable (before ++ [c]) := by
    rw [viable_iff]
    exact ⟨rest ++ more, t, by simpa using hderives, hheight⟩
  obtain ⟨rfl, hwhole, hrest⟩ := h.viable_append_iff.mp hfound
  refine ⟨rfl, hwhole, ?_⟩
  obtain ⟨-, d, hd, hdigit⟩ := pointed_of_derives hderives before (rest ++ more) rfl
  cases rest with
  | nil => rfl
  | cons d' rest =>
    cases hd
    have := hrest d rfl
    rw [hdigit] at this
    contradiction

end Breaks

theorem parse_eq_unexpectedEnd_iff {position : Nat} :
    parse source = .error (.unexpectedEnd position) ↔
      position = Text.byteLength (Text.strip source.toList) ∧
        Viable (Text.strip source.toList) ∧ (∀ e, parse source ≠ .ok e) ∧
        ¬∃ before, Text.strip source.toList = before ++ ['.'] ∧ EndsInWhole before := by
  rcases parse_cases source with ⟨e, hok⟩ | ⟨before, rest, blame, hcs, hbreaks⟩
  . simp [hok]
  . rw [hbreaks.parse_eq hcs, hcs]
    cases rest with
    | nil =>
      rw [List.append_nil]
      constructor
      . intro h
        cases h
        refine ⟨rfl, by simpa using hbreaks.viable .nothing, nofun, ?_⟩
        rintro ⟨before, rfl, -⟩
        obtain ⟨-, d, hd, -⟩ := hbreaks.pointed before [] rfl
        contradiction
      . rintro ⟨rfl, -⟩
        rfl
    | cons c rest =>
      constructor
      . intro h
        have hpoints := hbreaks.pointsAt (Text.byteLength before)
        rw [show blame (Text.byteLength before) c = .unexpectedEnd position from
          Except.error.inj h] at hpoints
        simp [ParseError.PointsAt, ParseError.found?] at hpoints
      . rintro ⟨-, hviable, -, hdangling⟩
        obtain ⟨rfl, hwhole, rfl⟩ := hbreaks.dangling_of_viable hviable
        exact absurd ⟨before, rfl, hwhole⟩ hdangling

theorem breaks_of_parse {error : ParseError} (h : parse source = .error error) :
    ∃ before rest blame, Text.strip source.toList = before ++ rest ∧ Breaks before rest blame ∧
      error = (Cursor.stuck { position := Text.byteLength before, rest } blame).error := by
  rcases parse_cases source with ⟨e, hok⟩ | ⟨before, rest, blame, hcs, hbreaks⟩
  . rw [hok] at h
    contradiction
  . rw [hbreaks.parse_eq hcs] at h
    exact ⟨before, rest, blame, hcs, hbreaks, (Except.error.inj h).symm⟩

/--
An error is about the first place at which the text can no longer be completed. The end of the text
is to blame if and only if all of it can be completed. Only the point behind a whole number is
refused too early, when no digit comes after it.
-/
theorem parse_points_at_culprit (source : String) :
    (∀ position, parse source = .error (.unexpectedEnd position) ↔
      position = Text.byteLength (Text.strip source.toList) ∧
        Viable (Text.strip source.toList) ∧ (∀ e, parse source ≠ .ok e) ∧
        ¬∃ before, Text.strip source.toList = before ++ ['.'] ∧ EndsInWhole before) ∧
    ∀ error, parse source = .error error →
      ∃ before rest, Text.strip source.toList = before ++ rest ∧
        error.position = Text.byteLength before ∧ Viable before ∧
        ((∃ position, error = .unexpectedEnd position) ∨
          ∃ c rest', rest = c :: rest' ∧
            error.position < Text.byteLength (Text.strip source.toList) ∧
            error.PointsAt (Text.byteLength before) c ∧
            (Viable (before ++ [c]) ↔
              c = '.' ∧ EndsInWhole before ∧ ∀ d ∈ rest'.head?, isDigit d = false)) := by
  constructor
  . intro position
    exact parse_eq_unexpectedEnd_iff
  . intro error h
    obtain ⟨before, rest, blame, hcs, hbreaks, rfl⟩ := breaks_of_parse h
    have hviable : Viable before := by
      simpa using hbreaks.viable .nothing
    refine ⟨before, rest, hcs, ?_⟩
    cases rest with
    | nil => exact ⟨rfl, hviable, .inl ⟨_, rfl⟩⟩
    | cons c rest =>
      have hpoints := hbreaks.pointsAt (Text.byteLength before)
      have hinside : Text.byteLength before < Text.byteLength (Text.strip source.toList) := by
        have hsize := c.utf8Size_pos
        rw [hcs, Text.byteLength_append, Text.byteLength_cons]
        omega
      refine ⟨hpoints.1, hviable, .inr ⟨c, rest, rfl, ?_, hpoints, hbreaks.viable_append_iff⟩⟩
      exact hpoints.1.trans_lt hinside

example : parse "(x+(1.*y))" = .error (.unknownOperator 5 '.') := by
  rfl

end Expression

end Sweep
