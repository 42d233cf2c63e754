import Sweep.Proofs.Reading

/-!
This module contains the places at which the reading of a tree breaks off. They are described by the
text in front of them and by what is seen of the text behind them, which is one character, and
behind a point whether a digit comes next.
-/

namespace Sweep

open Grammar (Derives IsDigits Numeral Identifier)

/-! Lexemes and trees that end before a text. -/

namespace Lexeme

def glance (cs : List Char) : Option Char × Bool :=
  (cs.head?, (fraction cs).isEmpty)

variable {cs rest rest' : List Char} {value : Float} {name : String} {p : Char → Bool}

theorem head?_of_glance (h : glance rest = glance rest') : rest.head? = rest'.head? :=
  congrArg Prod.fst h

theorem fraction_of_glance (h : glance rest = glance rest') :
    fraction rest = [] ↔ fraction rest' = [] := by
  have hempty : (fraction rest).isEmpty = (fraction rest').isEmpty := congrArg Prod.snd h
  rw [← List.isEmpty_iff, hempty, List.isEmpty_iff]

theorem glance_cons {c : Char} (hc : c ≠ '.') (cs ds : List Char) :
    glance (c :: cs) = glance (c :: ds) := by
  unfold glance fraction
  split
  . next heq => exact absurd (List.cons.inj heq).1 hc
  . split
    . next heq => exact absurd (List.cons.inj heq).1 hc
    . rfl

theorem glance_point {c d : Char} {cs ds : List Char} (hc : c ∈ cs.head?) (hcdigit : isDigit c)
    (hd : d ∈ ds.head?) (hddigit : isDigit d) : glance ('.' :: cs) = glance ('.' :: ds) := by
  obtain ⟨cs, rfl⟩ := List.head?_eq_some_iff.mp hc
  obtain ⟨ds, rfl⟩ := List.head?_eq_some_iff.mp hd
  simp [glance, fraction, hcdigit, hddigit]

theorem takeWhile_of_head? (h : rest.head? = rest'.head?) :
    rest.takeWhile p = [] ↔ rest'.takeWhile p = [] := by
  cases rest <;> cases rest' <;> simp_all [List.takeWhile_cons]

theorem dropWhile_of_takeWhile (h : rest.takeWhile p = []) : rest.dropWhile p = rest := by
  have hrest := List.takeWhile_append_dropWhile (p := p) (l := rest)
  rwa [h] at hrest

theorem number?_whole_iff {ds : List Char} (hdigits : IsDigits ds) (rest : List Char) :
    number? (ds ++ rest)
      =
    some { value := (Decimal.ofDigits ds [] 0).toFloat, text := ds, rest } ↔
      rest.takeWhile isDigit = [] ∧ fraction rest = [] := by
  unfold number?
  simp only [List.takeWhile_append_of_pos hdigits.2, List.dropWhile_append_of_pos hdigits.2]
  constructor
  . intro h
    rw [if_neg (by simp [hdigits.1])] at h
    split at h
    . next hfraction =>
      simp only [Option.some.injEq, Lexeme.mk.injEq, List.append_right_eq_self] at h
      rw [h.2.2, List.isEmpty_iff] at hfraction
      exact ⟨h.2.1, hfraction⟩
    . simp at h
  . rintro ⟨hdigit, hfraction⟩
    simp [hdigit, dropWhile_of_takeWhile hdigit, hfraction, hdigits.1]

theorem number?_point_iff {ds fs : List Char} (hwhole : IsDigits ds) (hfraction : IsDigits fs)
    (rest : List Char) :
    number? (ds ++ '.' :: fs ++ rest)
      =
    some { value := (Decimal.ofDigits ds fs 0).toFloat, text := ds ++ '.' :: fs, rest } ↔
      rest.takeWhile isDigit = [] := by
  have hpoint : isDigit '.' = false := by decide
  unfold number?
  simp only [List.append_assoc, List.cons_append, List.takeWhile_append_of_pos hwhole.2,
    List.dropWhile_append_of_pos hwhole.2, List.takeWhile_cons, List.dropWhile_cons, hpoint,
    Bool.false_eq_true, if_false, List.append_nil, fraction,
    List.takeWhile_append_of_pos hfraction.2, List.tail_cons,
    List.dropWhile_append_of_pos hfraction.2]
  rw [if_neg (by simp [hwhole.1]), if_neg (by simp [hfraction.1])]
  constructor
  . intro h
    simp only [Option.some.injEq, Lexeme.mk.injEq, List.append_cancel_left_eq, List.cons.injEq,
      List.append_right_eq_self] at h
    exact h.2.1.2
  . intro h
    rw [h, dropWhile_of_takeWhile h, List.append_nil]

theorem number?_congr (h : number? (cs ++ rest) = some { value, text := cs, rest })
    (hglance : glance rest = glance rest') :
    number? (cs ++ rest') = some { value, text := cs, rest := rest' } := by
  have hhead := head?_of_glance hglance
  have hnumeral : Numeral cs value := numeral_of_number? h
  cases hnumeral with
  | whole hdigits =>
    rw [number?_whole_iff hdigits, takeWhile_of_head? hhead, fraction_of_glance hglance] at h
    rwa [number?_whole_iff hdigits]
  | point hwhole hfraction =>
    rw [number?_point_iff hwhole hfraction, takeWhile_of_head? hhead] at h
    rwa [number?_point_iff hwhole hfraction]

theorem identifier?_iff (h : Identifier cs name) (rest : List Char) :
    identifier? (cs ++ rest) = some { value := name, text := cs, rest } ↔
      rest.takeWhile isIdentifierChar = [] := by
  cases h with
  | @intro c cs hfirst hcs =>
    simp only [List.cons_append, identifier?, if_pos hfirst, List.takeWhile_append_of_pos hcs,
      List.dropWhile_append_of_pos hcs]
    constructor
    . intro h
      simp only [Option.some.injEq, Lexeme.mk.injEq, List.cons.injEq,
        List.append_right_eq_self] at h
      exact h.2.1.2
    . intro h
      rw [h, dropWhile_of_takeWhile h, List.append_nil]

theorem identifier?_congr (h : identifier? (cs ++ rest) = some { value := name, text := cs, rest })
    (hglance : glance rest = glance rest') :
    identifier? (cs ++ rest') = some { value := name, text := cs, rest := rest' } := by
  have hidentifier : Identifier cs name := identifier_of_identifier? h
  rw [identifier?_iff hidentifier, takeWhile_of_head? (head?_of_glance hglance)] at h
  rwa [identifier?_iff hidentifier]

/-! What can begin in a text. -/

def StartsNothing (cs : List Char) : Prop :=
  ∀ c ∈ cs.head?, isIdentifierChar c = false ∧ c ≠ '('

theorem number?_of_startsNothing (h : StartsNothing cs) : number? cs = none := by
  cases cs with
  | nil => rfl
  | cons c cs =>
    apply number?_eq_none
    have := (h c rfl).1
    simp only [isIdentifierChar, Bool.or_eq_false_iff] at this
    exact this.2

theorem identifier?_of_startsNothing (h : StartsNothing cs) : identifier? cs = none := by
  cases cs with
  | nil => rfl
  | cons c cs =>
    have := (h c rfl).1
    simp only [isIdentifierChar, Bool.or_eq_false_iff] at this
    simp [identifier?, this.1]

theorem startsNothing_cons {c : Char} (hnumber : number? (c :: cs) = none)
    (hidentifier : identifier? (c :: cs) = none) (hc : c ≠ '(') : StartsNothing (c :: cs) := by
  intro d hd
  cases hd
  refine ⟨?_, hc⟩
  rw [isIdentifierChar, Bool.or_eq_false_iff]
  constructor
  . simpa [identifier?] using hidentifier
  . rw [← Bool.not_eq_true]
    intro hdigit
    simp only [number?, List.takeWhile_cons, hdigit, if_true, List.isEmpty_cons,
      Bool.false_eq_true, if_false] at hnumber
    split at hnumber <;> contradiction

end Lexeme

namespace Cursor

inductive Ends : List Char → Node → List Char → Prop
  | number {cs rest : List Char} {value : Float}
    (h : Lexeme.number? (cs ++ rest) = some { value, text := cs, rest }) :
    Ends cs (.const value) rest
  | identifier {cs rest : List Char} {name : String}
    (hnumber : Lexeme.number? (cs ++ rest) = none)
    (h : Lexeme.identifier? (cs ++ rest) = some { value := name, text := cs, rest }) :
    Ends cs (.var name) rest
  | operation {ls rs : List Char} {left right : Node} (op : Operator) (hleft : Derives ls left)
    (hright : Derives rs right) (rest : List Char) :
    Ends ('(' :: (ls ++ op.symbol :: (rs ++ [')']))) (.binary op left right) rest

inductive Breaks : Nat → List Char → List Char → (Nat → Char → ParseError) → Prop
  | operand {levels : Nat} {rest : List Char} (h : Lexeme.StartsNothing rest) :
    Breaks levels [] rest .unexpectedChar
  | level (rest : List Char) :
    Breaks 0 [] ('(' :: rest) fun position _ => .tooDeep position maxNesting
  | left {levels : Nat} {before rest : List Char} {blame : Nat → Char → ParseError}
    (h : Breaks levels before rest blame) : Breaks (levels + 1) ('(' :: before) rest blame
  | operator {levels : Nat} {ls rest : List Char} {left : Node} (hleft : Ends ls left rest)
    (hheight : left.height ≤ levels) (h : ∀ c ∈ rest.head?, Lexeme.isSymbol c = false) :
    Breaks (levels + 1) ('(' :: ls) rest .expectedOperator
  | symbol {levels : Nat} {ls rest : List Char} {c : Char} {left : Node}
    (hleft : Ends ls left (c :: rest)) (hheight : left.height ≤ levels) (hc : Lexeme.isSymbol c)
    (h : ∀ op : Operator, op.symbol ≠ c) :
    Breaks (levels + 1) ('(' :: ls) (c :: rest) .unknownOperator
  | right {levels : Nat} {ls before rest : List Char} {left : Node}
    {blame : Nat → Char → ParseError} (hleft : Derives ls left) (hheight : left.height ≤ levels)
    (op : Operator) (h : Breaks levels before rest blame) :
    Breaks (levels + 1) ('(' :: (ls ++ op.symbol :: before)) rest blame
  | closing {levels : Nat} {ls rs rest : List Char} {left right : Node} (hleft : Derives ls left)
    (hheight : left.height ≤ levels) (op : Operator) (hright : Ends rs right rest)
    (hheight' : right.height ≤ levels) (h : ')' ∉ rest.head?) :
    Breaks (levels + 1) ('(' :: (ls ++ op.symbol :: rs)) rest (.expectedDelimiter · .closing ·)

variable {levels : Nat} {cs ls rs before rest rest' : List Char} {t left right : Node}
  {blame : Nat → Char → ParseError}

theorem Ends.derives (h : Ends cs t rest) : Derives cs t := by
  cases h with
  | number h =>
    apply Derives.number
    exact Lexeme.numeral_of_number? h
  | identifier _ h =>
    apply Derives.identifier
    exact Lexeme.identifier_of_identifier? h
  | operation op hleft hright => exact Derives.operation op hleft hright

/-! Every text is read to the end of a tree or to a break. -/

inductive Halts (levels : Nat) : List Char → Prop
  | ends {cs rest : List Char} {t : Node} (h : Ends cs t rest) (hheight : t.height ≤ levels) :
    Halts levels (cs ++ rest)
  | breaks {before rest : List Char} {blame : Nat → Char → ParseError}
    (h : Breaks levels before rest blame) : Halts levels (before ++ rest)

theorem halts_right (hleft : Derives ls left) (hheight : left.height ≤ levels) (op : Operator)
    (h : Halts levels cs) : Halts (levels + 1) ('(' :: (ls ++ op.symbol :: cs)) := by
  cases h with
  | breaks h => simpa using Halts.breaks (h.right hleft hheight op)
  | @ends rs rest right hright hheight' =>
    cases rest with
    | nil => simpa using Halts.breaks (.closing hleft hheight op hright hheight' (by simp))
    | cons c rest =>
      by_cases hc : c = ')'
      . subst hc
        have hwhole : (Node.binary op left right).height ≤ levels + 1 := by
          simp only [Node.height]
          omega
        simpa using Halts.ends (Ends.operation op hleft hright.derives rest) hwhole
      . simpa using Halts.breaks (.closing hleft hheight op hright hheight' (by simpa using hc))

theorem halts_left (hleft : Ends ls left rest) (hheight : left.height ≤ levels)
    (h : ∀ cs, Halts levels cs) : Halts (levels + 1) ('(' :: (ls ++ rest)) := by
  cases rest with
  | nil => exact .breaks (.operator hleft hheight (by simp))
  | cons c rest =>
    by_cases hc : Lexeme.isSymbol c
    . by_cases hop : ∃ op : Operator, op.symbol = c
      . obtain ⟨op, rfl⟩ := hop
        exact halts_right hleft.derives hheight op (h rest)
      . exact .breaks (.symbol hleft hheight hc (by simpa using hop))
    . exact .breaks (.operator hleft hheight (by simpa using hc))

theorem halts_opening (h : ∀ cs, Halts levels cs) (cs : List Char) :
    Halts (levels + 1) ('(' :: cs) := by
  cases h cs with
  | ends hleft hheight => exact halts_left hleft hheight h
  | breaks h => exact .breaks h.left

theorem halts_of_opening (h : ∀ cs, Halts levels ('(' :: cs)) (cs : List Char) :
    Halts levels cs := by
  cases hnumber : Lexeme.number? cs with
  | some l =>
    have hcs := Lexeme.text_append_rest_of_number? hnumber
    rw [← hcs] at hnumber ⊢
    exact .ends (.number hnumber) (Nat.zero_le _)
  | none =>
    cases hidentifier : Lexeme.identifier? cs with
    | some l =>
      have hcs := Lexeme.text_append_rest_of_identifier? hidentifier
      rw [← hcs] at hnumber hidentifier ⊢
      exact .ends (.identifier hnumber hidentifier) (Nat.zero_le _)
    | none =>
      cases cs with
      | nil => exact .breaks (.operand (by simp [Lexeme.StartsNothing]))
      | cons c cs =>
        by_cases hc : c = '('
        . subst hc
          exact h cs
        . exact .breaks (.operand (Lexeme.startsNothing_cons hnumber hidentifier hc))

theorem halts (levels : Nat) (cs : List Char) : Halts levels cs := by
  -- both operands of an operation have one level less, whatever text they begin at
  induction levels generalizing cs with
  | zero =>
    apply halts_of_opening
    intro cs
    exact .breaks (.level cs)
  | succ below ih =>
    apply halts_of_opening
    exact halts_opening ih

/-! What the reading of a text gives there. -/

theorem readNode_of_ends (h : Ends cs t rest) (hheight : t.height ≤ levels) (position : Nat) :
    readNode levels { position, rest := cs ++ rest }
      =
    .ok (t, { position := position + Text.byteLength cs, rest }) := by
  cases h with
  | number h =>
    unfold readNode
    rw [h]
    rfl
  | identifier hnumber h =>
    unfold readNode
    simp only [hnumber]
    rw [h]
    rfl
  | operation op hleft hright =>
    simp only [Node.height] at hheight
    obtain ⟨below, rfl⟩ : ∃ below, levels = below + 1 := ⟨levels - 1, by omega⟩
    apply readNode_operation
    . exact readNode_append hleft (by omega) (Lexeme.stops_symbol op _) _
    . exact readNode_append hright (by omega) (Lexeme.stops_closing _)

theorem readOperator_of_symbol {c : Char} (hc : Lexeme.isSymbol c)
    (h : ∀ op : Operator, op.symbol ≠ c) (position : Nat) :
    readOperator { position, rest := c :: rest }
      =
    .error (stuck { position, rest := c :: rest } .unknownOperator) := by
  have hnone : Operator.ofSymbol? c = none := by
    rw [Option.eq_none_iff_forall_ne_some]
    intro op hop
    exact h op (Operator.ofSymbol?_eq_some_iff.mp hop)
  simp [readOperator, Lexeme.symbol?, hc, hnone]

theorem readOperator_of_not_isSymbol (h : ∀ c ∈ rest.head?, Lexeme.isSymbol c = false)
    (position : Nat) :
    readOperator { position, rest } = .error (stuck { position, rest } .expectedOperator) := by
  cases rest with
  | nil => rfl
  | cons c rest => simp [readOperator, Lexeme.symbol?, h c rfl]

theorem readDelimiter_of_not_mem {d : Delimiter} (h : d.symbol ∉ rest.head?) (position : Nat) :
    readDelimiter { position, rest } d
      =
    .error (stuck { position, rest } (.expectedDelimiter · d ·)) := by
  cases rest with
  | nil => rfl
  | cons c rest =>
    cases hfound : Delimiter.ofSymbol? c with
    | none => simp [readDelimiter, Lexeme.delimiter?, hfound]
    | some found =>
      have hsymbol : found.symbol = c := by
        simpa using List.find?_some hfound
      have hne : found ≠ d := by
        rintro rfl
        simp [hsymbol] at h
      simp [readDelimiter, Lexeme.delimiter?, hfound, hne]

theorem readNode_of_startsNothing (h : Lexeme.StartsNothing rest) (position : Nat) :
    readNode levels { position, rest } = .error (stuck { position, rest } .unexpectedChar) := by
  have hopening : Delimiter.opening.symbol ∉ rest.head? := by
    intro hc
    exact (h _ hc).2 rfl
  unfold readNode
  simp only [Lexeme.number?_of_startsNothing h, Lexeme.identifier?_of_startsNothing h,
    readDelimiter_of_not_mem hopening]

theorem readNode_of_breaks (h : Breaks levels before rest blame) (position : Nat) :
    readNode levels { position, rest := before ++ rest }
      =
    .error (stuck { position := position + Text.byteLength before, rest } blame) := by
  have hopening : '('.utf8Size = 1 := by rfl
  -- what stands in front of the break is read as it is in a whole tree, with nothing lost behind it
  induction h generalizing position with
  | operand h => exact readNode_of_startsNothing h position
  | level rest => exact readNode_zero_opening position rest
  | left h ih =>
    rw [List.cons_append, readNode_succ_opening, ih]
    simp [hopening, Nat.add_assoc]
  | operator hleft hheight h =>
    rw [List.cons_append, readNode_succ_opening, readNode_of_ends hleft hheight]
    simp only [bind_ok]
    rw [readOperator_of_not_isSymbol h]
    simp [hopening, Nat.add_assoc]
  | symbol hleft hheight hc h =>
    rw [List.cons_append, readNode_succ_opening, readNode_of_ends hleft hheight]
    simp only [bind_ok]
    rw [readOperator_of_symbol hc h]
    simp [hopening, Nat.add_assoc]
  | right hleft hheight op h ih =>
    simp only [List.cons_append, List.append_assoc]
    rw [readNode_succ_opening, readNode_append hleft hheight (Lexeme.stops_symbol op _)]
    simp only [bind_ok]
    rw [readOperator_symbol, bind_ok, ih]
    simp [hopening, utf8Size_symbol, Nat.add_assoc]
  | closing hleft hheight op hright hheight' h =>
    simp only [List.cons_append, List.append_assoc]
    rw [readNode_succ_opening, readNode_append hleft hheight (Lexeme.stops_symbol op _)]
    simp only [bind_ok]
    rw [readOperator_symbol, bind_ok, readNode_of_ends hright hheight']
    simp only [bind_ok]
    rw [readDelimiter_of_not_mem h]
    simp [hopening, utf8Size_symbol, Nat.add_assoc]

/-! Texts that look alike where the reading stops. -/

theorem Ends.congr (h : Ends cs t rest) (hglance : Lexeme.glance rest = Lexeme.glance rest') :
    Ends cs t rest' := by
  cases h with
  | number h => exact .number (Lexeme.number?_congr h hglance)
  | identifier _ h =>
    apply Ends.identifier
    . exact Lexeme.number?_of_identifier (Lexeme.identifier_of_identifier? h) rest'
    . exact Lexeme.identifier?_congr h hglance
  | operation op hleft hright => exact .operation op hleft hright rest'

theorem Breaks.congr (h : Breaks levels before rest blame)
    (hglance : Lexeme.glance rest = Lexeme.glance rest') : Breaks levels before rest' blame := by
  have hhead := Lexeme.head?_of_glance hglance
  induction h with
  | operand h =>
    apply Breaks.operand
    rwa [Lexeme.StartsNothing, ← hhead]
  | level rest =>
    obtain ⟨rest', rfl⟩ := List.head?_eq_some_iff.mp hhead.symm
    exact .level rest'
  | left _ ih => exact .left (ih hglance hhead)
  | operator hleft hheight h =>
    apply Breaks.operator (hleft.congr hglance) hheight
    rwa [← hhead]
  | symbol hleft hheight hc h =>
    obtain ⟨rest', rfl⟩ := List.head?_eq_some_iff.mp hhead.symm
    exact .symbol (hleft.congr hglance) hheight hc h
  | right hleft hheight op _ ih => exact .right hleft hheight op (ih hglance hhead)
  | closing hleft hheight op hright hheight' h =>
    apply Breaks.closing hleft hheight op (hright.congr hglance) hheight'
    rwa [← hhead]

end Cursor

end Sweep
