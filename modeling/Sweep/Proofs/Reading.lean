import Sweep.Expression.Basic
import Sweep.Proofs.Nesting
import Sweep.Proofs.Outcomes

/-!
This module contains the agreement of the reading of trees with the grammar. What is read is
derivable, what is derivable is read to its end, and a text that is nested too deep is refused at
the first bracket that is one too many.
-/

namespace Sweep

open Grammar

namespace Cursor

def Spans (c : Cursor) (cs : List Char) (c' : Cursor) : Prop :=
  c.rest = cs ++ c'.rest ∧ c'.position = c.position + Text.byteLength cs

variable {c c' : Cursor} {t : Node} {cs rest : List Char} {levels : Nat}

theorem spans_skip {l : Lexeme α} (h : l.text ++ l.rest = c.rest) : c.Spans l.text (c.skip l) := by
  constructor
  . exact h.symm
  . rfl

theorem Spans.append {c'' : Cursor} {ds : List Char} (h : c.Spans cs c') (h' : c'.Spans ds c'') :
    c.Spans (cs ++ ds) c'' := by
  constructor
  . rw [h.1, h'.1, List.append_assoc]
  . rw [h'.2, h.2, Text.byteLength_append, Nat.add_assoc]

theorem spans_of_readOperator {op : Operator} (h : c.readOperator = .ok (op, c')) :
    c.Spans [op.symbol] c' := by
  unfold readOperator at h
  split at h
  . next l hl =>
    split at h
    . next found hfound =>
      cases h
      rw [Operator.ofSymbol?_eq_some_iff] at hfound
      have hspans := spans_skip (Lexeme.text_append_rest_of_symbol? hl)
      unfold Lexeme.symbol? at hl
      split at hl
      . contradiction
      . split at hl
        . cases hl
          rw [hfound]
          exact hspans
        . contradiction
    . contradiction
  . contradiction

theorem spans_of_readDelimiter {d : Delimiter} (h : c.readDelimiter d = .ok c') :
    c.Spans [d.symbol] c' := by
  unfold readDelimiter at h
  split at h
  . next l hl =>
    split at h
    . next hvalue =>
      cases h
      have hspans := spans_skip (Lexeme.text_append_rest_of_delimiter? hl)
      unfold Lexeme.delimiter? at hl
      split at hl
      . contradiction
      . next found _ _ =>
        obtain ⟨value, hfound, rfl⟩ := Option.map_eq_some_iff.mp hl
        have hsymbol : value.symbol = found := by
          simpa using List.find?_some hfound
        dsimp only at hvalue
        rw [← hvalue, hsymbol]
        exact hspans
    . contradiction
  . contradiction

theorem readNode_cases (h : c.readNode levels = .ok (t, c')) :
    (∃ l, Lexeme.number? c.rest = some l ∧ t = .const l.value ∧ c' = c.skip l) ∨
    (∃ l, Lexeme.identifier? c.rest = some l ∧ t = .var l.value ∧ c' = c.skip l) ∨
    ∃ below op left right c₁ c₂ c₃ c₄, levels = below + 1 ∧ t = .binary op left right ∧
      c.readDelimiter .opening = .ok c₁ ∧ c₁.readNode below = .ok (left, c₂) ∧
      c₂.readOperator = .ok (op, c₃) ∧ c₃.readNode below = .ok (right, c₄) ∧
      c₄.readDelimiter .closing = .ok c' := by
  unfold readNode at h
  split at h
  . next l hl =>
    cases h
    exact .inl ⟨l, hl, rfl, rfl⟩
  . split at h
    . next l hl =>
      cases h
      exact .inr (.inl ⟨l, hl, rfl, rfl⟩)
    . split at h
      . contradiction
      . next inner hinner =>
        split at h
        . contradiction
        . next below =>
          simp only [bind, Except.bind] at h
          split at h
          . contradiction
          . next left hleft =>
            split at h
            . contradiction
            . next op hop =>
              split at h
              . contradiction
              . next right hright =>
                split at h
                . contradiction
                . next hclosing =>
                  cases h
                  exact .inr (.inr ⟨_, _, _, _, _, _, _, _, rfl, rfl, hinner, hleft, hop, hright,
                    hclosing⟩)

theorem derives_of_readNode {c c' : Cursor} {t : Node} {levels : Nat}
    (h : c.readNode levels = .ok (t, c')) :
    ∃ cs, c.Spans cs c' ∧ Derives cs t ∧ t.height ≤ levels := by
  rcases readNode_cases h with ⟨l, hl, rfl, rfl⟩ | ⟨l, hl, rfl, rfl⟩ |
    ⟨below, op, left, right, c₁, c₂, c₃, c₄, rfl, rfl, hopening, hleft, hop, hright, hclosing⟩
  . refine ⟨l.text, ?_, ?_, Nat.zero_le _⟩
    . exact spans_skip (Lexeme.text_append_rest_of_number? hl)
    . apply Derives.number
      exact Lexeme.numeral_of_number? hl
  . refine ⟨l.text, ?_, ?_, Nat.zero_le _⟩
    . exact spans_skip (Lexeme.text_append_rest_of_identifier? hl)
    . apply Derives.identifier
      exact Lexeme.identifier_of_identifier? hl
  . obtain ⟨ls, hls, hderivesleft, hheightleft⟩ := derives_of_readNode hleft
    obtain ⟨rs, hrs, hderivesright, hheightright⟩ := derives_of_readNode hright
    refine ⟨'(' :: (ls ++ op.symbol :: (rs ++ [')'])), ?_, ?_, ?_⟩
    . have hspans := (spans_of_readDelimiter hopening).append <| hls.append <|
        (spans_of_readOperator hop).append <| hrs.append (spans_of_readDelimiter hclosing)
      exact hspans
    . apply Derives.operation op hderivesleft hderivesright
    . simp only [Node.height]
      omega
termination_by levels

/-! Reading what the grammar derives. -/

theorem utf8Size_symbol (op : Operator) : op.symbol.utf8Size = 1 := by
  cases op <;> rfl

theorem byteLength_operation (op : Operator) (ls rs : List Char) :
    Text.byteLength ('(' :: (ls ++ op.symbol :: (rs ++ [')'])))
      =
    Text.byteLength ls + Text.byteLength rs + 3 := by
  have hopening : '('.utf8Size = 1 := by rfl
  have hclosing : ')'.utf8Size = 1 := by rfl
  simp only [Text.byteLength_cons, Text.byteLength_append, Text.byteLength_nil, utf8Size_symbol,
    hopening, hclosing]
  omega

theorem readDelimiter_closing (position : Nat) (rest : List Char) :
    readDelimiter { position, rest := ')' :: rest } .closing
      =
    .ok { position := position + 1, rest } := by
  rfl

theorem readOperator_symbol (op : Operator) (position : Nat) (rest : List Char) :
    readOperator { position, rest := op.symbol :: rest }
      =
    .ok (op, { position := position + 1, rest }) := by
  cases op <;> rfl

theorem readNode_zero_opening (position : Nat) (rest : List Char) :
    readNode 0 { position, rest := '(' :: rest }
      =
    .error {
      error := .tooDeep position maxNesting
      cursor := { position, rest := '(' :: rest }
    } := by
  rfl

theorem readNode_succ_opening (levels position : Nat) (rest : List Char) :
    readNode (levels + 1) { position, rest := '(' :: rest } = (do
      let (left, c) ← readNode levels { position := position + 1, rest }
      let (op, c) ← c.readOperator
      let (right, c) ← c.readNode levels
      let c ← c.readDelimiter .closing
      .ok (.binary op left right, c)) := by
  rfl

theorem readNode_operation {ls rs : List Char} {left right : Node} {position : Nat} (op : Operator)
    (hleft : readNode levels {
      position := position + 1
      rest := ls ++ op.symbol :: (rs ++ ')' :: rest)
    }
      =
    .ok (left, {
      position := position + 1 + Text.byteLength ls
      rest := op.symbol :: (rs ++ ')' :: rest)
    }))
    (hright : ∀ position, readNode levels { position, rest := rs ++ ')' :: rest }
      =
    .ok (right, { position := position + Text.byteLength rs, rest := ')' :: rest })) :
    readNode (levels + 1) { position, rest := '(' :: (ls ++ op.symbol :: (rs ++ [')'])) ++ rest }
      =
    .ok (.binary op left right, {
      position := position + Text.byteLength ('(' :: (ls ++ op.symbol :: (rs ++ [')'])))
      rest
    }) := by
  simp only [List.cons_append, List.append_assoc, List.nil_append]
  rw [readNode_succ_opening]
  rw [hleft]
  simp only [bind_ok]
  rw [readOperator_symbol, bind_ok]
  rw [hright]
  simp only [bind_ok]
  rw [readDelimiter_closing, bind_ok, byteLength_operation]
  simp only [Except.ok.injEq, Prod.mk.injEq, Cursor.mk.injEq, true_and, and_true]
  omega

theorem readNode_append (h : Derives cs t) (hheight : t.height ≤ levels) (hrest : Lexeme.Stops rest)
    (position : Nat) :
    readNode levels { position, rest := cs ++ rest }
      =
    .ok (t, { position := position + Text.byteLength cs, rest }) := by
  induction h generalizing levels rest position with
  | number h =>
    unfold readNode
    rw [Lexeme.number?_append h hrest]
    rfl
  | identifier h =>
    have hnumber : Lexeme.number? (_ ++ rest) = none := Lexeme.number?_of_identifier h rest
    unfold readNode
    simp only [hnumber]
    rw [Lexeme.identifier?_append h hrest]
    rfl
  | operation op _ _ ihleft ihright =>
    simp only [Node.height] at hheight
    obtain ⟨below, rfl⟩ : ∃ below, levels = below + 1 := ⟨levels - 1, by omega⟩
    apply readNode_operation
    . exact ihleft (by omega) (Lexeme.stops_symbol op _) _
    . exact ihright (by omega) (Lexeme.stops_closing _)

theorem readNode_tooDeep (h : Derives cs t) (hheight : levels < t.height) (position : Nat)
    (rest : List Char) :
    ∃ before after, Exceeds levels cs before after ∧
      readNode levels { position, rest := cs ++ rest }
        =
      .error {
        error := .tooDeep (position + Text.byteLength before) maxNesting
        cursor := {
          position := position + Text.byteLength before
          rest := '(' :: (after ++ rest)
        }
      } := by
  induction h generalizing levels rest position with
  | number => contradiction
  | identifier => contradiction
  | @operation ls rs left right op hleft hright ihleft ihright =>
    have hopening : '('.utf8Size = 1 := by rfl
    simp only [Node.height] at hheight
    cases levels with
    | zero =>
      refine ⟨[], _, exceeds_zero _, ?_⟩
      apply readNode_zero_opening
    | succ below =>
      simp only [List.cons_append, List.append_assoc, List.nil_append]
      rw [readNode_succ_opening]
      by_cases hbelow : below < left.height
      . obtain ⟨before, after, hexceeds, hread⟩ :=
          ihleft hbelow (position + 1) (op.symbol :: (rs ++ ')' :: rest))
        refine ⟨_, _, hexceeds.of_left _, ?_⟩
        rw [hread]
        simp [hopening, Nat.add_assoc]
      . have habove : below < right.height := by omega
        obtain ⟨before, after, hexceeds, hread⟩ :=
          ihright habove (position + 1 + Text.byteLength ls + 1) (')' :: rest)
        refine ⟨_, _, hexceeds.of_right hleft (by omega) op _, ?_⟩
        rw [readNode_append hleft (by omega) (Lexeme.stops_symbol op _)]
        simp only [bind_ok]
        rw [readOperator_symbol, bind_ok]
        rw [hread]
        simp [hopening, utf8Size_symbol, Nat.add_assoc]

end Cursor

end Sweep
