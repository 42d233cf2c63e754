import Sweep.Proofs.Numerals
import Sweep.Proofs.Reading

/-!
This module contains the agreement of expressions with the grammar: an expression is accepted if and
only if its text is derivable and not nested too deep, and a text has at most one derivation.
-/

namespace Sweep

open Grammar

namespace Grammar

variable {cs cs' rest rest' : List Char} {t t' : Node} {d d' : Derivation}

theorem derives_of_shows (h : d.Shows cs t) : Derives cs t := by
  induction h with
  | number h => exact .number h
  | identifier h => exact .identifier h
  | operation op _ _ ihleft ihright => exact .operation op ihleft ihright

theorem exists_shows (h : Derives cs t) : ∃ d : Derivation, d.Shows cs t := by
  induction h with
  | number h => exact ⟨_, .number h⟩
  | identifier h => exact ⟨_, .identifier h⟩
  | operation op _ _ ihleft ihright =>
    obtain ⟨l, hl⟩ := ihleft
    obtain ⟨r, hr⟩ := ihright
    exact ⟨_, .operation op hl hr⟩

theorem derives_inj (h : Derives cs t) (h' : Derives cs' t') (hrest : Lexeme.Stops rest)
    (hrest' : Lexeme.Stops rest') (heq : cs ++ rest = cs' ++ rest') : t = t' ∧ cs = cs' := by
  -- both texts are read to their ends from one place, so they end at the same place
  have hread := Cursor.readNode_append h (Nat.le_max_left t.height t'.height) hrest 0
  have hread' := Cursor.readNode_append h' (Nat.le_max_right t.height t'.height) hrest' 0
  rw [heq, hread'] at hread
  simp only [Except.ok.injEq, Prod.mk.injEq, Cursor.mk.injEq] at hread
  constructor
  . exact hread.1.symm
  . rw [hread.2.2] at heq
    exact List.append_cancel_right heq

theorem shows_inj (h : d.Shows cs t) (h' : d'.Shows cs t') : d' = d ∧ t' = t := by
  have htree := derives_inj (derives_of_shows h') (derives_of_shows h) Lexeme.stops_nil
    Lexeme.stops_nil rfl
  refine ⟨?_, htree.1⟩
  obtain ⟨rfl, -⟩ := htree
  induction h generalizing d' with
  | number h => cases h'; rfl
  | identifier h => cases h'; rfl
  | operation op hleft hright ihleft ihright =>
    generalize heq : '(' :: _ = whole at h'
    cases h' with
    | operation _ hleft' hright' =>
      have hinner := (List.cons.inj heq).2
      obtain ⟨-, rfl⟩ := derives_inj (derives_of_shows hleft) (derives_of_shows hleft')
        (Lexeme.stops_symbol op _) (Lexeme.stops_symbol op _) hinner
      have hright'' := (List.cons.inj (List.append_cancel_left hinner)).2
      have hrs := List.append_cancel_right hright''
      subst hrs
      rw [ihleft hleft', ihright hright']

end Grammar

namespace Expression

variable {source : String} {t : Node}

theorem derives_of_parse {e : Expression} (h : parse source = .ok e) :
    Derives (Text.strip source.toList) e.root ∧ e.root.height ≤ Cursor.maxNesting ∧
      e.source = source := by
  unfold parse at h
  split at h
  . contradiction
  . next root c hread =>
    split at h
    . next hpeek =>
      cases h
      obtain ⟨cs, hspans, hderives, hheight⟩ := Cursor.derives_of_readNode hread
      have hrest : c.rest = [] := List.head?_eq_none_iff.mp hpeek
      have hcs : Text.strip source.toList = cs := by
        rw [← List.append_nil cs, ← hrest]
        exact hspans.1
      rw [hcs]
      exact ⟨hderives, hheight, rfl⟩
    . contradiction

theorem parse_of_derives (h : Derives (Text.strip source.toList) t)
    (hheight : t.height ≤ Cursor.maxNesting) : parse source = .ok { root := t, source } := by
  have hread := Cursor.readNode_append h hheight Lexeme.stops_nil 0
  rw [List.append_nil] at hread
  unfold parse Cursor.start Cursor.read
  rw [hread]
  rfl

theorem parse_eq_ok_iff {e : Expression} :
    parse source = .ok e ↔
      Derives (Text.strip source.toList) e.root ∧ e.root.height ≤ Cursor.maxNesting ∧
        e.source = source := by
  constructor
  . exact derives_of_parse
  . rintro ⟨hderives, hheight, hsource⟩
    rw [parse_of_derives hderives hheight, ← hsource]

theorem parse_tooDeep (h : Derives (Text.strip source.toList) t)
    (hheight : Cursor.maxNesting < t.height) :
    ∃ before after, Exceeds Cursor.maxNesting (Text.strip source.toList) before after ∧
      parse source = .error (.tooDeep (Text.byteLength before) Cursor.maxNesting) := by
  obtain ⟨before, after, hexceeds, hread⟩ := Cursor.readNode_tooDeep h hheight 0 []
  refine ⟨before, after, hexceeds, ?_⟩
  rw [List.append_nil] at hread
  unfold parse Cursor.start Cursor.read
  rw [hread, Nat.zero_add]

/--
Exactly the derivable texts that are nested at most 256 levels deep are accepted, with the one tree
that they have. The deeper ones are refused at the first bracket of level 257.
-/
theorem parse_accepts_derivable (source : String) :
    -- the text that is read is the source without white space
    Text.strip source.toList = source.toList.filter (·.toNat ∉ Text.whiteSpace) ∧
    (∀ e, parse source = .ok e ↔
      Derives (Text.strip source.toList) e.root ∧ NestsWithin 256 (Text.strip source.toList) ∧
        e.source = source) ∧
    (∀ t, Derives (Text.strip source.toList) t →
      ∃ d : Derivation, d.Shows (Text.strip source.toList) t ∧
        ∀ d' t', d'.Shows (Text.strip source.toList) t' → d' = d ∧ t' = t) ∧
    (∀ cs value, Numeral cs value → Number.ofText? (String.ofList cs) = some value) ∧
    (∀ t, Derives (Text.strip source.toList) t → ¬NestsWithin 256 (Text.strip source.toList) →
      ∃ before after, Exceeds 256 (Text.strip source.toList) before after ∧
        parse source = .error (.tooDeep (Text.byteLength before) 256)) ∧
    (∀ e, parse source = .ok e → e.root.height ≤ 256) := by
  refine ⟨?_, ?_, ?_, ?_, ?_, ?_⟩
  . apply Text.strip_eq_filter
  . intro e
    rw [parse_eq_ok_iff]
    constructor
    . rintro ⟨hderives, hheight, hsource⟩
      refine ⟨hderives, ?_, hsource⟩
      rw [nestsWithin_iff_height_le hderives]
      exact Int.ofNat_le.mpr hheight
    . rintro ⟨hderives, hnests, hsource⟩
      refine ⟨hderives, ?_, hsource⟩
      rw [nestsWithin_iff_height_le hderives] at hnests
      exact Int.ofNat_le.mp hnests
  . intro t h
    obtain ⟨d, hd⟩ := exists_shows h
    refine ⟨d, hd, ?_⟩
    intro d' t' hd'
    exact shows_inj hd hd'
  . intro cs value h
    exact Number.ofText?_of_numeral h
  . intro t h hnests
    apply parse_tooDeep h
    rw [nestsWithin_iff_height_le h] at hnests
    apply Nat.lt_of_not_le
    intro hle
    apply hnests
    exact Int.ofNat_le.mpr hle
  . intro e h
    exact (derives_of_parse h).2.1

end Expression

end Sweep
