import Mathlib.Data.List.Basic
import Sweep.Json.Document
import Sweep.Proofs.Numerals
import Sweep.Proofs.Printing

/-!
This module contains the reading of JSON texts that were written: quoted texts and whole numbers are
read back, token by token.
-/

namespace Sweep.Json

/-! Quoted texts. -/

theorem hexValues?_control {n : Nat} (h : n < 0x20) :
    hexValues? '0' '0' (hexDigit (n / 16)) (hexDigit (n % 16)) = some n := by
  have hall : ∀ n < 0x20,
      hexValues? '0' '0' (hexDigit (n / 16)) (hexDigit (n % 16)) = some n := by
    decide
  exact hall n h

def withCode (code : Nat) (read : Option (List Nat × List Char)) : Option (List Nat × List Char) :=
  read.map fun (codes, rest) => (code :: codes, rest)

theorem codes?_unicode {a b c d : Char} {code : Nat} (h : hexValues? a b c d = some code)
    (cs : List Char) :
    codes? ('\\' :: 'u' :: a :: b :: c :: d :: cs) = withCode code (codes? cs) := by
  simp only [codes?, h]
  cases codes? cs <;> rfl

theorem codes?_letter {e : Char} {code : Nat} (h : unescape? e = some code) (cs : List Char) :
    codes? ('\\' :: e :: cs) = withCode code (codes? cs) := by
  have hletter : e ≠ 'u' := by
    rintro rfl
    contradiction
  rw [codes?, h]
  . cases codes? cs <;> rfl
  . intro _ _ _ _ _ heq
    exact absurd heq hletter

theorem codes?_plain {c : Char} (hquote : c ≠ '"') (hbackslash : c ≠ '\\')
    (hcontrol : ¬c.toNat < 0x20) (cs : List Char) :
    codes? (c :: cs) = withCode c.toNat (codes? cs) := by
  have hprinted : ¬(c.toNat < 0x20 ∨ c = '\\') := by
    rintro (hlt | heq)
    . exact hcontrol hlt
    . exact hbackslash heq
  rw [codes?, if_neg hprinted]
  . cases codes? cs <;> rfl
  . exact hquote
  . intro _ _ _ _ _ heq
    exact absurd heq hbackslash
  . intro _ _ heq
    exact absurd heq hbackslash

theorem codes?_escape (c : Char) (cs : List Char) :
    codes? (escape c ++ cs) = withCode c.toNat (codes? cs) := by
  have hletter : ∀ {e : Char} {code : Nat}, unescape? e = some code → c.toNat = code →
      codes? (['\\', e] ++ cs) = withCode c.toNat (codes? cs) := by
    rintro e _ he rfl
    exact codes?_letter he cs
  unfold escape
  split
  . next heq => exact hletter rfl (by rw [heq]; rfl)
  . next hquote =>
    split
    . next heq => exact hletter rfl (by rw [heq]; rfl)
    . next hbackslash =>
      -- the control characters that have a letter
      iterate 5
        split
        . next hcode => exact hletter rfl hcode
      split
      . next hcontrol => exact codes?_unicode (hexValues?_control hcontrol) cs
      . next hcontrol => exact codes?_plain hquote hbackslash hcontrol cs

theorem codes?_flatMap_escape (text rest : List Char) :
    codes? (text.flatMap escape ++ '"' :: rest) = some (text.map Char.toNat, rest) := by
  induction text with
  | nil => simp [codes?]
  | cons c text ih =>
    rw [List.flatMap_cons, List.append_assoc, codes?_escape, ih]
    rfl

theorem not_surrogate (c : Char) : isHigh c.toNat = false ∧ isLow c.toNat = false := by
  have hvalid : c.toNat < 0xd800 ∨ 0xdfff < c.toNat ∧ c.toNat < 0x110000 := c.valid
  simp only [isHigh, isLow, Bool.and_eq_false_iff, decide_eq_false_iff_not]
  omega

theorem chars?_cons {code : Nat} (h : isHigh code = false ∧ isLow code = false)
    (codes : List Nat) :
    chars? (code :: codes) = (chars? codes).map (Char.ofNat code :: ·) := by
  cases codes with
  | nil => simp [chars?, h]
  | cons next codes => simp [chars?, h]

theorem chars?_map_toNat (text : List Char) : chars? (text.map Char.toNat) = some text := by
  induction text with
  | nil => rfl
  | cons c text ih =>
    rw [List.map_cons, chars?_cons (not_surrogate c), ih, Char.ofNat_toNat]
    rfl

namespace Token

open Grammar (IsDigits)

theorem toList_quote (text : String) :
    (quote text).toList = '"' :: (text.toList.flatMap escape ++ ['"']) := by
  simp [quote]

theorem next?_quote (text : String) (rest : List Char) :
    next? ((quote text).toList ++ rest) = some (.string (some text), rest) := by
  rw [toList_quote]
  simp only [List.cons_append, List.append_assoc, List.nil_append, next?, codes?_flatMap_escape]
  simp [chars?_map_toNat]

/-! Whole numbers. -/

theorem head?_toDigits_ne {n : Nat} (h : 0 < n) : (Nat.toDigits 10 n).head? ≠ some '0' := by
  induction n using Nat.strongRecOn with
  | ind n ih =>
    rw [Nat.toDigits_eq_if (by decide)]
    split
    . next hlt =>
      have hall : ∀ n < 10, 0 < n → Nat.digitChar n ≠ '0' := by
        decide
      simpa using hall n hlt h
    . rw [List.head?_append_of_ne_nil _ Nat.toDigits_ne_nil]
      exact ih (n / 10) (by omega) (by omega)

theorem isWhole_toDigits (n : Nat) : isWhole (Nat.toDigits 10 n) = true := by
  rcases Nat.eq_zero_or_pos n with rfl | hpos
  . rfl
  . have hhead := head?_toDigits_ne hpos
    unfold isWhole
    split
    . next heq => exact absurd heq Nat.toDigits_ne_nil
    . rfl
    . next heq =>
      rw [heq] at hhead
      simpa using hhead

def Ends (rest : List Char) : Prop :=
  ∀ c ∈ rest.head?, isDigit c = false ∧ c ∉ ['.', 'e', 'E']

theorem ends_cons {c : Char} (h : isDigit c = false ∧ c ∉ ['.', 'e', 'E']) (rest : List Char) :
    Ends (c :: rest) := by
  intro c' hc'
  cases hc'
  exact h

theorem afterFraction?_of_ends {rest : List Char} (h : Ends rest) :
    afterFraction? rest = some rest := by
  unfold afterFraction?
  split
  . exact absurd (h '.' rfl).2 (by decide)
  . rfl

theorem afterExponent?_of_ends {rest : List Char} (h : Ends rest) :
    afterExponent? rest = some rest := by
  unfold afterExponent?
  split
  . exact absurd (h 'e' rfl).2 (by decide)
  . exact absurd (h 'E' rfl).2 (by decide)
  . rfl

theorem number?_of_isDigits {digits rest : List Char} (hdigits : IsDigits digits)
    (hwhole : isWhole digits = true) (hrest : Ends rest) :
    number? (digits ++ rest) = some (.natural (Decimal.digitsValue digits), rest) := by
  have hspan := Number.span_of_isDigits hdigits rest fun c hc => (hrest c hc).1
  rw [List.span_eq_takeWhile_dropWhile, Prod.mk.injEq] at hspan
  unfold number?
  dsimp only
  rw [hspan.1, hspan.2, if_pos hwhole, afterFraction?_of_ends hrest, Option.bind_eq_bind,
    Option.bind_some, afterExponent?_of_ends hrest]
  simp

theorem next?_of_isDigit {c : Char} (h : isDigit c) (cs : List Char) :
    next? (c :: cs) = number? (c :: cs) := by
  unfold next?
  split
  case h_12 => rfl
  all_goals
    next heq =>
    cases heq
    contradiction

theorem next?_toString {rest : List Char} (h : Ends rest) (n : Nat) :
    next? ((toString n).toList ++ rest) = some (.natural n, rest) := by
  have hdigits := Decimal.isDigits_toDigits n
  have hnumber := number?_of_isDigits hdigits (isWhole_toDigits n) h
  rw [Decimal.digitsValue_eq, Nat.ofDigitChars_ten_toDigits] at hnumber
  rw [Nat.toString_eq_ofList_toDigits, String.toList_ofList]
  obtain ⟨c, digits, heq⟩ := List.exists_cons_of_ne_nil hdigits.1
  rw [heq] at hnumber hdigits ⊢
  rw [List.cons_append, next?_of_isDigit (hdigits.2 c List.mem_cons_self)]
  exact hnumber

/-! The tokens of a text. -/

theorem not_isBlank_of_next? {c : Char} {cs rest : List Char} {t : Token}
    (h : next? (c :: cs) = some (t, rest)) : isBlank c = false := by
  by_contra hblank
  have hc : c ∈ [' ', '\t', '\n', '\r'] := by
    simp only [isBlank, Bool.not_eq_false, Bool.or_eq_true, beq_iff_eq, or_assoc] at hblank
    simpa only [List.mem_cons, List.not_mem_nil, or_false] using hblank
  have hnone : next? (c :: cs) = none := by
    fin_cases hc <;> rfl
  rw [hnone] at h
  contradiction

theorem ofText?_of_next? {cs rest : List Char} {t : Token} (h : next? cs = some (t, rest)) :
    ofText? cs = (ofText? rest).map (t :: ·) := by
  cases cs with
  | nil => contradiction
  | cons c cs =>
    have hdrop : (c :: cs).dropWhile isBlank = c :: cs := by
      rw [List.dropWhile_cons_of_neg]
      simp [not_isBlank_of_next? h]
    conv =>
      lhs
      unfold ofText?
    split
    . next heq =>
      rw [hdrop] at heq
      contradiction
    . next heq =>
      rw [hdrop] at heq
      cases heq
      split
      . next hnone =>
        rw [h] at hnone
        contradiction
      . next hsome =>
        rw [h] at hsome
        cases hsome
        rfl

end Token

/-! The texts of scalars. -/

inductive Scalar.Writes : String → Scalar → Prop
  | null : Writes "null" .null
  | natural (n : Nat) : Writes (toString n) (.natural n)
  | string (text : String) : Writes (quote text) (.string text)

open Token (Ends)

theorem Scalar.Writes.token {text : String} {value : Scalar} (h : Scalar.Writes text value)
    {rest : List Char} (hrest : Ends rest) :
    ∃ t, Token.next? (text.toList ++ rest) = some (t, rest) ∧
      ∀ ts, Scalar.next? (t :: ts) = some (value, ts) := by
  cases h with
  | null => exact ⟨.null, rfl, fun _ => rfl⟩
  | natural n => exact ⟨.natural n, Token.next?_toString hrest n, fun _ => rfl⟩
  | string text => exact ⟨.string (some text), Token.next?_quote text rest, fun _ => rfl⟩

theorem Scalar.Writes.inj {text : String} {value value' : Scalar} (h : Scalar.Writes text value)
    (h' : Scalar.Writes text value') : value = value' := by
  have hends : Ends [] := by
    exact nofun
  obtain ⟨t, hnext, hvalue⟩ := h.token hends
  obtain ⟨t', hnext', hvalue'⟩ := h'.token hends
  rw [hnext] at hnext'
  cases hnext'
  have heq := (hvalue []).symm.trans (hvalue' [])
  cases heq
  rfl

/-! The texts of objects. -/

variable (key : α → String) {text : α → String} {value : α → Scalar}

def member (text : α → String) (x : α) : String :=
  quote (key x) ++ ":" ++ text x

theorem ofText?_member (h : ∀ x, Scalar.Writes (text x) (value x)) {rest : List Char}
    (hrest : Ends rest) (x : α) :
    ∃ t, Token.ofText? ((member key text x).toList ++ rest)
        = (Token.ofText? rest).map ([.string (some (key x)), .colon, t] ++ ·) ∧
      ∀ ts, Scalar.next? (t :: ts) = some (value x, ts) := by
  obtain ⟨t, hnext, hvalue⟩ := (h x).token hrest
  refine ⟨t, ?_, hvalue⟩
  have hcolon : Token.next? (':' :: ((text x).toList ++ rest))
      = some (.colon, (text x).toList ++ rest) := by
    rfl
  have htext : (member key text x).toList ++ rest
      = (quote (key x)).toList ++ ':' :: ((text x).toList ++ rest) := by
    simp [member]
  rw [htext, Token.ofText?_of_next? (Token.next?_quote _ _), Token.ofText?_of_next? hcolon,
    Token.ofText?_of_next? hnext]
  simp [Option.map_map, Function.comp_def]

theorem ofText?_closing : Token.ofText? ['\x7d'] = some [.closing .curly] := by
  have hnext : Token.next? ['\x7d'] = some (.closing .curly, []) := by
    rfl
  rw [Token.ofText?_of_next? hnext]
  simp [Token.ofText?]

theorem members?_closing {key : String} {value : Scalar} {ts rest : List Token}
    (h : Scalar.next? ts = some (value, .closing .curly :: rest)) :
    members? (.string (some key) :: .colon :: ts) = some ([(key, value)], rest) := by
  unfold members?
  split
  . next heq =>
    rw [h] at heq
    cases heq
  . next heq =>
    rw [h] at heq
    cases heq
    rfl
  . next hne => exact absurd h (hne _ _)

theorem members?_comma {key : String} {value : Scalar} {ts rest : List Token}
    (h : Scalar.next? ts = some (value, .comma :: rest)) :
    members? (.string (some key) :: .colon :: ts)
      = (members? rest).map fun (ms, rest) => ((key, value) :: ms, rest) := by
  conv =>
    lhs
    unfold members?
  dsimp only
  split
  . next heq =>
    rw [h] at heq
    cases heq
    rfl
  . next heq =>
    rw [h] at heq
    cases heq
  . next hne _ => exact absurd h (hne _ _)

theorem members?_intercalate (h : ∀ x, Scalar.Writes (text x) (value x)) (x : α) (xs : List α) :
    ∃ ts, Token.ofText? ((",".intercalate ((x :: xs).map (member key text))).toList ++ ['\x7d'])
        = some ts ∧
      members? ts = some ((x :: xs).map fun x => (key x, value x), []) := by
  induction xs generalizing x with
  | nil =>
    have hends : Ends ['\x7d'] := Token.ends_cons (by decide) []
    obtain ⟨t, htext, hvalue⟩ := ofText?_member key h hends x
    rw [List.map_singleton, String.intercalate_singleton, htext, ofText?_closing]
    exact ⟨_, rfl, members?_closing (hvalue _)⟩
  | cons x' xs ih =>
    obtain ⟨ts, hts, hmembers⟩ := ih x'
    generalize hrest : ((",".intercalate ((x' :: xs).map (member key text))).toList ++ ['\x7d'])
      = rest at hts
    have hends : Ends (',' :: rest) := Token.ends_cons (by decide) rest
    have hcomma : Token.ofText? (',' :: rest) = some (.comma :: ts) := by
      have hnext : Token.next? (',' :: rest) = some (.comma, rest) := by
        rfl
      rw [Token.ofText?_of_next? hnext, hts]
      rfl
    obtain ⟨t, htext, hvalue⟩ := ofText?_member key h hends x
    have hsplit : (",".intercalate ((x :: x' :: xs).map (member key text))).toList ++ ['\x7d']
        = (member key text x).toList ++ ',' :: rest := by
      rw [← hrest]
      simp [String.intercalate_cons_cons]
    rw [hsplit, htext, hcomma]
    refine ⟨_, rfl, ?_⟩
    show members? (.string (some (key x)) :: .colon :: t :: .comma :: ts) = _
    rw [members?_comma (hvalue _), hmembers]
    rfl

theorem ofTokens?_members {ts : List Token} {ms : List (String × Scalar)}
    (h : members? ts = some (ms, [])) :
    Document.ofTokens? (.opening .curly :: ts) = some (.members ms) := by
  unfold Document.ofTokens?
  split
  . next heq =>
    cases heq
    unfold members? at h
    contradiction
  . next heq => cases heq
  . next heq =>
    cases heq
    rw [h]
  . next heq => cases heq
  . next hcurly _ => exact absurd rfl (hcurly ts)

theorem Document.ofText?_object (h : ∀ x, Scalar.Writes (text x) (value x)) (xs : List α) :
    Document.ofText? ("\x7b" ++ ",".intercalate (xs.map (member key text)) ++ "\x7d")
      = some (.members (xs.map fun x => (key x, value x))) := by
  have htext : ("\x7b" ++ ",".intercalate (xs.map (member key text)) ++ "\x7d").toList
      = '\x7b' :: ((",".intercalate (xs.map (member key text))).toList ++ ['\x7d']) := by
    simp
  unfold Document.ofText?
  rw [htext, Token.ofText?_of_next? (t := .opening .curly) rfl]
  cases xs with
  | nil =>
    rw [List.map_nil, String.intercalate_nil, String.toList_empty, List.nil_append,
      ofText?_closing]
    rfl
  | cons x xs =>
    obtain ⟨ts, hts, hmembers⟩ := members?_intercalate key h x xs
    rw [hts, Option.map_some, Option.bind_some]
    exact ofTokens?_members hmembers

end Sweep.Json
