import Mathlib.Data.List.DropRight
import Sweep.Proofs.Outcomes
import Sweep.Request.Basic

/-!
This module contains the classification of request lines. A pattern that looks at the beginning of a
line and the reading of the parts of a line recognise the same headers of computations, so that a
line that begins like a computation is either one or has too few parts.
-/

namespace Sweep

/-! Tokens. -/

theorem find?_token_eq_some_iff {all : List α} {token : α → String} (hall : ∀ a, a ∈ all)
    (hinj : ∀ a b, token a = token b → a = b) {text : String} {a : α} :
    all.find? (token · == text) = some a ↔ text = token a := by
  constructor
  . intro h
    have htoken := List.find?_some h
    exact (beq_iff_eq.mp htoken).symm
  . rintro rfl
    obtain ⟨b, hb⟩ : ∃ b, all.find? (token · == token a) = some b := by
      rw [← Option.isSome_iff_exists, List.find?_isSome]
      exact ⟨a, hall a, beq_self_eq_true _⟩
    have htoken := List.find?_some hb
    rw [hb, hinj b a (beq_iff_eq.mp htoken)]

theorem StatKind.mem_all (kind : StatKind) : kind ∈ all := by
  cases kind <;> decide

theorem StatKind.ofToken?_eq_some_iff {text : String} {kind : StatKind} :
    ofToken? text = some kind ↔ text = kind.token := by
  apply find?_token_eq_some_iff mem_all
  intro kind kind'
  cases kind <;> cases kind' <;> decide

theorem AggregationKind.mem_all (kind : AggregationKind) : kind ∈ all := by
  cases kind <;> decide

theorem AggregationKind.ofToken?_eq_some_iff {text : String} {kind : AggregationKind} :
    ofToken? text = some kind ↔ text = kind.token := by
  apply find?_token_eq_some_iff mem_all
  intro kind kind'
  cases kind <;> cases kind' <;> decide

theorem TupleMode.mem_all (mode : TupleMode) : mode ∈ all := by
  cases mode <;> decide

theorem TupleMode.ofToken?_eq_some_iff {text : String} {mode : TupleMode} :
    ofToken? text = some mode ↔ text = mode.token := by
  apply find?_token_eq_some_iff mem_all
  intro mode mode'
  cases mode <;> cases mode' <;> decide

/-! Patterns. -/

inductive Pattern
  | lineStart
  | lineEnd
  | oneOf (texts : List String)
  | seq (first second : Pattern)

namespace Pattern

def Matches (before part after : List Char) : Pattern → Prop
  | lineStart => before = [] ∧ part = []
  | lineEnd => part = [] ∧ after = []
  | oneOf texts => ∃ text ∈ texts, part = text.toList
  | seq p q =>
    ∃ first second, part = first ++ second ∧
      p.Matches before first (second ++ after) ∧ q.Matches (before ++ first) second after

def Found (p : Pattern) (line : String) : Prop :=
  ∃ before part after, line.toList = before ++ part ++ after ∧ p.Matches before part after

def stat : Pattern :=
  seq lineStart (seq (oneOf (StatKind.all.map StatKind.token)) lineEnd)

def header : Pattern :=
  seq lineStart
    (seq (oneOf (AggregationKind.all.map AggregationKind.token))
      (seq (oneOf ["_"]) (seq (oneOf (TupleMode.all.map TupleMode.token)) (oneOf [";"]))))

theorem found_lineStart_iff {p : Pattern} {line : String} :
    (seq lineStart p).Found line ↔
      ∃ part after, line.toList = part ++ after ∧ p.Matches [] part after := by
  constructor
  . rintro ⟨before, part, after, hline, first, second, rfl, ⟨rfl, rfl⟩, hp⟩
    exact ⟨second, after, hline, hp⟩
  . rintro ⟨part, after, hline, hp⟩
    exact ⟨[], part, after, hline, [], part, rfl, ⟨rfl, rfl⟩, hp⟩

theorem found_stat_iff {line : String} :
    stat.Found line ↔ ∃ kind : StatKind, line = kind.token := by
  unfold stat
  rw [found_lineStart_iff]
  constructor
  . rintro ⟨part, after, hline, first, second, rfl, ⟨text, htext, rfl⟩, rfl, rfl⟩
    obtain ⟨kind, -, rfl⟩ := List.mem_map.mp htext
    refine ⟨kind, ?_⟩
    rw [List.append_nil, List.append_nil] at hline
    exact String.toList_inj.mp hline
  . rintro ⟨kind, rfl⟩
    have hmem := List.mem_map_of_mem (f := StatKind.token) kind.mem_all
    exact ⟨kind.token.toList, [], by simp, kind.token.toList, [], by simp, ⟨_, hmem, rfl⟩, rfl, rfl⟩

end Pattern

namespace Computation

def headerOf (kind : AggregationKind) (mode : TupleMode) : List Char :=
  kind.token.toList ++ '_' :: mode.token.toList

def Headed (line : String) : Prop :=
  ∃ kind mode rest, line.toList = headerOf kind mode ++ ';' :: rest

theorem headed_iff_isPrefixOf {line : String} :
    Headed line ↔ ∃ (kind : AggregationKind) (mode : TupleMode),
      (kind.token ++ "_" ++ mode.token ++ ";").toList <+: line.toList := by
  have htext : ∀ (kind : AggregationKind) (mode : TupleMode) (rest : List Char),
      headerOf kind mode ++ ';' :: rest
        = (kind.token ++ "_" ++ mode.token ++ ";").toList ++ rest := by
    intro kind mode rest
    simp [headerOf]
  unfold Headed
  simp only [htext]
  constructor
  . rintro ⟨kind, mode, rest, hline⟩
    exact ⟨kind, mode, rest, hline.symm⟩
  . rintro ⟨kind, mode, rest, hline⟩
    exact ⟨kind, mode, rest, hline.symm⟩

theorem hasHeader_iff {line : String} : hasHeader line ↔ Headed line := by
  rw [headed_iff_isPrefixOf]
  unfold hasHeader
  simp only [List.any_eq_true, List.isPrefixOf_iff_prefix]
  constructor
  . rintro ⟨kind, -, mode, -, hprefix⟩
    exact ⟨kind, mode, hprefix⟩
  . rintro ⟨kind, mode, hprefix⟩
    exact ⟨kind, kind.mem_all, mode, mode.mem_all, hprefix⟩

theorem found_header_iff {line : String} : Pattern.header.Found line ↔ Headed line := by
  unfold Pattern.header
  rw [Pattern.found_lineStart_iff]
  constructor
  . rintro ⟨part, after, hline, _, _, rfl, ⟨_, hkind, rfl⟩, _, _, rfl, ⟨_, hmark, rfl⟩, _, _, rfl,
      ⟨_, hmode, rfl⟩, _, hend, rfl⟩
    obtain ⟨kind, -, rfl⟩ := List.mem_map.mp hkind
    obtain ⟨mode, -, rfl⟩ := List.mem_map.mp hmode
    rw [List.mem_singleton] at hmark hend
    refine ⟨kind, mode, after, ?_⟩
    rw [hline, hmark, hend]
    simp [headerOf]
  . rintro ⟨kind, mode, rest, hline⟩
    have hkind := List.mem_map_of_mem (f := AggregationKind.token) kind.mem_all
    have hmode := List.mem_map_of_mem (f := TupleMode.token) mode.mem_all
    exact ⟨headerOf kind mode ++ [';'], rest, by simp [hline], kind.token.toList,
      '_' :: (mode.token.toList ++ [';']), by simp [headerOf], ⟨_, hkind, rfl⟩, ['_'],
      mode.token.toList ++ [';'], rfl, ⟨"_", List.mem_singleton_self _, rfl⟩, mode.token.toList,
      [';'], rfl, ⟨_, hmode, rfl⟩, ";", List.mem_singleton_self _, rfl⟩

/-! The parts of a line. -/

theorem parseHeader_eq_ok_iff {header : List Char} {kind : AggregationKind} {mode : TupleMode} :
    parseHeader header = .ok (kind, mode) ↔ header = headerOf kind mode := by
  constructor
  . intro h
    unfold parseHeader at h
    split at h
    . contradiction
    . next c rest hdrop =>
      dsimp only at h
      split at h
      . contradiction
      . contradiction
      . next hkind hmode =>
        cases h
        obtain rfl : c = '_' := by
          simpa [hdrop] using List.head?_dropWhile_not (· != '_') header
        unfold headerOf
        rw [← AggregationKind.ofToken?_eq_some_iff.mp hkind,
          ← TupleMode.ofToken?_eq_some_iff.mp hmode, String.toList_ofList, String.toList_ofList,
          ← hdrop]
        exact List.takeWhile_append_dropWhile.symm
  . rintro rfl
    cases kind <;> cases mode <;> rfl

theorem parts_eq_rdropWhile (line : List Char) :
    parts line = (line.splitOn ';').rdropWhile List.isEmpty := by
  rfl

theorem parts_cons {header : List Char} (hne : header ≠ []) (h : ';' ∉ header) (rest : List Char) :
    parts (header ++ ';' :: rest) = header :: parts rest := by
  unfold parts
  rw [List.splitOn_append_cons_self_of_not_mem h, List.reverse_cons, List.dropWhile_append]
  split
  . next hempty =>
    rw [List.isEmpty_iff.mp hempty]
    simp [hne]
  . rw [List.reverse_append]
    rfl

theorem eq_append_of_parts {line header part : List Char} {rest : List (List Char)}
    (h : parts line = header :: part :: rest) : ∃ behind, line = header ++ ';' :: behind := by
  have hprefix := List.rdropWhile_prefix List.isEmpty (line.splitOn ';')
  rw [← parts_eq_rdropWhile, h] at hprefix
  obtain ⟨dropped, hsplit⟩ := hprefix
  have hline : [';'].intercalate (line.splitOn ';') = line := by
    apply List.intercalate_splitOn
  rw [← hsplit, List.cons_append, List.cons_append, List.intercalate_cons_cons] at hline
  exact ⟨_, by simpa using hline.symm⟩

theorem semicolon_not_mem_headerOf (kind : AggregationKind) (mode : TupleMode) :
    ';' ∉ headerOf kind mode := by
  cases kind <;> cases mode <;> decide

theorem headerOf_ne_nil (kind : AggregationKind) (mode : TupleMode) : headerOf kind mode ≠ [] := by
  simp [headerOf]

theorem headed_of_parse {line : String} {c : Computation} (h : parse line = .ok c) :
    Headed line := by
  unfold parse at h
  split at h
  . next header spec expression expressions hparts =>
    obtain ⟨⟨kind, mode⟩, hheader, -⟩ := bind_eq_ok h
    rw [parseHeader_eq_ok_iff] at hheader
    obtain ⟨behind, hline⟩ := eq_append_of_parts hparts
    exact ⟨kind, mode, behind, by rw [hline, hheader]⟩
  . contradiction

theorem parse_of_headed {line : String} (h : Headed line) :
    parse line = .error .tooFewParts ∧ (parts line.toList).length < 3 ∨
      (∃ c, parse line = .ok c) ∧ ¬(parts line.toList).length < 3 := by
  obtain ⟨kind, mode, rest, hline⟩ := h
  have hparts := parts_cons (headerOf_ne_nil kind mode) (semicolon_not_mem_headerOf kind mode) rest
  unfold parse
  rw [hline, hparts]
  split
  . next header spec expression expressions heq =>
    right
    obtain ⟨rfl, hrest⟩ := List.cons.inj heq
    rw [parseHeader_eq_ok_iff.mpr rfl, hrest, bind_ok]
    exact ⟨⟨_, rfl⟩, by simp⟩
  . next hfew =>
    left
    refine ⟨rfl, ?_⟩
    by_contra hlength
    match hrest : parts rest with
    | [] | [_] => simp [hrest] at hlength
    | spec :: expression :: expressions =>
      rw [hrest] at hfew
      exact hfew _ _ _ _ rfl

end Computation

namespace Request

open Sweep.Computation (Headed parts)

variable {line : String}

theorem not_headed_token (kind : StatKind) : ¬Headed kind.token := by
  rintro ⟨_, _, rest, htoken⟩
  have hmem : ';' ∈ kind.token.toList := by
    rw [htoken]
    simp
  revert hmem
  cases kind <;> decide

inductive Classified : String → Except RequestError Request → Prop
  | stat (kind : StatKind) : Classified kind.token (.ok (.stat kind))
  | computation {line : String} {c : Computation} (h : Headed line)
    (hparts : ¬(parts line.toList).length < 3) (hc : Computation.parse line = .ok c) :
    Classified line (.ok (.computation c))
  | tooFewParts {line : String} (h : Headed line) (hparts : (parts line.toList).length < 3)
    (hc : Computation.parse line = .error .tooFewParts) : Classified line (.error .tooFewParts)
  | invalidFormat {line : String} (hstat : ∀ kind : StatKind, line ≠ kind.token)
    (h : ¬Headed line) : Classified line (.error .invalidFormat)

theorem classified_parse (line : String) : Classified line (parse line) := by
  unfold parse
  split
  . next kind hkind =>
    rw [StatKind.ofToken?_eq_some_iff.mp hkind]
    exact .stat kind
  . next hnone =>
    split
    . next hheader =>
      have h := Computation.hasHeader_iff.mp hheader
      rcases Computation.parse_of_headed h with ⟨hc, hparts⟩ | ⟨⟨c, hc⟩, hparts⟩
      . rw [hc, map_error]
        exact .tooFewParts h hparts hc
      . rw [hc, map_ok]
        exact .computation h hparts hc
    . next hheader =>
      rw [Computation.hasHeader_iff] at hheader
      refine .invalidFormat ?_ hheader
      intro kind hline
      rw [StatKind.ofToken?_eq_some_iff.mpr hline] at hnone
      contradiction

namespace Classified

variable {result : Except RequestError Request}

theorem stat_iff (h : Classified line result) (kind : StatKind) :
    result = .ok (.stat kind) ↔ line = kind.token := by
  cases h with
  | stat kind' =>
    constructor
    . rintro ⟨⟩
      rfl
    . intro htoken
      have hkind := StatKind.ofToken?_eq_some_iff.mpr htoken
      rw [StatKind.ofToken?_eq_some_iff.mpr rfl] at hkind
      cases hkind
      rfl
  | computation h | tooFewParts h =>
    constructor
    . rintro ⟨⟩
    . rintro rfl
      exact absurd h (not_headed_token kind)
  | invalidFormat hstat =>
    constructor
    . rintro ⟨⟩
    . intro htoken
      exact absurd htoken (hstat kind)

theorem computation_iff (h : Classified line result) (c : Computation) :
    result = .ok (.computation c) ↔ Computation.parse line = .ok c := by
  cases h with
  | stat kind =>
    constructor
    . rintro ⟨⟩
    . intro hc
      exact absurd (Computation.headed_of_parse hc) (not_headed_token kind)
  | computation _ _ hc =>
    rw [hc]
    simp
  | tooFewParts _ _ hc =>
    rw [hc]
    simp
  | invalidFormat _ h =>
    constructor
    . rintro ⟨⟩
    . intro hc
      exact absurd (Computation.headed_of_parse hc) h

theorem tooFewParts_iff (h : Classified line result) :
    result = .error .tooFewParts ↔ Headed line ∧ (parts line.toList).length < 3 := by
  cases h with
  | stat kind => simp [not_headed_token]
  | computation _ hparts => simp [hparts]
  | tooFewParts h hparts => simp [h, hparts]
  | invalidFormat _ h => simp [h]

theorem headed_iff (h : Classified line result) :
    Headed line ↔ (∃ c, result = .ok (.computation c)) ∨ result = .error .tooFewParts := by
  cases h with
  | stat kind => simp [not_headed_token]
  | computation h => simp [h]
  | tooFewParts h => simp [h]
  | invalidFormat _ h => simp [h]

theorem invalidFormat_iff (h : Classified line result) :
    result = .error .invalidFormat ↔ (∀ kind, result ≠ .ok (.stat kind)) ∧
      (∀ c, result ≠ .ok (.computation c)) ∧ result ≠ .error .tooFewParts := by
  cases h <;> simp

theorem ne_unknown (h : Classified line result) (token : String) :
    result ≠ .error (.unknownAggregation token) ∧ result ≠ .error (.unknownMode token) := by
  cases h <;> simp

end Classified

/--
A line is a question if it is the token of one, and a computation if its parts make one. A line that
only begins like a computation has too few parts, and every other line is malformed. The patterns
for questions and headers tell beforehand which of these it is.
-/
theorem parse_classifies (line : String) :
    (∀ kind, parse line = .ok (.stat kind) ↔ line = kind.token) ∧
    (∀ c, parse line = .ok (.computation c) ↔ Computation.parse line = .ok c) ∧
    (parse line = .error .tooFewParts ↔
      (∃ (kind : AggregationKind) (mode : TupleMode),
        (kind.token ++ "_" ++ mode.token ++ ";").toList <+: line.toList) ∧
      ((line.toList.splitOn ';').rdropWhile List.isEmpty).length < 3) ∧
    (parse line = .error .invalidFormat ↔ (∀ kind, parse line ≠ .ok (.stat kind)) ∧
      (∀ c, parse line ≠ .ok (.computation c)) ∧ parse line ≠ .error .tooFewParts) ∧
    (∀ token, parse line ≠ .error (.unknownAggregation token) ∧
      parse line ≠ .error (.unknownMode token)) ∧
    -- the patterns
    (Pattern.stat.Found line ↔ ∃ kind, parse line = .ok (.stat kind)) ∧
    (Pattern.header.Found line ↔
      (∃ c, parse line = .ok (.computation c)) ∨ parse line = .error .tooFewParts) := by
  have h := classified_parse line
  refine ⟨h.stat_iff, h.computation_iff, ?_, h.invalidFormat_iff, ?_, ?_, ?_⟩
  . rw [h.tooFewParts_iff, Computation.headed_iff_isPrefixOf]
    rfl
  . exact h.ne_unknown
  . rw [Pattern.found_stat_iff]
    exact exists_congr fun kind => (h.stat_iff kind).symm
  . rw [Computation.found_header_iff, h.headed_iff]

end Request

end Sweep
