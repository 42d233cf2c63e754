import Sweep.Proofs.Folding
import Sweep.Proofs.RoundTrip
import Sweep.Proofs.Separators
import Sweep.Request.Response

/-!
This module contains the messages of responses. They repeat names, numbers, expressions and single
characters of the request. Nevertheless none of them contains a newline unless the request does, and
none contains a semicolon, since what they repeat stands between two of those.
-/

namespace Sweep

open Text (Omits omits_literal)

variable {sep : Text.Separator}

/-! The parts of a request. -/

namespace Computation

structure Omits (sep : Text.Separator) (c : Computation) : Prop where
  spec : Text.Omits sep c.spec
  expressions : ∀ e ∈ c.expressions, Text.Omits sep e

theorem separator_not_mem_parts {line part : List Char} (h : sep = .newline → sep.char ∉ line)
    (hpart : part ∈ parts line) : sep.char ∉ part := by
  unfold parts at hpart
  have hsplit := (List.dropWhile_suffix _).subset (List.mem_reverse.mp hpart)
  intro hmem
  obtain ⟨hline, hne⟩ := Text.mem_of_mem_splitOn (List.mem_reverse.mp hsplit) hmem
  cases sep with
  | newline => exact h rfl hline
  | semicolon => contradiction

theorem omits_parseHeader {header : List Char} (h : sep.char ∉ header) :
    Satisfies (fun _ => True) (fun e => Text.Omits sep e.message) (parseHeader header) := by
  have hkind : Text.Omits sep (String.ofList (header.takeWhile (· != '_'))) := by
    rw [Text.omits_ofList]
    intro hmem
    exact h ((List.takeWhile_prefix _).subset hmem)
  unfold parseHeader
  split
  . exact omits_literal (by decide)
  . next c mode hdrop =>
    have hmode : Text.Omits sep (String.ofList mode) := by
      rw [Text.omits_ofList]
      intro hmem
      apply h
      apply (List.dropWhile_suffix _).subset
      rw [hdrop]
      exact List.mem_cons_of_mem c hmem
    dsimp only
    split
    . exact hkind.between (by decide) (by decide)
    . exact hmode.between (by decide) (by decide)
    . exact True.intro

theorem omits_parse {line : String} (h : sep = .newline → Text.Omits sep line) :
    Satisfies (Omits sep) (fun e => Text.Omits sep e.message) (parse line) := by
  unfold parse
  split
  . next header spec expression expressions hparts =>
    have hpart : ∀ part ∈ header :: spec :: expression :: expressions, sep.char ∉ part := by
      rw [← hparts]
      intro part hpart
      exact separator_not_mem_parts h hpart
    apply (omits_parseHeader (hpart header (by simp))).bind
    rintro ⟨kind, mode⟩ -
    constructor
    . rw [Text.omits_ofList]
      exact hpart spec (by simp)
    . intro e he
      obtain ⟨part, hmem, rfl⟩ := List.mem_map.mp he
      rw [Text.omits_ofList]
      apply hpart
      exact List.mem_cons_of_mem header (List.mem_cons_of_mem spec hmem)
  . exact omits_literal (by decide)

end Computation

theorem Request.omits_parse {line : String} (h : sep = .newline → Omits sep line) :
    Satisfies (fun r => ∀ c, r = .computation c → c.Omits sep) (fun e => Omits sep e.message)
      (parse line) := by
  unfold parse
  split
  . exact nofun
  . split
    . apply (Computation.omits_parse h).map
      intro c hc c' heq
      cases heq
      exact hc
    . exact omits_literal (by decide)

/-! The errors of a computation. -/

namespace Domain

theorem omits_number {entry : String} {field : List Char} (hentry : Omits sep entry)
    (hfield : sep.char ∉ field) :
    Satisfies (fun _ => True) (fun e => Omits sep e.message) (number entry field) := by
  have hvalue := Text.omits_ofList.mpr hfield
  unfold number
  dsimp only
  split
  . exact True.intro
  . exact ((hvalue.between (by decide) (by decide)).append hentry).append
      (omits_literal (by decide))

theorem omits_make {name : String} (h : Omits sep name) (lower step upper : Float) :
    Satisfies (fun d => Omits sep d.name) (fun e => Omits sep e.message)
      (make name lower step upper) := by
  unfold make
  split
  . exact h
  . exact (h.between (by decide) (by decide)).append (Number.omits_toText step)

theorem omits_parse {entry : String} (h : Omits sep entry) :
    Satisfies (fun d => Omits sep d.name) (fun e => Omits sep e.message) (parse entry) := by
  unfold parse
  split
  . next name lower step upper hfields =>
    have hfield : ∀ field ∈ [name, lower, step, upper], sep.char ∉ field := by
      rw [← hfields]
      intro field hfield
      obtain ⟨part, hpart, rfl⟩ := List.mem_map.mp hfield
      intro hmem
      exact h (Text.mem_of_mem_splitOn hpart (Text.mem_of_mem_trim hmem)).1
    have hname := Text.omits_ofList.mpr (hfield name (by simp))
    split
    . apply (omits_number h (hfield lower (by simp))).bind
      intro lower _
      apply (omits_number h (hfield step (by simp))).bind
      intro step _
      apply (omits_number h (hfield upper (by simp))).bind
      intro upper _
      apply omits_make hname
    . exact hname.between (by decide) (by decide)
  . exact h.between (by decide) (by decide)

theorem omits_parseSpec {spec : String} (h : Omits sep spec) :
    Satisfies (fun ds => ∀ d ∈ ds, Omits sep d.name) (fun e => Omits sep e.message)
      (parseSpec spec) := by
  apply satisfies_mapM
  intro entry hentry
  apply omits_parse
  rw [Text.omits_ofList]
  intro hmem
  exact h (Text.mem_of_mem_splitOn hentry hmem).1

theorem omits_tooLarge {name : String} (h : Omits sep name) (limit : Nat) :
    Omits sep (DomainError.tooLarge name limit).message := by
  exact ((h.between (by decide) (by decide)).append (Text.omits_toString_nat limit)).append
    (omits_literal (by decide))

theorem omits_stepTooSmall {name : String} (h : Omits sep name) (step value : Float) :
    Omits sep (DomainError.stepTooSmall name step value).message := by
  apply Omits.append
  . apply Omits.append
    . apply Omits.append
      . exact (Number.omits_toText step).between (by decide) (by decide)
      . exact h
    . exact omits_literal (by decide)
  . exact Number.omits_toText value

theorem omits_values_go {d : Domain} (h : Omits sep d.name) (value : Float) (flag : CancelFlag)
    (acc : Array Float) :
    Satisfies (fun _ => True) (fun e => Omits sep e.message) (values.go d value flag acc) := by
  unfold values.go
  split
  . next hle =>
    split
    . exact omits_literal (by decide)
    . split
      . exact omits_stepTooSmall h d.step value
      . next hnext =>
        have := Rank.above_lt_of_not_le hle hnext
        apply omits_values_go h
  . exact True.intro
termination_by Rank.above value

theorem omits_values {d : Domain} (h : Omits sep d.name) (limit : Nat) (flag : CancelFlag) :
    Satisfies (fun _ => True) (fun e => Omits sep e.message) (d.values limit flag) := by
  unfold values
  split
  . exact omits_tooLarge h limit
  . apply omits_values_go h

end Domain

namespace Columns

variable {ds : List Domain}

theorem omits_checkSizes (h : ∀ d ∈ ds, Omits sep d.name) (limit : Nat) (seen : List String)
    (total : Nat) :
    Satisfies (fun _ => True) (fun e => Omits sep e.message) (checkSizes limit seen total ds) := by
  induction ds generalizing seen total with
  | nil => exact True.intro
  | cons d ds ih =>
    have hname := h d List.mem_cons_self
    unfold checkSizes
    split
    . exact hname.between (by decide) (by decide)
    . split
      . exact Domain.omits_tooLarge hname limit
      . dsimp only
        split
        . exact (Text.omits_toString_nat limit).between (by decide) (by decide)
        . apply ih
          intro d' hd'
          exact h d' (List.mem_cons_of_mem d hd')

theorem omits_generate (h : ∀ d ∈ ds, Omits sep d.name) (limit : Nat) (flag : CancelFlag) :
    Satisfies (fun _ => True) (fun e => Omits sep e.message) (generate limit flag ds) := by
  induction ds generalizing flag with
  | nil => exact True.intro
  | cons d ds ih =>
    unfold generate
    apply (Domain.omits_values (h d List.mem_cons_self) limit flag).bind
    rintro ⟨values, flag⟩ -
    apply (ih (fun d' hd' => h d' (List.mem_cons_of_mem d hd')) flag).bind
    rintro ⟨columns, flag⟩ -
    exact True.intro

theorem omits_build (h : ∀ d ∈ ds, Omits sep d.name) (limit : Nat) (flag : CancelFlag) :
    Satisfies (fun _ => True) (fun e => Omits sep e.message) (build ds limit flag) := by
  unfold build
  apply (omits_checkSizes h limit [] 0).bind
  intro _ _
  apply (omits_generate h limit flag).bind
  rintro ⟨columns, flag⟩ -
  exact True.intro

theorem omits_tupleCount (cs : Columns) (mode : TupleMode) :
    Satisfies (fun _ => True) (fun e => Omits sep e.message) (cs.tupleCount mode) := by
  unfold tupleCount
  split
  . split
    . exact True.intro
    . split
      . exact True.intro
      . exact omits_literal (by decide)
  . dsimp only
    split
    . exact True.intro
    . exact omits_literal (by decide)

end Columns

theorem Tuples.omits_ofColumns (cs : Columns) (mode : TupleMode) :
    Satisfies (fun _ => True) (fun e => Omits sep e.message) (ofColumns cs mode) := by
  unfold ofColumns
  apply (cs.omits_tupleCount mode).bind
  intro total _
  exact True.intro

namespace Cursor

variable {c : Cursor}

theorem separator_not_mem_skip {l : Lexeme α} (h : sep.char ∉ c.rest)
    (hl : l.text ++ l.rest = c.rest) : sep.char ∉ (c.skip l).rest := by
  rw [← hl, List.mem_append, not_or] at h
  exact h.2

theorem omits_stuck {error : Nat → Char → ParseError} (h : sep.char ∉ c.rest)
    (herror : ∀ position found, found ≠ sep.char → Omits sep (error position found).message) :
    Omits sep (c.stuck error).error.message := by
  unfold stuck
  split
  . exact (omits_literal (by decide)).append (Text.omits_toString_nat c.position)
  . next found rest hrest =>
    apply herror
    rintro rfl
    apply h
    rw [hrest]
    exact List.mem_cons_self

theorem omits_found {before between : List Char} (hbefore : '\n' ∉ before ∧ ';' ∉ before)
    (hbetween : '\n' ∉ between ∧ ';' ∉ between) (position : Nat) {found : Char}
    (h : found ≠ sep.char) :
    Omits sep (String.ofList before ++ toString position ++ String.ofList between ++ toString found
      ++ "'") := by
  have hposition : Omits sep (toString position) := Text.omits_toString_nat position
  have hplace := hposition.between hbefore hbetween
  exact (hplace.append (Text.omits_toString_char h)).append (omits_literal (by decide))

theorem omits_readOperator (h : sep.char ∉ c.rest) :
    Satisfies (fun r => sep.char ∉ r.2.rest) (fun s => Omits sep s.error.message)
      c.readOperator := by
  unfold readOperator
  split
  . next l hl =>
    split
    . exact separator_not_mem_skip h (Lexeme.text_append_rest_of_symbol? hl)
    . apply omits_stuck h
      intro position found hfound
      exact omits_found (by decide) (by decide) position hfound
  . apply omits_stuck h
    intro position found hfound
    exact omits_found (by decide) (by decide) position hfound

theorem omits_readDelimiter (h : sep.char ∉ c.rest) (expected : Delimiter) :
    Satisfies (fun c' => sep.char ∉ c'.rest) (fun s => Omits sep s.error.message)
      (c.readDelimiter expected) := by
  have hstuck : Omits sep (c.stuck (.expectedDelimiter · expected ·)).error.message := by
    apply omits_stuck h
    intro position found hfound
    have hexpected : expected.symbol ≠ sep.char := by
      cases expected <;> cases sep <;> decide
    apply Omits.append
    . apply Omits.append
      . apply Omits.append
        . apply Omits.append
          . exact (Text.omits_toString_nat position).between (by decide) (by decide)
          . exact Text.omits_toString_char hexpected
        . exact omits_literal (by decide)
      . exact Text.omits_toString_char hfound
    . exact omits_literal (by decide)
  unfold readDelimiter
  split
  . next l hl =>
    split
    . exact separator_not_mem_skip h (Lexeme.text_append_rest_of_delimiter? hl)
    . exact hstuck
  . exact hstuck

theorem omits_readNode {c : Cursor} (h : sep.char ∉ c.rest) (levels : Nat) :
    Satisfies (fun r => sep.char ∉ r.2.rest) (fun s => Omits sep s.error.message)
      (c.readNode levels) := by
  unfold readNode
  split
  . next l hl => exact separator_not_mem_skip h (Lexeme.text_append_rest_of_number? hl)
  . split
    . next l hl => exact separator_not_mem_skip h (Lexeme.text_append_rest_of_identifier? hl)
    . split
      . apply omits_stuck h
        intro position found hfound
        exact omits_found (by decide) (by decide) position hfound
      . next inner hinner =>
        -- the bracket that was read has left no separator behind it
        have hrest := omits_readDelimiter h .opening
        rw [hinner, satisfies_ok] at hrest
        split
        . have hlimit : Omits sep (toString maxNesting) := Text.omits_toString_nat maxNesting
          exact (hlimit.between (by decide) (by decide)).append
            (Text.omits_toString_nat c.position)
        . next levels =>
          apply (omits_readNode hrest levels).bind
          rintro ⟨left, c₁⟩ hleft
          apply (omits_readOperator hleft).bind
          rintro ⟨op, c₂⟩ hop
          apply (omits_readNode hop levels).bind
          rintro ⟨right, c₃⟩ hright
          apply (omits_readDelimiter hright .closing).bind
          intro c₄ hclosing
          exact hclosing
termination_by levels

end Cursor

theorem Grammar.IsSymbol.separator_ne {c : Char} (h : IsSymbol c) : sep.char ≠ c := by
  cases h with
  | word hword =>
    rintro rfl
    cases sep <;> contradiction
  | point | opening | closing => cases sep <;> decide
  | operator op => cases op <;> cases sep <;> decide

namespace Expression

theorem omits_text_of_parse {source : String} {e : Expression} (h : parse source = .ok e) :
    Omits sep e.root.text := by
  -- the canonical text is derivable, whatever the source was
  obtain ⟨hderives, -, -⟩ := derives_of_parse h
  intro hmem
  exact (Grammar.isSymbol_of_derives (Grammar.derives_text hderives) _ hmem).separator_ne rfl

theorem omits_parse {source : String} (h : Omits sep source) :
    Satisfies (fun _ => True) (fun e => Omits sep e.message) (parse source) := by
  have hstrip : sep.char ∉ Text.strip source.toList := by
    intro hmem
    exact h (List.mem_filter.mp hmem).1
  have hread := Cursor.omits_readNode (c := .start (Text.strip source.toList)) hstrip
    Cursor.maxNesting
  unfold parse
  split
  . next stuck hstuck =>
    unfold Cursor.read at hstuck
    rw [hstuck] at hread
    exact hread
  . next root c hok =>
    unfold Cursor.read at hok
    rw [hok] at hread
    split
    . exact True.intro
    . next found hfound =>
      apply Cursor.omits_found (by decide) (by decide)
      rintro rfl
      exact hread (List.mem_of_mem_head? hfound)

end Expression

/-! The errors of an evaluation, which show a part of the tree that is evaluated. -/

namespace Node

theorem omits_of_binary {op : Operator} {left right : Node}
    (h : Omits sep (binary op left right).text) : Omits sep left.text ∧ Omits sep right.text := by
  have hchars :
      sep.char ∉ '(' :: (left.text.toList ++ op.symbol :: (right.text.toList ++ [')'])) := by
    intro hmem
    apply h
    simpa [text] using hmem
  constructor
  . intro hleft
    apply hchars
    simp [hleft]
  . intro hright
    apply hchars
    simp [hright]

theorem omits_combine {node : Node} (h : Omits sep node.text) (op : Operator) (left right : Float) :
    Satisfies (fun _ => True) (fun e => Omits sep e.message) (node.combine op left right) := by
  have hnotANumber : Omits sep (EvalError.notANumber node).message := by
    exact h.between (by decide) (by decide)
  unfold combine
  split
  . exact hnotANumber
  . split
    . split
      . exact h.between (by decide) (by decide)
      . exact h.between (by decide) (by decide)
    . dsimp only
      split
      . exact hnotANumber
      . exact True.intro

theorem omits_evaluate {t : Node} (h : Omits sep t.text) (lookup : Lookup) (tuple : List Float) :
    Satisfies (fun _ => True) (fun e => Omits sep e.message) (t.evaluate lookup tuple) := by
  induction t with
  | const value => exact True.intro
  | var name =>
    unfold evaluate
    split
    . exact True.intro
    . exact h.between (by decide) (by decide)
  | binary op left right ihleft ihright =>
    obtain ⟨hleft, hright⟩ := omits_of_binary h
    unfold evaluate
    apply (ihleft hleft).bind
    intro leftValue _
    apply (ihright hright).bind
    intro rightValue _
    exact omits_combine h op leftValue rightValue

end Node

namespace Expression

structure Omits sep (e : Expression) : Prop where
  source : Text.Omits sep e.source
  root : Text.Omits sep e.root.text

theorem omits_of_parse {source : String} (hsource : Text.Omits sep source) {e : Expression}
    (h : parse source = .ok e) : e.Omits sep := by
  obtain ⟨-, -, heq⟩ := derives_of_parse h
  constructor
  . rwa [heq]
  . exact omits_text_of_parse h

end Expression

namespace Aggregate

variable {expressions : List Expression}

theorem omits_extremum (h : ∀ e ∈ expressions, e.Omits sep) (select : Float → Float → Float)
    (lookup : Lookup) (acc : Float) (tuple : List Float) :
    Satisfies (fun _ => True) (fun e => Omits sep e.message)
      (extremum select expressions lookup acc tuple) := by
  apply satisfies_foldlM _ True.intro
  intro acc _ e he
  have hvalue := Node.omits_evaluate (h e he).root lookup tuple
  split
  . exact True.intro
  . next cause hcause =>
    rw [hcause] at hvalue
    exact ((h e he).source.between (by decide) (by decide)).append hvalue

theorem omits_sum {first : Expression} (h : first.Omits sep) (lookup : Lookup) (acc : Float)
    (tuple : List Float) :
    Satisfies (fun _ => True) (fun e => Omits sep e.message) (sum first lookup acc tuple) := by
  have hvalue := Node.omits_evaluate h.root lookup tuple
  unfold sum
  split
  . exact True.intro
  . next cause hcause =>
    rw [hcause] at hvalue
    exact (omits_literal (by decide)).append hvalue

end Aggregate

theorem Tuples.satisfies_fold {step : σ → List Float → Except ε σ} {cancelled : ε} {E : ε → Prop}
    (h : ∀ acc tuple, Satisfies (fun _ => True) E (step acc tuple)) (hcancelled : E cancelled)
    (t : Tuples) (flag : CancelFlag) (acc : σ) :
    Satisfies (fun _ => True) E (t.fold flag step cancelled acc) := by
  rcases flag.check_cases with ⟨-, hcheck⟩ | ⟨flag', -, hcheck⟩
  . rw [fold_cancelled hcheck]
    exact hcancelled
  . cases ht : t.next? with
    | none =>
      rw [fold_none hcheck ht]
      exact True.intro
    | some next =>
      obtain ⟨tuple, rest⟩ := next
      have := remaining_lt_of_next? ht
      rw [fold_some hcheck ht]
      apply (h acc tuple).bind
      intro acc' _
      apply satisfies_fold h hcancelled
termination_by t.remaining

theorem omits_aggregate {expressions : List Expression} (h : ∀ e ∈ expressions, e.Omits sep)
    (kind : AggregationKind) (tuples : Tuples) (lookup : Lookup) (flag : CancelFlag) :
    Satisfies (fun _ => True) (fun e => Omits sep e.message)
      (aggregate kind tuples expressions lookup flag) := by
  have hcancelled : Omits sep AggregateError.cancelled.message := by
    exact omits_literal (by decide)
  unfold aggregate
  split
  . exact True.intro
  . exact omits_literal (by decide)
  . next first others _ =>
    split
    . have htoken : Omits sep kind.token := by
        cases kind <;> exact omits_literal (by decide)
      exact (omits_literal (by decide)).append htoken
    . split
      . exact Tuples.satisfies_fold (Aggregate.omits_extremum h _ lookup) hcancelled tuples flag _
      . exact Tuples.satisfies_fold (Aggregate.omits_extremum h _ lookup) hcancelled tuples flag _
      . have hsum := Aggregate.omits_sum (h first List.mem_cons_self) lookup
        apply (Tuples.satisfies_fold hsum hcancelled tuples flag 0).bind
        intro total _
        exact True.intro

/-! The errors of a request as a whole, and the responses that tell them. -/

namespace ComputeError

theorem omits_domain {e : DomainError} (h : Omits sep e.message) :
    Omits sep (domain e).message := by
  exact (omits_literal (by decide)).append h

theorem omits_aggregate {e : AggregateError} (h : Omits sep e.message) :
    Omits sep (aggregate e).message := by
  exact (omits_literal (by decide)).append h

theorem omits_cancelled : Omits sep cancelled.message := by
  exact (omits_literal (by decide)).append (omits_literal (by decide))

theorem omits_mapError_ofDomain {Q : α → Prop} {x : Except DomainError α}
    (h : Satisfies Q (fun e => Omits sep e.message) x) :
    Satisfies Q (fun e => Omits sep e.message) (x.mapError ofDomain) := by
  apply h.mapError
  intro e he
  cases e with
  | cancelled => exact omits_cancelled
  | _ => exact omits_domain he

theorem omits_mapError_ofAggregate {Q : α → Prop} {x : Except AggregateError α}
    (h : Satisfies Q (fun e => Omits sep e.message) x) :
    Satisfies Q (fun e => Omits sep e.message) (x.mapError ofAggregate) := by
  apply h.mapError
  intro e he
  cases e with
  | cancelled => exact omits_cancelled
  | _ => exact omits_aggregate he

end ComputeError

namespace Computation

theorem omits_parseExpressions {sources : List String} (h : ∀ s ∈ sources, Text.Omits sep s) :
    Satisfies (fun es => ∀ e ∈ es, e.Omits sep) (fun e => Text.Omits sep e.message)
      (parseExpressions sources) := by
  apply satisfies_mapM
  intro source hsource
  have hparse := Expression.omits_parse (h source hsource)
  cases heq : Expression.parse source with
  | ok e => exact Expression.omits_of_parse (h source hsource) heq
  | error cause =>
    rw [heq] at hparse
    exact ((h source hsource).between (by decide) (by decide)).append hparse

theorem omits_run {c : Computation} (h : c.Omits sep) (limit : Nat) (flag : CancelFlag) :
    Satisfies (fun _ => True) (fun e => Text.Omits sep e.message) (c.run limit flag) := by
  unfold run
  apply (ComputeError.omits_mapError_ofDomain (Domain.omits_parseSpec h.spec)).bind
  intro domains hdomains
  apply (ComputeError.omits_mapError_ofDomain (Columns.omits_build hdomains limit flag)).bind
  rintro ⟨columns, flag⟩ -
  apply (ComputeError.omits_mapError_ofDomain (Tuples.omits_ofColumns columns c.mode)).bind
  intro tuples _
  apply (omits_parseExpressions h.expressions).bind
  intro expressions hexpressions
  apply ComputeError.omits_mapError_ofAggregate
  apply omits_aggregate hexpressions

end Computation

namespace Response

def Omits (sep : Text.Separator) : Response → Prop
  | ok _ _ => True
  | err message => Text.Omits sep message

theorem omits_ofError {e : ComputeError} (h : Text.Omits sep e.message) :
    (ofError e).Omits sep := by
  exact h

theorem omits_ofResult (elapsed : Duration) {outcome : Except ComputeError Float}
    (h : Satisfies (fun _ => True) (fun e => Text.Omits sep e.message) outcome) :
    (ofResult elapsed outcome).Omits sep := by
  cases outcome with
  | ok value => exact True.intro
  | error e => exact omits_ofError h

theorem isLine_text {r : Response} (h : r.Omits .newline) : Text.IsLine r.text := by
  rw [← Text.omits_newline_iff]
  cases r with
  | ok elapsed value =>
    apply Omits.append
    . apply Omits.append
      . apply Omits.append
        . exact Text.omits_ofList.mpr (by decide)
        . exact Number.omits_toFixed 3 elapsed.toSeconds
      . exact Text.omits_ofList.mpr (by decide)
    . exact Number.omits_toFixed 6 value
  | err message =>
    apply Omits.append
    . exact Text.omits_ofList.mpr (by decide)
    . exact h

theorem text_ne_empty (r : Response) : r.text ≠ "" := by
  cases r <;> simp [text]

end Response

end Sweep
