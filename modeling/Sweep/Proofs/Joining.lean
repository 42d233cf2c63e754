import Sweep.Proofs.Classification
import Sweep.Proofs.Separators
import Sweep.Proofs.Trimming

/-!
This module contains the lines that computations are written as. Such a line is read back as its
computation, with any number of separators behind it, and no other line is read as that computation.
-/

namespace Sweep

namespace Computation

variable {line : String} {c c' : Computation}

/-! The parts of a line. -/

theorem parts_eq_iff {line : List Char} {fields : List (List Char)} (hne : fields ≠ []) :
    parts line = fields ↔
      (∀ field ∈ fields, ';' ∉ field) ∧ [] ∉ fields.getLast? ∧
      ∃ extra, line = [';'].intercalate fields ++ List.replicate extra ';' := by
  rw [parts_eq_rdropWhile]
  constructor
  . rintro rfl
    have hmem : ∀ field ∈ (line.splitOn ';').rdropWhile List.isEmpty, ';' ∉ field := by
      intro field hfield hsemicolon
      have hsplit := (List.rdropWhile_prefix List.isEmpty _).subset hfield
      exact (Text.mem_of_mem_splitOn hsplit hsemicolon).2 rfl
    obtain ⟨extra, hsplit⟩ := exists_rdropWhile_append_replicate
      (fun _ => List.isEmpty_iff.mp) (line.splitOn ';')
    refine ⟨hmem, ?_, extra, ?_⟩
    . intro hlast
      rw [List.getLast?_eq_some_getLast hne] at hlast
      have hempty := List.rdropWhile_last_not List.isEmpty _ hne
      rw [Option.some.inj hlast] at hempty
      contradiction
    . rw [← Text.intercalate_append_replicate hne, ← hsplit]
      exact (List.intercalate_splitOn ';').symm
  . rintro ⟨hmem, hlast, extra, rfl⟩
    have hself : fields.rdropWhile List.isEmpty = fields := by
      rw [List.rdropWhile_eq_self_iff]
      intro hfields hempty
      apply hlast
      rw [List.getLast?_eq_some_getLast hfields, List.isEmpty_iff.mp hempty]
      rfl
    have hall : ∀ field ∈ fields ++ List.replicate extra [], ';' ∉ field := by
      intro field hfield
      rcases List.mem_append.mp hfield with hfield | hfield
      . exact hmem field hfield
      . rw [List.eq_of_mem_replicate hfield]
        exact List.not_mem_nil
    rw [← Text.intercalate_append_replicate hne,
      List.splitOn_intercalate ';' hall (by simp [hne]), rdropWhile_append_of_forall, hself]
    intro field hfield
    rw [List.eq_of_mem_replicate hfield]
    rfl

/-! The line of a computation. -/

def fields (c : Computation) : List String :=
  (c.kind.token ++ "_" ++ c.mode.token) :: c.spec :: c.expressions

def text (c : Computation) : String :=
  ";".intercalate c.fields

structure Writable (c : Computation) : Prop where
  spec : ';' ∉ c.spec.toList
  expressions : ∀ e ∈ c.expressions, ';' ∉ e.toList
  last : ∃ e, c.expressions.getLast? = some e ∧ e ≠ ""

theorem parse_eq_ok_iff_parts :
    parse line = .ok c ↔
      parts line.toList = c.fields.map String.toList ∧ c.expressions ≠ [] := by
  obtain ⟨kind, mode, spec, expressions⟩ := c
  constructor
  . intro h
    unfold parse at h
    split at h
    . next header spec expression expressions hparts =>
      obtain ⟨⟨kind, mode⟩, hheader, h⟩ := bind_eq_ok h
      cases h
      rw [hparts, parseHeader_eq_ok_iff.mp hheader]
      simp [fields, headerOf]
    . contradiction
  . rintro ⟨hparts, hne⟩
    obtain ⟨expression, expressions, rfl⟩ := List.exists_cons_of_ne_nil hne
    have hheader : parseHeader (kind.token ++ "_" ++ mode.token).toList = .ok (kind, mode) := by
      rw [parseHeader_eq_ok_iff]
      simp [headerOf]
    unfold parse
    rw [hparts]
    simp only [fields, List.map_cons, hheader, bind_ok]
    simp

theorem toList_text (c : Computation) :
    c.text.toList = [';'].intercalate (c.fields.map String.toList) := by
  unfold text
  rw [String.toList_intercalate]
  rfl

theorem semicolon_not_mem_header (kind : AggregationKind) (mode : TupleMode) :
    ';' ∉ (kind.token ++ "_" ++ mode.token).toList := by
  cases kind <;> cases mode <;> decide

theorem getLast?_fields (hne : c.expressions ≠ []) :
    (c.fields.map String.toList).getLast? = c.expressions.getLast?.map String.toList := by
  obtain ⟨e, es, heq⟩ := List.exists_cons_of_ne_nil hne
  rw [List.getLast?_map, fields, heq, List.getLast?_cons_cons, List.getLast?_cons_cons]

theorem writable_iff (hne : c.expressions ≠ []) :
    c.Writable ↔
      (∀ field ∈ c.fields.map String.toList, ';' ∉ field) ∧
      [] ∉ (c.fields.map String.toList).getLast? := by
  rw [getLast?_fields hne, List.getLast?_eq_some_getLast hne, List.forall_mem_map, fields,
    List.forall_mem_cons, List.forall_mem_cons]
  constructor
  . rintro ⟨hspec, hexpressions, e, hlast, he⟩
    rw [List.getLast?_eq_some_getLast hne] at hlast
    refine ⟨⟨semicolon_not_mem_header c.kind c.mode, hspec, hexpressions⟩, ?_⟩
    rw [hlast]
    simpa using he
  . rintro ⟨⟨-, hspec, hexpressions⟩, hlast⟩
    refine ⟨hspec, hexpressions, _, List.getLast?_eq_some_getLast hne, ?_⟩
    simpa using hlast

theorem parse_eq_ok_iff_text :
    parse line = .ok c ↔
      c.Writable ∧ ∃ extra, line = c.text ++ String.ofList (List.replicate extra ';') := by
  have hline : ∀ extra, line = c.text ++ String.ofList (List.replicate extra ';') ↔
      line.toList = [';'].intercalate (c.fields.map String.toList) ++
        List.replicate extra ';' := by
    intro extra
    rw [← String.toList_inj, String.toList_append, String.toList_ofList, toList_text]
  have hfields : c.fields.map String.toList ≠ [] := by
    simp [fields]
  rw [parse_eq_ok_iff_parts, parts_eq_iff hfields]
  simp only [hline]
  constructor
  . rintro ⟨⟨hmem, hlast, hextra⟩, hne⟩
    exact ⟨(writable_iff hne).mpr ⟨hmem, hlast⟩, hextra⟩
  . rintro ⟨hwritable, hextra⟩
    have hne : c.expressions ≠ [] := by
      rintro hnil
      obtain ⟨e, hlast, -⟩ := hwritable.last
      rw [hnil] at hlast
      contradiction
    obtain ⟨hmem, hlast⟩ := (writable_iff hne).mp hwritable
    exact ⟨⟨hmem, hlast, hextra⟩, hne⟩

/-! Empty expressions. -/

def trimmed (c : Computation) : Computation :=
  { c with expressions := c.expressions.rdropWhile (· == "") }

theorem exists_text_eq (c : Computation) :
    ∃ extra, c.text = c.trimmed.text ++ String.ofList (List.replicate extra ';') := by
  obtain ⟨extra, hexpressions⟩ := exists_rdropWhile_append_replicate (p := (· == ""))
    (fun _ => beq_iff_eq.mp) c.expressions
  refine ⟨extra, ?_⟩
  have hfields : c.fields = c.trimmed.fields ++ List.replicate extra "" := by
    unfold fields
    rw [hexpressions]
    rfl
  rw [← String.toList_inj, String.toList_append, String.toList_ofList, toList_text, toList_text,
    hfields, List.map_append, List.map_replicate]
  exact Text.intercalate_append_replicate (by simp [fields]) ';' extra

theorem writable_trimmed (hspec : ';' ∉ c.spec.toList)
    (hexpressions : ∀ e ∈ c.expressions, ';' ∉ e.toList) (hne : ∃ e ∈ c.expressions, e ≠ "") :
    c.trimmed.Writable := by
  constructor
  . exact hspec
  . intro e he
    exact hexpressions e ((List.rdropWhile_prefix _ _).subset he)
  . have hkept : c.expressions.rdropWhile (· == "") ≠ [] := by
      rw [ne_eq, List.rdropWhile_eq_nil_iff]
      intro hempty
      obtain ⟨e, he, hne⟩ := hne
      exact hne (beq_iff_eq.mp (hempty e he))
    refine ⟨_, List.getLast?_eq_some_getLast hkept, ?_⟩
    simpa using List.rdropWhile_last_not _ _ hkept

theorem eq_of_text_eq (h : c.Writable) (h' : c'.Writable) {extra extra' : Nat}
    (heq : c'.text ++ String.ofList (List.replicate extra' ';')
      = c.text ++ String.ofList (List.replicate extra ';')) : c' = c ∧ extra' = extra := by
  have hparse := parse_eq_ok_iff_text.mpr ⟨h, extra, rfl⟩
  have hparse' := parse_eq_ok_iff_text.mpr ⟨h', extra', rfl⟩
  rw [heq, hparse] at hparse'
  cases hparse'
  refine ⟨rfl, ?_⟩
  have hlength := congrArg String.length heq
  simpa using hlength

/--
A line is read as a computation if and only if it consists of the tokens, the domains and the
expressions of the computation with semicolons between them, and any number of semicolons behind
them. Empty expressions count unless there are only empty ones behind them.
-/
theorem parse_joined (line : String) (c : Computation) :
    (parse line = .ok c ↔
      c.Writable ∧ ∃ extra, line = c.text ++ String.ofList (List.replicate extra ';')) ∧
    (parse line = .ok c → parse c.text = .ok c) ∧
    (c.Writable → ∀ c' extra extra', c'.Writable →
      c'.text ++ String.ofList (List.replicate extra' ';')
        = c.text ++ String.ofList (List.replicate extra ';') →
      c' = c ∧ extra' = extra) ∧
    -- empty expressions
    (';' ∉ c.spec.toList → (∀ e ∈ c.expressions, ';' ∉ e.toList) →
      (∃ e ∈ c.expressions, e ≠ "") →
      parse c.text = .ok { c with expressions := c.expressions.rdropWhile (· == "") }) := by
  refine ⟨parse_eq_ok_iff_text, ?_, ?_, ?_⟩
  . intro h
    have hwritable := (parse_eq_ok_iff_text.mp h).1
    exact parse_eq_ok_iff_text.mpr ⟨hwritable, 0, by simp⟩
  . intro h c' extra extra' h' heq
    exact eq_of_text_eq h h' heq
  . intro hspec hexpressions hne
    apply parse_eq_ok_iff_text.mpr
    exact ⟨writable_trimmed hspec hexpressions hne, exists_text_eq c⟩

example :
    parse "AVG_LIST;;;x;;" = .ok { kind := .avg, mode := .list, spec := "", expressions := ["", "x"] }
      := by
  rfl

end Computation

end Sweep
