import Sweep.Domain.Basic
import Sweep.Proofs.Lexemes
import Sweep.Proofs.Outcomes
import Sweep.Proofs.Readback
import Sweep.Proofs.Separators
import Sweep.Proofs.Trimming

/-!
This module contains the texts that declare domains: which of them are accepted, with which domains,
which error the others are refused with, and that printed domains are read back.
-/

namespace Sweep

open Grammar (Identifier IsSymbol)

theorem mapM_eq_ok_iff {f : α → Except ε β} {xs : List α} {ys : List β} :
    xs.mapM f = .ok ys ↔ List.Forall₂ (fun x y => f x = .ok y) xs ys := by
  constructor
  . intro h
    induction xs generalizing ys with
    | nil =>
      cases h
      exact .nil
    | cons x xs ih =>
      obtain ⟨y, zs, hy, hzs, rfl⟩ := mapM_cons_eq_ok h
      exact .cons hy (ih hzs)
  . intro h
    induction h with
    | nil => rfl
    | cons hy _ ih =>
      rw [List.mapM_cons, hy, ih]
      rfl

theorem forall₂_imp_of_mem {R S : α → β → Prop} {xs : List α} {ys : List β}
    (h : List.Forall₂ R xs ys) (hS : ∀ x, ∀ y ∈ ys, R x y → S x y) : List.Forall₂ S xs ys := by
  induction h with
  | nil => exact .nil
  | @cons x y xs ys hxy _ ih =>
    refine .cons (hS x y List.mem_cons_self hxy) (ih ?_)
    intro x' y' hy'
    exact hS x' y' (List.mem_cons_of_mem y hy')

theorem forall_mem_of_forall₂ {R : α → β → Prop} {P : α → Prop} {xs : List α} {ys : List β}
    (h : List.Forall₂ R xs ys) (hP : ∀ x, ∀ y ∈ ys, R x y → P x) : ∀ x ∈ xs, P x := by
  have hboth := forall₂_imp_of_mem h fun x y hy hxy => And.intro (hP x y hy hxy) hxy
  exact ((List.forall₂_and_left xs ys).mp hboth).1

namespace Domain

variable {entry spec : String} {fields : List String} {d : Domain} {e : DomainError}

/-! The fields of an entry. -/

def HasFields (entry : String) (fields : List String) : Prop :=
  List.Forall₂ (fun raw field => Text.Pads raw field.toList ∧ Text.IsTrimmed field.toList)
    (entry.toList.splitOn ':') fields

theorem hasFields_iff :
    HasFields entry fields ↔
      (entry.toList.splitOn ':').map Text.trim = fields.map String.toList := by
  have hforall := congrFun₂ (List.forall₂_eq_eq_eq (α := List Char))
    ((entry.toList.splitOn ':').map Text.trim) (fields.map String.toList)
  unfold HasFields
  simp only [← Text.trim_eq_iff]
  rw [← hforall, List.forall₂_map_left_iff, List.forall₂_map_right_iff]

theorem exists_hasFields (entry : String) : ∃ fields, HasFields entry fields := by
  refine ⟨(entry.toList.splitOn ':').map (String.ofList ∘ Text.trim), ?_⟩
  rw [hasFields_iff, List.map_map]
  apply List.map_congr_left
  intro raw _
  exact String.toList_ofList.symm

/-! How an entry is read. -/

theorem isName_iff {name : String} : isName name.toList ↔ Identifier name.toList name := by
  unfold isName
  constructor
  . intro h
    split at h
    . next l hl =>
      have hname := Lexeme.identifier_of_identifier? hl
      have htext := Lexeme.text_append_rest_of_identifier? hl
      rw [List.isEmpty_iff.mp h, List.append_nil] at htext
      rw [hname.eq_ofList, htext, String.ofList_toList] at hname
      exact hname
    . contradiction
  . intro h
    have hread := Lexeme.identifier?_append h Lexeme.stops_nil
    rw [List.append_nil] at hread
    rw [hread]
    rfl

theorem number_of_some {field : String} {x : Float} (h : Number.ofText? field = some x)
    (entry : String) : number entry field.toList = .ok x := by
  unfold number
  simp only [String.ofList_toList, h]

theorem number_of_none {field : String} (h : Number.ofText? field = none) (entry : String) :
    number entry field.toList = .error (.invalidNumber entry field) := by
  unfold number
  simp only [String.ofList_toList, h]

theorem parse_of_length_ne (h : HasFields entry fields) (hlength : fields.length ≠ 4) :
    parse entry = .error (.invalidEntry entry) := by
  unfold parse
  rw [hasFields_iff.mp h]
  split
  . next hfields =>
    have := congrArg List.length hfields
    simp at this
    contradiction
  . rfl

theorem parse_of_identifier {name lower step upper : String}
    (h : HasFields entry [name, lower, step, upper]) (hname : Identifier name.toList name) :
    parse entry = (do
      let lower ← number entry lower.toList
      let step ← number entry step.toList
      let upper ← number entry upper.toList
      make name lower step upper) := by
  unfold parse
  rw [hasFields_iff.mp h]
  simp [isName_iff.mpr hname]

theorem parse_of_not_identifier {name lower step upper : String}
    (h : HasFields entry [name, lower, step, upper]) (hname : ¬Identifier name.toList name) :
    parse entry = .error (.invalidName name) := by
  unfold parse
  rw [hasFields_iff.mp h]
  simp [isName_iff.not.mpr hname]

/-! The outcome of an entry. -/

/--
The entry consists of four fields: the name of the domain and the texts of three numbers. The second
number is positive since it is the step of a domain.
-/
inductive Declares (entry : String) (d : Domain) : Prop
  | intro {lower step upper : String} (hfields : HasFields entry [d.name, lower, step, upper])
    (hname : Identifier d.name.toList d.name) (hlower : Number.ofText? lower = some d.lower)
    (hstep : Number.ofText? step = some d.step) (hupper : Number.ofText? upper = some d.upper)

inductive Refuses (entry : String) : DomainError → Prop
  | count {fields : List String} (hfields : HasFields entry fields) (h : fields.length ≠ 4) :
    Refuses entry (.invalidEntry entry)
  | name {name lower step upper : String} (hfields : HasFields entry [name, lower, step, upper])
    (h : ¬Identifier name.toList name) : Refuses entry (.invalidName name)
  | lower {name lower step upper : String} (hfields : HasFields entry [name, lower, step, upper])
    (hname : Identifier name.toList name) (h : Number.ofText? lower = none) :
    Refuses entry (.invalidNumber entry lower)
  | step {name lower step upper : String} {a : Float}
    (hfields : HasFields entry [name, lower, step, upper]) (hname : Identifier name.toList name)
    (hlower : Number.ofText? lower = some a) (h : Number.ofText? step = none) :
    Refuses entry (.invalidNumber entry step)
  | upper {name lower step upper : String} {a b : Float}
    (hfields : HasFields entry [name, lower, step, upper]) (hname : Identifier name.toList name)
    (hlower : Number.ofText? lower = some a) (hstep : Number.ofText? step = some b)
    (h : Number.ofText? upper = none) : Refuses entry (.invalidNumber entry upper)
  | positive {name lower step upper : String} {a b c : Float}
    (hfields : HasFields entry [name, lower, step, upper]) (hname : Identifier name.toList name)
    (hlower : Number.ofText? lower = some a) (hstep : Number.ofText? step = some b)
    (hupper : Number.ofText? upper = some c) (h : ¬0 < b) :
    Refuses entry (.nonPositiveStep name b)

theorem parse_of_declares (h : Declares entry d) : parse entry = .ok d := by
  obtain ⟨hfields, hname, hlower, hstep, hupper⟩ := h
  rw [parse_of_identifier hfields hname]
  simp only [number_of_some hlower, number_of_some hstep, number_of_some hupper, bind_ok]
  unfold make
  rw [dif_pos d.step_pos]

theorem parse_of_refuses (h : Refuses entry e) : parse entry = .error e := by
  cases h with
  | count hfields h => exact parse_of_length_ne hfields h
  | name hfields h => exact parse_of_not_identifier hfields h
  | lower hfields hname h =>
    rw [parse_of_identifier hfields hname]
    simp only [number_of_none h, bind_error]
  | step hfields hname hlower h =>
    rw [parse_of_identifier hfields hname]
    simp only [number_of_some hlower, number_of_none h, bind_ok, bind_error]
  | upper hfields hname hlower hstep h =>
    rw [parse_of_identifier hfields hname]
    simp only [number_of_some hlower, number_of_some hstep, number_of_none h, bind_ok, bind_error]
  | positive hfields hname hlower hstep hupper h =>
    rw [parse_of_identifier hfields hname]
    simp only [number_of_some hlower, number_of_some hstep, number_of_some hupper, bind_ok]
    unfold make
    rw [dif_neg h]

theorem declares_or_refuses (entry : String) :
    (∃ d, Declares entry d) ∨ ∃ e, Refuses entry e := by
  obtain ⟨fields, hfields⟩ := exists_hasFields entry
  by_cases hlength : fields.length = 4
  . obtain ⟨name, lower, step, upper, rfl⟩ : ∃ name lower step upper,
        fields = [name, lower, step, upper] := List.length_eq_four.mp hlength
    by_cases hname : Identifier name.toList name
    . cases hlower : Number.ofText? lower with
      | none => exact .inr ⟨_, .lower hfields hname hlower⟩
      | some a =>
        cases hstep : Number.ofText? step with
        | none => exact .inr ⟨_, .step hfields hname hlower hstep⟩
        | some b =>
          cases hupper : Number.ofText? upper with
          | none => exact .inr ⟨_, .upper hfields hname hlower hstep hupper⟩
          | some c =>
            by_cases hpos : 0 < b
            . refine .inl ⟨{ name, lower := a, step := b, upper := c, step_pos := hpos }, ?_⟩
              exact .intro hfields hname hlower hstep hupper
            . exact .inr ⟨_, .positive hfields hname hlower hstep hupper hpos⟩
    . exact .inr ⟨_, .name hfields hname⟩
  . exact .inr ⟨_, .count hfields hlength⟩

theorem parse_eq_ok_iff : parse entry = .ok d ↔ Declares entry d := by
  constructor
  . intro h
    rcases declares_or_refuses entry with ⟨d', hd'⟩ | ⟨e, he⟩
    . rw [parse_of_declares hd'] at h
      cases h
      exact hd'
    . rw [parse_of_refuses he] at h
      contradiction
  . exact parse_of_declares

theorem parse_eq_error_iff : parse entry = .error e ↔ Refuses entry e := by
  constructor
  . intro h
    rcases declares_or_refuses entry with ⟨d, hd⟩ | ⟨e', he'⟩
    . rw [parse_of_declares hd] at h
      contradiction
    . rw [parse_of_refuses he'] at h
      cases h
      exact he'
  . exact parse_of_refuses

/-! The text of domains. -/

def printed (d : Domain) : List String :=
  [d.name, Number.toText d.lower, Number.toText d.step, Number.toText d.upper]

def Prints (d : Domain) (entry : String) : Prop :=
  ∃ raws, List.Forall₂ (fun raw field => Text.Pads raw field.toList) raws d.printed ∧
    entry.toList = [':'].intercalate raws

structure Printable (d : Domain) : Prop where
  name : Identifier d.name.toList d.name
  lower : d.lower.isNaN = false
  upper : d.upper.isNaN = false

theorem isNaN_step (d : Domain) : d.step.isNaN = false := by
  rw [Number.not_isNaN_iff]
  intro hstep
  have hpos := Number.lt_iff_compare.mp d.step_pos
  rw [hstep] at hpos
  contradiction

theorem Printable.isSymbol (h : d.Printable) :
    ∀ field ∈ d.printed, ∀ c ∈ field.toList, IsSymbol c := by
  unfold printed
  simp only [List.forall_mem_cons]
  refine ⟨?_, Number.isSymbol_toText h.lower, Number.isSymbol_toText d.isNaN_step,
    Number.isSymbol_toText h.upper, nofun⟩
  intro c hc
  exact Grammar.isSymbol_of_plain (Grammar.plain_of_identifier h.name c hc)

theorem separator_not_mem_of_isSymbol {cs : List Char} (h : ∀ c ∈ cs, IsSymbol c) :
    ':' ∉ cs ∧ ',' ∉ cs := by
  have hne : ∀ c, IsSymbol c → c ≠ ':' ∧ c ≠ ',' := by
    intro c hc
    cases hc with
    | word hword => constructor <;> rintro rfl <;> contradiction
    | point | opening | closing => decide
    | operator op => cases op <;> decide
  exact ⟨fun hcolon => (hne _ (h _ hcolon)).1 rfl, fun hcomma => (hne _ (h _ hcomma)).2 rfl⟩

theorem not_mem_of_pads {raw cs : List Char} {c : Char} (h : Text.Pads raw cs)
    (hblank : ¬Text.isBlank c) (hcs : c ∉ cs) : c ∉ raw := by
  obtain ⟨before, after, hbefore, hafter, rfl⟩ := h
  simp only [List.mem_append, not_or]
  exact ⟨⟨fun hc => hblank (hbefore c hc), hcs⟩, fun hc => hblank (hafter c hc)⟩

theorem Printable.separator_not_mem (h : d.Printable) {raws : List (List Char)}
    (hraws : List.Forall₂ (fun raw field => Text.Pads raw field.toList) raws d.printed) :
    ∀ raw ∈ raws, ':' ∉ raw ∧ ',' ∉ raw := by
  refine forall_mem_of_forall₂ hraws ?_
  intro raw field hfield hpads
  obtain ⟨hcolon, hcomma⟩ := separator_not_mem_of_isSymbol (h.isSymbol field hfield)
  exact ⟨not_mem_of_pads hpads (by decide) hcolon, not_mem_of_pads hpads (by decide) hcomma⟩

theorem Prints.declares (h : d.Prints entry) (hprintable : d.Printable) : Declares entry d := by
  obtain ⟨raws, hraws, hentry⟩ := h
  have hsplit : entry.toList.splitOn ':' = raws := by
    rw [hentry]
    apply List.splitOn_intercalate
    . intro raw hraw
      exact (hprintable.separator_not_mem hraws raw hraw).1
    . rintro rfl
      contradiction
  have hfields : HasFields entry d.printed := by
    unfold HasFields
    rw [hsplit]
    apply forall₂_imp_of_mem hraws
    intro raw field hfield hpads
    refine ⟨hpads, Text.isTrimmed_of_forall ?_⟩
    intro c hc
    exact (hprintable.isSymbol field hfield c hc).not_isBlank
  exact .intro hfields hprintable.name (Number.ofText?_toText hprintable.lower)
    (Number.ofText?_toText d.isNaN_step) (Number.ofText?_toText hprintable.upper)

theorem Prints.comma_not_mem (h : d.Prints entry) (hprintable : d.Printable) :
    ',' ∉ entry.toList := by
  obtain ⟨raws, hraws, hentry⟩ := h
  rw [hentry]
  intro hcomma
  rcases Text.mem_of_mem_intercalate hcomma with heq | ⟨raw, hraw, hcomma⟩
  . contradiction
  . exact (hprintable.separator_not_mem hraws raw hraw).2 hcomma

/-! Lists of entries. -/

def entries (spec : String) : List String :=
  (spec.toList.splitOn ',').map String.ofList

theorem parseSpec_eq (spec : String) : parseSpec spec = (entries spec).mapM parse := by
  unfold parseSpec entries
  rw [List.mapM_map]
  rfl

def Lists (ds : List Domain) (spec : String) : Prop :=
  ∃ entries, List.Forall₂ (fun entry d => Prints d entry) entries ds ∧
    spec = ",".intercalate entries

theorem entries_intercalate {texts : List String} (hne : texts ≠ [])
    (h : ∀ text ∈ texts, ',' ∉ text.toList) : entries (",".intercalate texts) = texts :=
  Text.map_splitOn_intercalate (by rfl) hne h

theorem parseSpec_of_lists {ds : List Domain} (hne : ds ≠ []) (hprintable : ∀ d ∈ ds, d.Printable)
    (h : Lists ds spec) : parseSpec spec = .ok ds := by
  obtain ⟨texts, htexts, rfl⟩ := h
  rw [parseSpec_eq, entries_intercalate, mapM_eq_ok_iff]
  . apply forall₂_imp_of_mem htexts
    intro text d hd hprints
    exact parse_of_declares (hprints.declares (hprintable d hd))
  . rintro rfl
    cases htexts
    contradiction
  . refine forall_mem_of_forall₂ htexts ?_
    intro text d hd hprints
    exact hprints.comma_not_mem (hprintable d hd)

/--
A text is accepted as the declarations of domains if and only if each of its entries declares one,
and otherwise the first entry that declares none says why. Printed domains are read back.
-/
theorem parseSpec_accepts_declarations (spec : String) :
    (∀ ds, parseSpec spec = .ok ds ↔ List.Forall₂ Declares (entries spec) ds) ∧
    (∀ e, parseSpec spec = .error e ↔ First Refuses (entries spec) e) ∧
    (∀ ds, ds ≠ [] → (∀ d ∈ ds, d.Printable) → Lists ds spec → parseSpec spec = .ok ds) := by
  refine ⟨?_, ?_, ?_⟩
  . intro ds
    rw [parseSpec_eq, mapM_eq_ok_iff]
    simp only [parse_eq_ok_iff]
  . intro e
    rw [parseSpec_eq, failsFirst_mapM parse (entries spec) e]
    apply first_congr
    intro entry _ e
    exact parse_eq_error_iff
  . intro ds hne hprintable h
    exact parseSpec_of_lists hne hprintable h

example : (parseSpec "x: -1 :0.5:inf,y:0:1").map (·.length) = .error (.invalidEntry "y:0:1") := by
  rfl

end Domain

end Sweep
