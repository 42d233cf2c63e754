import Sweep.Proofs.Declarations
import Sweep.Proofs.Evaluation
import Sweep.Proofs.Generation
import Sweep.Proofs.Unranking

/-!
This module contains the way from the names of domains to the values that they stand for: a name is
looked up in the slot of its own domain, in which every tuple has a value of that domain, and an
expression looks at no other slots than those of its names.
-/

namespace Sweep

open Grammar (Identifier)

theorem findIdx?_eq_some_iff_of_nodup [DecidableEq α] {xs : List α} (h : xs.Nodup) {x : α}
    {i : Nat} : xs.findIdx? (· == x) = some i ↔ xs[i]? = some x := by
  rw [List.findIdx?_eq_some_iff_getElem, List.getElem?_eq_some_iff]
  constructor
  . rintro ⟨hi, hx, -⟩
    exact ⟨hi, eq_of_beq hx⟩
  . rintro ⟨hi, rfl⟩
    refine ⟨hi, BEq.rfl, ?_⟩
    intro j hj hequal
    have := h.getElem_inj_iff.mp (eq_of_beq hequal)
    omega

/-! Evaluation by names. -/

namespace Node

variable {lookup : Lookup} {tuple tuple' : List Float} {node : Node} {name : String} {value : Float}

theorem combine_ne_unknownVariable (node : Node) (op : Operator) (a b : Float) (name : String) :
    node.combine op a b ≠ .error (.unknownVariable name) := by
  unfold combine
  split
  . simp
  . split
    . split <;> simp
    . dsimp only
      split <;> simp

theorem mem_names_of_unknownVariable
    (h : node.evaluate lookup tuple = .error (.unknownVariable name)) :
    name ∈ node.names ∧ (lookup name).bind (tuple[·]?) = none := by
  induction node with
  | const value => contradiction
  | var name' =>
    unfold evaluate at h
    split at h
    . contradiction
    . next hnone =>
      cases h
      exact ⟨List.mem_singleton_self _, hnone⟩
  | binary op left right ihleft ihright =>
    rw [evaluate_binary] at h
    unfold names
    rw [List.mem_append]
    cases hleft : left.evaluate lookup tuple with
    | error e =>
      rw [hleft, bind_error] at h
      cases h
      exact ⟨.inl (ihleft hleft).1, (ihleft hleft).2⟩
    | ok a =>
      rw [hleft, bind_ok] at h
      cases hright : right.evaluate lookup tuple with
      | error e =>
        rw [hright, bind_error] at h
        cases h
        exact ⟨.inr (ihright hright).1, (ihright hright).2⟩
      | ok b =>
        rw [hright, bind_ok] at h
        exact absurd h (combine_ne_unknownVariable _ op a b name)

theorem exists_value_of_evaluate (h : node.evaluate lookup tuple = .ok value) :
    ∀ name ∈ node.names, ∃ x, (lookup name).bind (tuple[·]?) = some x := by
  induction node generalizing value with
  | const value => exact nofun
  | var name' =>
    unfold names evaluate at *
    simp only [List.mem_singleton, forall_eq]
    split at h
    . next x hx => exact ⟨x, hx⟩
    . contradiction
  | binary op left right ihleft ihright =>
    rw [evaluate_binary] at h
    obtain ⟨a, ha, h⟩ := bind_eq_ok h
    obtain ⟨b, hb, -⟩ := bind_eq_ok h
    intro name hname
    rcases List.mem_append.mp hname with hname | hname
    . exact ihleft ha name hname
    . exact ihright hb name hname

theorem evaluate_congr
    (h : ∀ name ∈ node.names, (lookup name).bind (tuple[·]?) = (lookup name).bind (tuple'[·]?)) :
    node.evaluate lookup tuple = node.evaluate lookup tuple' := by
  induction node with
  | const value => rfl
  | var name =>
    unfold evaluate
    rw [h name (List.mem_singleton_self name)]
  | binary op left right ihleft ihright =>
    rw [evaluate_binary, evaluate_binary,
      ihleft fun name hname => h name (List.mem_append_left _ hname),
      ihright fun name hname => h name (List.mem_append_right _ hname)]

end Node

/-! Names of domains. -/

theorem Domain.identifier_of_parseSpec {spec : String} {ds : List Domain}
    (h : parseSpec spec = .ok ds) : ∀ d ∈ ds, Identifier d.name.toList d.name := by
  intro d hd
  rw [parseSpec_eq] at h
  obtain ⟨entry, -, hentry⟩ := exists_of_mem_mapM h hd
  cases parse_eq_ok_iff.mp hentry with
  | intro _ hname _ _ _ => exact hname

theorem Expression.parse_of_identifier {name : String} (h : Identifier name.toList name) :
    parse name = .ok { root := .var name, source := name } := by
  have hderives := Grammar.Derives.identifier h
  apply parse_of_derives
  . rw [Text.strip_eq_self (Grammar.not_isBlank_of_derives hderives)]
    exact hderives
  . exact Nat.zero_le _

namespace Tuples

theorem exists_isRow_of_mem_yielded {cs : Columns} {mode : TupleMode} {t : Tuples}
    (h : ofColumns cs mode = .ok t) {flags : List CancelFlag} {tuple : List Float}
    (htuple : tuple ∈ t.yielded flags) : ∃ row, mode.IsRow cs.values row tuple := by
  obtain ⟨rows, htable⟩ : ∃ rows, mode.table cs.values = .ok rows := by
    rw [ofColumns_eq] at h
    obtain ⟨rows, htable, -⟩ := map_eq_ok h
    exact ⟨rows, htable⟩
  rw [((at_zero htable h).calls flags).2, List.drop_zero] at htuple
  obtain ⟨row, hrow, rfl⟩ := List.getElem_of_mem (List.mem_of_mem_take htuple)
  exact ⟨row, TupleMode.isRow_table htable row hrow⟩

end Tuples

namespace Columns

variable {ds : List Domain} {limit : Nat} {flag flag' : CancelFlag} {cs : Columns} {i : Nat}
  {name : String} {mode : TupleMode} {t : Tuples} {tuple : List Float}

theorem slot?_eq_findIdx? (cs : Columns) (name : String) :
    cs.slot? name = (cs.toList.map Column.name).findIdx? (· == name) := by
  rw [List.findIdx?_map]
  rfl

theorem slot?_of_build (h : build ds limit flag = .ok (cs, flag')) :
    cs.slot? name = some i ↔ ∃ d, ds[i]? = some d ∧ d.name = name := by
  obtain ⟨hsizes, -, hnames⟩ := columns_of_build h
  have hnodup := (checkSizes_nil_eq_ok_iff.mp hsizes).1
  rw [slot?_eq_findIdx?, hnames, findIdx?_eq_some_iff_of_nodup hnodup, List.getElem?_map,
    Option.map_eq_some_iff]

structure IsTuple (limit : Nat) (ds : List Domain) (tuple : List Float) : Prop where
  length : tuple.length = ds.length
  slot : ∀ (i : Nat) d, ds[i]? = some d →
    ∃ values value, d.values limit .never = .ok (values, .never) ∧ tuple[i]? = some value ∧
      value ∈ values

theorem isTuple_of_mem_yielded (h : build ds limit flag = .ok (cs, flag'))
    (ht : Tuples.ofColumns cs mode = .ok t) {flags : List CancelFlag}
    (htuple : tuple ∈ t.yielded flags) : IsTuple limit ds tuple := by
  obtain ⟨hsizes, hvalues, -⟩ := columns_of_build h
  obtain ⟨row, hrow⟩ := Tuples.exists_isRow_of_mem_yielded ht htuple
  constructor
  . rw [hrow.length, length_of_mapM hvalues]
  . intro i d hd
    obtain ⟨values, hcolumn, hsequence⟩ := getElem?_of_mapM hvalues hd
    obtain ⟨hplace, hslot⟩ := hrow.slot i values hcolumn
    have hlimit := le_limit_of_checkSizes hsizes d (List.mem_of_getElem? hd)
    refine ⟨values, _, ?_, hslot, List.getElem_mem hplace⟩
    rw [Domain.values_never_eq hlimit, hsequence]
    rfl

theorem evaluate_var (h : build ds limit flag = .ok (cs, flag')) {d : Domain}
    (hd : ds[i]? = some d) {value : Float} (hvalue : tuple[i]? = some value) :
    (Node.var d.name).evaluate cs.slot? tuple = .ok value := by
  have hslot := (slot?_of_build h).mpr ⟨d, hd, rfl⟩
  unfold Node.evaluate
  rw [hslot, Option.bind_some, hvalue]

theorem not_mem_of_unknownVariable (h : build ds limit flag = .ok (cs, flag'))
    (htuple : tuple.length = ds.length) {node : Node}
    (herror : node.evaluate cs.slot? tuple = .error (.unknownVariable name)) :
    name ∈ node.names ∧ name ∉ ds.map Domain.name := by
  obtain ⟨hname, hnone⟩ := Node.mem_names_of_unknownVariable herror
  refine ⟨hname, ?_⟩
  intro hdeclared
  obtain ⟨d, hd, rfl⟩ := List.mem_map.mp hdeclared
  obtain ⟨i, hi, rfl⟩ := List.getElem_of_mem hd
  have hslot := (slot?_of_build h).mpr ⟨ds[i], List.getElem?_eq_getElem hi, rfl⟩
  rw [hslot, Option.bind_some, List.getElem?_eq_none_iff] at hnone
  omega

theorem mem_of_evaluate (h : build ds limit flag = .ok (cs, flag')) {node : Node} {value : Float}
    (hvalue : node.evaluate cs.slot? tuple = .ok value) :
    ∀ name ∈ node.names, name ∈ ds.map Domain.name := by
  intro name hname
  obtain ⟨x, hx⟩ := Node.exists_value_of_evaluate hvalue name hname
  obtain ⟨i, hslot, -⟩ := Option.bind_eq_some_iff.mp hx
  obtain ⟨d, hd, rfl⟩ := (slot?_of_build h).mp hslot
  exact List.mem_map_of_mem (List.mem_of_getElem? hd)

theorem evaluate_congr {node : Node} {tuple' : List Float}
    (h : ∀ name ∈ node.names, ∀ i, cs.slot? name = some i → tuple[i]? = tuple'[i]?) :
    node.evaluate cs.slot? tuple = node.evaluate cs.slot? tuple' := by
  apply Node.evaluate_congr
  intro name hname
  cases hslot : cs.slot? name with
  | none => rfl
  | some i => exact h name hname i hslot

/--
A name is looked up in the slot of its own domain, and as an expression it is that variable. In every
tuple the slot has a value of the domain. An expression never misses a declared name, has no value
with an undeclared one in it, and depends on no slots but those of its names.
-/
theorem names_bind_to_columns {spec : String} (hparse : Domain.parseSpec spec = .ok ds)
    (hbuild : build ds limit flag = .ok (cs, flag')) :
    (∀ name i, cs.slot? name = some i ↔ ∃ d, ds[i]? = some d ∧ d.name = name) ∧
    (∀ d ∈ ds, Expression.parse d.name = .ok { root := .var d.name, source := d.name }) ∧
    -- the tuples of a cursor
    (∀ mode t flags tuple, Tuples.ofColumns cs mode = .ok t → tuple ∈ t.yielded flags →
      IsTuple limit ds tuple ∧
      (∀ (i : Nat) d value, ds[i]? = some d → tuple[i]? = some value →
        (Node.var d.name).evaluate cs.slot? tuple = .ok value) ∧
      (∀ (e : Expression) name, e.root.evaluate cs.slot? tuple = .error (.unknownVariable name) →
        name ∈ e.root.names ∧ name ∉ ds.map Domain.name)) ∧
    -- any numbers at all
    (∀ (e : Expression) tuple value name, name ∈ e.root.names → name ∉ ds.map Domain.name →
      e.root.evaluate cs.slot? tuple ≠ .ok value) ∧
    (∀ (e : Expression) (tuple tuple' : List Float),
      (∀ name ∈ e.root.names, ∀ i, cs.slot? name = some i → tuple[i]? = tuple'[i]?) →
      e.root.evaluate cs.slot? tuple = e.root.evaluate cs.slot? tuple') := by
  refine ⟨?_, ?_, ?_, ?_, ?_⟩
  . intro name i
    exact slot?_of_build hbuild
  . intro d hd
    exact Expression.parse_of_identifier (Domain.identifier_of_parseSpec hparse d hd)
  . intro mode t flags tuple ht htuple
    have hslots := isTuple_of_mem_yielded hbuild ht htuple
    refine ⟨hslots, ?_, ?_⟩
    . intro i d value hd hvalue
      exact evaluate_var hbuild hd hvalue
    . intro e name herror
      exact not_mem_of_unknownVariable hbuild hslots.length herror
  . intro e tuple value name hname hundeclared hvalue
    exact hundeclared (mem_of_evaluate hbuild hvalue name hname)
  . intro e tuple tuple' h
    exact evaluate_congr h

theorem names_bind_to_columns_grid :
    ∃ ds cs flag t tuple, Domain.parseSpec "y:5:1:5, x :0:1:2" = .ok ds ∧
      build ds 6 .never = .ok (cs, flag) ∧ Tuples.ofColumns cs .grid = .ok t ∧
      tuple ∈ t.yielded [.never, .after 0, .never] ∧
      cs.slot? "x" = some 1 ∧ IsTuple 6 ds tuple := by
  have hall : ((Domain.parseSpec "y:5:1:5, x :0:1:2").toOption.any fun ds =>
      ds.map Domain.name == ["y", "x"] && (build ds 6 .never).toOption.any fun built =>
        (Tuples.ofColumns built.1 .grid).toOption.any fun t =>
          (t.yielded [.never, .after 0, .never]).length == 2) = true := by
    decide +kernel
  obtain ⟨ds, hparse, hall⟩ := exists_of_any_toOption hall
  obtain ⟨hnames, hall⟩ := Bool.and_eq_true_iff.mp hall
  obtain ⟨⟨cs, flag⟩, hbuild, hall⟩ := exists_of_any_toOption hall
  obtain ⟨t, ht, hlength⟩ := exists_of_any_toOption hall
  have hne : t.yielded [.never, .after 0, .never] ≠ [] := by
    intro hnil
    rw [hnil] at hlength
    contradiction
  obtain ⟨tuple, htuple⟩ := List.exists_mem_of_ne_nil _ hne
  obtain ⟨hslot, -, htuples, -⟩ := names_bind_to_columns hparse hbuild
  have hsecond : (ds.map Domain.name)[1]? = some "x" := by
    rw [eq_of_beq hnames]
    rfl
  rw [List.getElem?_map, Option.map_eq_some_iff] at hsecond
  exact ⟨ds, cs, flag, t, tuple, hparse, hbuild, ht, htuple, (hslot "x" 1).mpr hsecond,
    (htuples .grid t _ tuple ht htuple).1⟩

end Columns

end Sweep
