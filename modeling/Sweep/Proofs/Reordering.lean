import Sweep.Proofs.Averages
import Sweep.Proofs.Extremes
import Sweep.Proofs.Sizes

/-!
This module contains the order in which a request declares its variables and expressions. It makes
no difference to the least value, the greatest value and the number of tuples.
-/

namespace Sweep

variable {f : α → Except ε β} {xs ys : List α}

/-! Outcomes of lists in another order. -/

theorem corresponds_mapM_perm (f : α → Except ε β) (h : xs.Perm ys) :
    Corresponds List.Perm (xs.mapM f) (ys.mapM f) := by
  induction h with
  | nil => exact List.Perm.refl []
  | cons x h ih =>
    rw [List.mapM_cons, List.mapM_cons]
    apply (corresponds_refl (R := Eq) (fun _ => rfl) (f x)).bind
    rintro y _ - - rfl
    apply ih.bind
    intro zs zs' _ _ hperm
    exact hperm.cons y
  | swap x y zs =>
    simp only [List.mapM_cons]
    cases f x with
    | error e => cases f y <;> exact True.intro
    | ok a =>
      cases f y with
      | error e => exact True.intro
      | ok b =>
        cases zs.mapM f with
        | error e => exact True.intro
        | ok cs => exact List.Perm.swap a b cs
  | trans _ _ ih ih' => exact ih.trans ih' fun _ _ _ => List.Perm.trans

theorem corresponds_mapM {R : β → β → Prop} {g : α → Except ε β}
    (h : ∀ x ∈ xs, Corresponds R (f x) (g x)) :
    Corresponds (List.Forall₂ R) (xs.mapM f) (xs.mapM g) := by
  induction xs with
  | nil => exact List.Forall₂.nil
  | cons x xs ih =>
    rw [List.mapM_cons, List.mapM_cons]
    apply (h x List.mem_cons_self).bind
    intro y z _ _ hyz
    apply (ih fun x' hx' => h x' (List.mem_cons_of_mem x hx')).bind
    intro ys zs _ _ hyszs
    exact List.Forall₂.cons hyz hyszs

theorem lookup_perm {pairs pairs' : List (String × α)} (h : pairs.Perm pairs')
    (hnodup : (pairs.map Prod.fst).Nodup) (name : String) :
    pairs.lookup name = pairs'.lookup name := by
  induction h with
  | nil => rfl
  | cons p _ ih =>
    obtain ⟨n, x⟩ := p
    rw [List.lookup_cons, List.lookup_cons, ih (List.nodup_cons.mp hnodup).2]
  | swap p q pairs =>
    obtain ⟨n, x⟩ := p
    obtain ⟨m, y⟩ := q
    have hne : m ≠ n := by
      simp only [List.map_cons, List.nodup_cons, List.mem_cons, not_or] at hnodup
      exact hnodup.1.1
    simp only [List.lookup_cons]
    by_cases hn : name = n
    . simp [hn, beq_eq_false_iff_ne.mpr hne.symm]
    . simp [beq_eq_false_iff_ne.mpr hn]
  | trans h _ ih ih' =>
    rw [ih hnodup, ih' ((h.map Prod.fst).nodup_iff.mp hnodup)]

/-! Assignments of values to variables, whatever the order of the variables. -/

abbrev Valuation := String → Option Float

namespace Node

def valueUnder (valuation : Valuation) : Node → Except EvalError Float
  | const value => .ok value
  | var name =>
    match valuation name with
    | some value => .ok value
    | none => .error (.unknownVariable name)
  | node@(binary op left right) => do
    let leftValue ← left.valueUnder valuation
    let rightValue ← right.valueUnder valuation
    node.combine op leftValue rightValue

theorem valueAt_eq (assignment : Assignment) (t : Node) :
    t.valueAt assignment = t.valueUnder fun name => assignment.lookup name := by
  induction t with
  | const value => rfl
  | var name => rfl
  | binary op left right ihleft ihright =>
    unfold valueAt valueUnder
    simp only [ihleft, ihright, combine_eq_operate]

end Node

namespace Valuation

def extend (name : String) (value : Float) (v : Valuation) : Valuation :=
  fun other => if other == name then some value else v other

theorem extend_comm {n m : String} (h : n ≠ m) (x y : Float) (v : Valuation) :
    extend n x (extend m y v) = extend m y (extend n x v) := by
  funext name
  unfold extend
  by_cases hn : name = n
  . simp [hn, beq_eq_false_iff_ne.mpr h]
  . simp [hn]

def ofRow (names : List String) (row : List Float) : Valuation :=
  fun name => (names.zip row).lookup name

theorem ofRow_cons (n : String) (x : Float) (names : List String) (row : List Float) :
    ofRow (n :: names) (x :: row) = extend n x (ofRow names row) := by
  funext name
  unfold ofRow extend
  rw [List.zip_cons_cons, List.lookup_cons]
  split <;> simp_all

end Valuation

namespace TupleMode

variable {pairs pairs' : List (String × List Float)}

theorem map_ofRow_product (n : String) (xs : List Float) (names : List String)
    (columns : List (List Float)) :
    (product (xs :: columns)).map (Valuation.ofRow (n :: names))
      =
    xs.flatMap fun x =>
      ((product columns).map (Valuation.ofRow names)).map (Valuation.extend n x) := by
  have hcons : ∀ x, Valuation.ofRow (n :: names) ∘ (x :: ·)
      = Valuation.extend n x ∘ Valuation.ofRow names := by
    intro x
    funext row
    exact Valuation.ofRow_cons n x names row
  simp only [product, List.map_flatMap, List.map_map, hcons]

theorem flatMap_comm_perm (xs : List α) (ys : List β) (f : α → β → List γ) :
    (xs.flatMap fun x => ys.flatMap (f x)).Perm (ys.flatMap fun y => xs.flatMap (f · y)) := by
  induction xs with
  | nil => simp
  | cons x xs ih =>
    simp only [List.flatMap_cons]
    exact (ih.append_left _).trans (List.flatMap_append_perm ys (f x) _)

theorem product_perm (h : pairs.Perm pairs') (hnodup : (pairs.map Prod.fst).Nodup) :
    ((product (pairs.map Prod.snd)).map (Valuation.ofRow (pairs.map Prod.fst))).Perm
      ((product (pairs'.map Prod.snd)).map (Valuation.ofRow (pairs'.map Prod.fst))) := by
  induction h with
  | nil => exact List.Perm.refl _
  | cons p _ ih =>
    simp only [List.map_cons, map_ofRow_product]
    apply List.Perm.flatMap_left
    intro x _
    exact (ih (List.nodup_cons.mp hnodup).2).map _
  | swap p q pairs =>
    have hne : q.1 ≠ p.1 := by
      simp only [List.map_cons, List.nodup_cons, List.mem_cons, not_or] at hnodup
      exact hnodup.1.1
    have hcomm : ∀ x y, Valuation.extend q.1 y ∘ Valuation.extend p.1 x
        = Valuation.extend p.1 x ∘ Valuation.extend q.1 y := by
      intro x y
      funext v
      exact Valuation.extend_comm hne y x v
    simp only [List.map_cons, map_ofRow_product]
    generalize (product (pairs.map Prod.snd)).map (Valuation.ofRow (pairs.map Prod.fst)) = vs
    -- either variable may be the one that changes faster
    simp only [List.map_flatMap, List.map_map, hcomm]
    apply flatMap_comm_perm
  | trans h _ ih ih' =>
    exact (ih hnodup).trans (ih' ((h.map Prod.fst).nodup_iff.mp hnodup))

theorem ofRow_filterMap {i : Nat} (h : ∀ p ∈ pairs, i < p.2.length) :
    Valuation.ofRow (pairs.map Prod.fst) ((pairs.map Prod.snd).filterMap (·[i]?))
      =
    fun name => (pairs.lookup name).bind (·[i]?) := by
  funext name
  induction pairs with
  | nil => rfl
  | cons p pairs ih =>
    obtain ⟨n, xs⟩ := p
    have hlt : i < xs.length := h (n, xs) List.mem_cons_self
    have hget : xs[i]? = some xs[i] := List.getElem?_eq_getElem hlt
    have hrest := ih fun p hp => h p (List.mem_cons_of_mem _ hp)
    simp only [List.map_cons, List.filterMap_cons, hget, Valuation.ofRow_cons, List.lookup_cons]
    unfold Valuation.extend
    rw [hrest]
    by_cases hname : name = n
    . simp [hname, hget]
    . simp [beq_eq_false_iff_ne.mpr hname]

theorem zipped_perm {length : Nat} (h : pairs.Perm pairs') (hnodup : (pairs.map Prod.fst).Nodup)
    (hlengths : ∀ p ∈ pairs, p.2.length = length) :
    (zipped length (pairs.map Prod.snd)).map (Valuation.ofRow (pairs.map Prod.fst))
      =
    (zipped length (pairs'.map Prod.snd)).map (Valuation.ofRow (pairs'.map Prod.fst)) := by
  unfold zipped
  rw [List.map_map, List.map_map]
  apply List.map_congr_left
  intro i hi
  rw [List.mem_range] at hi
  have hpairs : ∀ p ∈ pairs, i < p.2.length := by
    intro p hp
    rwa [hlengths p hp]
  have hpairs' : ∀ p ∈ pairs', i < p.2.length := by
    intro p hp
    exact hpairs p (h.mem_iff.mpr hp)
  show Valuation.ofRow _ _ = Valuation.ofRow _ _
  rw [ofRow_filterMap hpairs, ofRow_filterMap hpairs']
  funext name
  rw [lookup_perm h hnodup]

theorem rows_list_perm (h : pairs.Perm pairs') (hnodup : (pairs.map Prod.fst).Nodup)
    (hequal : ∀ xs ∈ pairs.map Prod.snd, ∀ ys ∈ pairs.map Prod.snd, xs.length = ys.length) :
    (rows list (pairs.map Prod.snd)).map (Valuation.ofRow (pairs.map Prod.fst))
      =
    (rows list (pairs'.map Prod.snd)).map (Valuation.ofRow (pairs'.map Prod.fst)) := by
  cases pairs with
  | nil =>
    obtain rfl := h.nil_eq
    rfl
  | cons p pairs =>
    have hlengths : ∀ q ∈ p :: pairs, q.2.length = p.2.length := by
      intro q hq
      exact hequal q.2 (List.mem_map_of_mem hq) p.2 List.mem_cons_self
    have hhead : ((pairs'.map Prod.snd).head?.map List.length).getD 0 = p.2.length := by
      cases pairs' with
      | nil => simp at h
      | cons q pairs' => exact hlengths q (h.mem_iff.mpr List.mem_cons_self)
    unfold rows
    dsimp only
    rw [hhead]
    exact zipped_perm h hnodup hlengths

theorem corresponds_table (mode : TupleMode) (h : pairs.Perm pairs')
    (hnodup : (pairs.map Prod.fst).Nodup) :
    Corresponds (fun rows rows' => (rows.map (Valuation.ofRow (pairs.map Prod.fst))).Perm
        (rows'.map (Valuation.ofRow (pairs'.map Prod.fst))))
      (mode.table (pairs.map Prod.snd)) (mode.table (pairs'.map Prod.snd)) := by
  cases mode with
  | grid =>
    have hperm := product_perm h hnodup
    have hlength : (rows grid (pairs.map Prod.snd)).length
        = (rows grid (pairs'.map Prod.snd)).length := by
      have hlength := hperm.length_eq
      rwa [List.length_map, List.length_map] at hlength
    unfold table
    dsimp only
    rw [hlength]
    split
    . exact hperm
    . exact True.intro
  | list =>
    have hiff : (∀ xs ∈ pairs.map Prod.snd, ∀ ys ∈ pairs.map Prod.snd, xs.length = ys.length) ↔
        ∀ xs ∈ pairs'.map Prod.snd, ∀ ys ∈ pairs'.map Prod.snd, xs.length = ys.length := by
      simp only [(h.map Prod.snd).mem_iff]
    unfold table
    dsimp only
    by_cases hequal : ∀ xs ∈ pairs.map Prod.snd, ∀ ys ∈ pairs.map Prod.snd, xs.length = ys.length
    . rw [if_pos hequal, if_pos (hiff.mp hequal)]
      exact List.Perm.of_eq (rows_list_perm h hnodup hequal)
    . rw [if_neg hequal, if_neg (mt hiff.mpr hequal)]
      exact True.intro

end TupleMode

theorem Domain.unzip_sequences {ds : List Domain} {columns : List (List Float)}
    (h : ds.mapM Domain.sequence = .ok columns) :
    ((ds.map Domain.name).zip columns).map Prod.fst = ds.map Domain.name ∧
      ((ds.map Domain.name).zip columns).map Prod.snd = columns := by
  have hlength := length_of_mapM h
  constructor
  . apply List.map_fst_zip
    simp [hlength]
  . apply List.map_snd_zip
    simp [hlength]

theorem Domain.corresponds_sequences {ds ds' : List Domain} (h : ds.Perm ds') :
    Corresponds (fun columns columns' =>
        ((ds.map Domain.name).zip columns).Perm ((ds'.map Domain.name).zip columns'))
      (ds.mapM Domain.sequence) (ds'.mapM Domain.sequence) := by
  have hlabelled : ∀ ds : List Domain,
      ds.mapM (fun d => d.sequence.map (d.name, ·))
        = (ds.mapM Domain.sequence).map ((ds.map Domain.name).zip ·) := by
    intro ds
    induction ds with
    | nil => rfl
    | cons d ds ih =>
      rw [List.mapM_cons, List.mapM_cons, ih]
      cases d.sequence with
      | error e => rfl
      | ok xs => cases ds.mapM Domain.sequence <;> rfl
  rw [← corresponds_map, ← hlabelled, ← hlabelled]
  exact corresponds_mapM_perm _ h

namespace Naive

variable {expressions expressions' : List Expression} {assignments assignments' : List Assignment}

def valuations (assignments : List Assignment) : List Valuation :=
  assignments.map fun assignment name => assignment.lookup name

theorem mapM_valuesAt (blame : Expression → EvalError → AggregateError)
    (expressions : List Expression) (assignments : List Assignment) :
    assignments.mapM (results.valuesAt blame expressions)
      =
    (valuations assignments).mapM fun valuation =>
      expressions.mapM fun e => (e.root.valueUnder valuation).mapError (blame e) := by
  unfold valuations results.valuesAt
  rw [List.mapM_map]
  simp only [Node.valueAt_eq]
  rfl

theorem corresponds_results (blame : Expression → EvalError → AggregateError)
    (hexpressions : expressions.Perm expressions')
    (hvaluations : (valuations assignments).Perm (valuations assignments')) :
    Corresponds List.Perm (results blame expressions assignments)
      (results blame expressions' assignments') := by
  unfold results
  rw [mapM_valuesAt, mapM_valuesAt, corresponds_map]
  -- first the assignments change their places, then the expressions do within each assignment
  have hrows : ∀ v ∈ valuations assignments',
      Corresponds List.Perm
        (expressions.mapM fun e => (e.root.valueUnder v).mapError (blame e))
        (expressions'.mapM fun e => (e.root.valueUnder v).mapError (blame e)) := by
    intro v _
    exact corresponds_mapM_perm _ hexpressions
  apply (corresponds_mapM_perm _ hvaluations).trans (corresponds_mapM hrows)
  intro xss yss zss hperm hforall
  exact hperm.flatten.trans (List.Perm.flatten_congr hforall)

theorem corresponds_extremum (hnumeric : Numeric expressions assignments)
    (hexpressions : expressions.Perm expressions')
    (hvaluations : (valuations assignments).Perm (valuations assignments'))
    {select : Float → Float → Float} {before : Float → Float → Prop} {first : Float}
    (hselect : Aggregate.Prefers select before) (hfirst : first.isNaN = false) :
    Corresponds (fun v v' => (v == v') = true)
      ((results (.evaluation ·.source) expressions assignments).map (·.foldl select first))
      ((results (.evaluation ·.source) expressions' assignments').map
        (·.foldl select first)) := by
  rw [corresponds_map]
  apply (corresponds_results _ hexpressions hvaluations).imp
  intro values values' hvalues _ hperm
  apply hselect.foldl_perm hperm _ hfirst
  exact not_isNaN_of_results hnumeric.derives hnumeric.numbers hvalues

theorem corresponds_aggregate {kind : AggregationKind} (hkind : kind ≠ .avg)
    (hnumeric : Numeric expressions assignments)
    (hexpressions : expressions.Perm expressions')
    (hvaluations : (valuations assignments).Perm (valuations assignments')) :
    Corresponds (fun v v' => (v == v') = true) (aggregate kind expressions assignments)
      (aggregate kind expressions' assignments') := by
  have hlength : assignments.length = assignments'.length := by
    have hlength := hvaluations.length_eq
    unfold valuations at hlength
    rwa [List.length_map, List.length_map] at hlength
  have hempty : assignments.isEmpty = assignments'.isEmpty := by
    rw [Bool.eq_iff_iff, List.isEmpty_iff_length_eq_zero, List.isEmpty_iff_length_eq_zero, hlength]
  unfold aggregate
  dsimp only
  rw [hempty, hlength]
  cases kind with
  | avg => contradiction
  | count =>
    have hnan := Number.isNaN_toFloat assignments'.length.toUInt64
    exact (Number.beq_iff_rank hnan hnan).mpr rfl
  | min =>
    dsimp only
    split
    . exact True.intro
    . exact corresponds_extremum hnumeric hexpressions hvaluations Aggregate.prefers_lesser rfl
  | max =>
    dsimp only
    split
    . exact True.intro
    . exact corresponds_extremum hnumeric hexpressions hvaluations Aggregate.prefers_greater rfl

end Naive

theorem Naive.corresponds_run {c c' : Computation} (hkind : c'.kind = c.kind)
    (hmode : c'.mode = c.mode) (havg : c.kind ≠ .avg)
    (hspec : (c.spec.toList.splitOn ',').Perm (c'.spec.toList.splitOn ','))
    (hexpressions : c.expressions.Perm c'.expressions) (limit : Nat) :
    Corresponds (fun v v' => (v == v') = true) (Naive.run c limit) (Naive.run c' limit) := by
  unfold Naive.run
  have hparse := corresponds_mapM_perm (fun entry => Domain.parse (String.ofList entry)) hspec
  apply (corresponds_mapError.mpr hparse).bind
  intro ds ds' _ _ hds
  apply (corresponds_mapError.mpr (corresponds_of_iff (Columns.checkSizes_perm hds))).bind
  intro _ _ hsizes _ _
  have hnodup := (Columns.checkSizes_nil_eq_ok_iff.mp (mapError_eq_ok hsizes)).1
  apply (corresponds_mapError.mpr (Domain.corresponds_sequences hds)).bind
  intro columns columns' hcolumns hcolumns' hpairs
  obtain ⟨hnames, hvalues⟩ := Domain.unzip_sequences (mapError_eq_ok hcolumns)
  obtain ⟨hnames', hvalues'⟩ := Domain.unzip_sequences (mapError_eq_ok hcolumns')
  have htable := TupleMode.corresponds_table c.mode hpairs (by rwa [hnames])
  rw [hnames, hnames', hvalues, hvalues'] at htable
  rw [hmode, hkind]
  apply (corresponds_mapError.mpr htable).bind
  intro rows rows' hrows _ hvaluations
  apply (corresponds_mapM_perm _ hexpressions).bind
  intro expressions expressions' hparsed _ hperm
  apply corresponds_mapError.mpr
  have hnumeric := numeric_of_parse (mapError_eq_ok hcolumns) (mapError_eq_ok hrows) hparsed
  apply corresponds_aggregate havg hnumeric hperm
  unfold valuations
  rw [List.map_map, List.map_map]
  exact hvaluations

/--
A request for the least value, the greatest value or the number of tuples has the same result in
whatever order it declares its variables and expressions. Only the error may be another one.
-/
theorem Computation.run_reordered {c c' : Computation} (hkind : c'.kind = c.kind)
    (hmode : c'.mode = c.mode) (havg : c.kind ≠ .avg)
    (hspec : (c.spec.toList.splitOn ',').Perm (c'.spec.toList.splitOn ','))
    (hexpressions : c.expressions.Perm c'.expressions) (limit : Nat) :
    ((∃ value, c.run limit .never = .ok value) ↔ ∃ value, c'.run limit .never = .ok value) ∧
    ∀ value value', c.run limit .never = .ok value → c'.run limit .never = .ok value' →
      (value == value') = true := by
  by_cases hanswerable : c.kind = .count ∨ c.expressions ≠ []
  . have hanswerable' : c'.kind = .count ∨ c'.expressions ≠ [] := by
      rw [hkind]
      apply hanswerable.imp_right
      intro hne hnil
      rw [hnil] at hexpressions
      exact hne hexpressions.eq_nil
    rw [run_never_eq hanswerable, run_never_eq hanswerable']
    have hruns := Naive.corresponds_run hkind hmode havg hspec hexpressions limit
    refine ⟨hruns.isOk_iff, ?_⟩
    intro value value' hvalue hvalue'
    rw [hvalue, hvalue'] at hruns
    exact hruns
  . -- without an expression there is no result, whatever the order is
    rw [not_or, not_not] at hanswerable
    obtain ⟨hcount, hnil⟩ := hanswerable
    have hnone := run_ne_ok_of_nil hcount hnil limit .never
    have hnone' : ∀ value, c'.run limit .never ≠ .ok value := by
      rw [hnil] at hexpressions
      exact run_ne_ok_of_nil (hkind ▸ hcount) hexpressions.nil_eq.symm limit .never
    refine ⟨?_, fun value _ hvalue => absurd hvalue (hnone value)⟩
    constructor
    . rintro ⟨value, hvalue⟩
      exact absurd hvalue (hnone value)
    . rintro ⟨value, hvalue⟩
      exact absurd hvalue (hnone' value)

theorem Computation.run_reordered_min_grid :
    let c : Computation :=
      { kind := .min, mode := .grid, spec := "x:0:1:2,y:1:2:5", expressions := ["(x/y)", "(y-x)"] }
    let c' : Computation :=
      { kind := .min, mode := .grid, spec := "y:1:2:5,x:0:1:2", expressions := ["(y-x)", "(x/y)"] }
    (c.spec.toList.splitOn ',').Perm (c'.spec.toList.splitOn ',') ∧
      c.expressions.Perm c'.expressions ∧
      ∃ value, c.run 10 .never = .ok value ∧
        ∃ value', c'.run 10 .never = .ok value' ∧ (value == value') = true := by
  intro c c'
  have hspec : (c.spec.toList.splitOn ',').Perm (c'.spec.toList.splitOn ',') := by
    decide
  have hexpressions : c.expressions.Perm c'.expressions := by
    decide
  have hok : (c.run 10 .never).toOption.any (fun _ => true) = true := by
    decide +kernel
  obtain ⟨value, hrun, -⟩ := exists_of_any_toOption hok
  have hkind : c.kind ≠ .avg := by
    decide
  obtain ⟨hiff, hvalues⟩ := @run_reordered c c' rfl rfl hkind hspec hexpressions 10
  obtain ⟨value', hrun'⟩ := hiff.mp ⟨value, hrun⟩
  exact ⟨hspec, hexpressions, value, hrun, value', hrun', hvalues value value' hrun hrun'⟩

end Sweep
