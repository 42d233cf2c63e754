/-!
This module contains the rules for outcomes that are put together from other outcomes.
-/

namespace Sweep

variable {x : Except ε α} {e : ε}

@[simp]
theorem bind_ok (a : α) (f : α → Except ε β) : Except.ok a >>= f = f a := by
  rfl

@[simp]
theorem bind_error (e : ε) (f : α → Except ε β) : Except.error e >>= f = .error e := by
  rfl

@[simp]
theorem map_ok (a : α) (f : α → β) : (Except.ok a : Except ε α).map f = .ok (f a) := by
  rfl

@[simp]
theorem map_error (e : ε) (f : α → β) : (Except.error e).map f = .error e := by
  rfl

@[simp]
theorem mapError_ok (a : α) (f : ε → ε') : (Except.ok a).mapError f = .ok a := by
  rfl

@[simp]
theorem mapError_error (e : ε) (f : ε → ε') :
    (Except.error e : Except ε α).mapError f = .error (f e) := by
  rfl

/-! Outcomes that are there because those they are put together from are. -/

theorem bind_eq_ok {f : α → Except ε β} {b : β} (h : (x >>= f) = .ok b) :
    ∃ a, x = .ok a ∧ f a = .ok b := by
  cases x with
  | error e => contradiction
  | ok a => exact ⟨a, rfl, h⟩

theorem map_eq_ok {f : α → β} {b : β} (h : x.map f = .ok b) : ∃ a, x = .ok a ∧ f a = b := by
  cases x with
  | error e => contradiction
  | ok a =>
    cases h
    exact ⟨a, rfl, rfl⟩

theorem isOk_map_iff {f : α → β} : (∃ b, x.map f = .ok b) ↔ ∃ a, x = .ok a := by
  cases x <;> simp

theorem mapError_eq_ok {f : ε → ε'} {a : α} (h : x.mapError f = .ok a) : x = .ok a := by
  cases x with
  | error e => contradiction
  | ok b =>
    cases h
    rfl

theorem exists_of_any_toOption {p : α → Bool} (h : x.toOption.any p = true) :
    ∃ a, x = .ok a ∧ p a = true := by
  cases x with
  | error e => contradiction
  | ok a => exact ⟨a, rfl, h⟩

theorem eq_ok_of_any_toOption [DecidableEq α] {a : α} (h : x.toOption.any (· = a) = true) :
    x = .ok a := by
  obtain ⟨a', hx, heq⟩ := exists_of_any_toOption h
  rw [hx, of_decide_eq_true heq]

theorem mapM_cons_eq_ok {f : α → Except ε β} {x : α} {xs : List α} {ys : List β}
    (h : (x :: xs).mapM f = .ok ys) :
    ∃ y zs, f x = .ok y ∧ xs.mapM f = .ok zs ∧ ys = y :: zs := by
  rw [List.mapM_cons] at h
  obtain ⟨y, hy, h⟩ := bind_eq_ok h
  obtain ⟨zs, hzs, h⟩ := bind_eq_ok h
  cases h
  exact ⟨y, zs, hy, hzs, rfl⟩

theorem length_of_mapM {f : α → Except ε β} {xs : List α} {ys : List β} (h : xs.mapM f = .ok ys) :
    ys.length = xs.length := by
  induction xs generalizing ys with
  | nil =>
    cases h
    rfl
  | cons x xs ih =>
    obtain ⟨y, zs, -, hzs, rfl⟩ := mapM_cons_eq_ok h
    rw [List.length_cons, List.length_cons, ih hzs]

theorem exists_of_mem_mapM {f : α → Except ε β} {xs : List α} {ys : List β}
    (h : xs.mapM f = .ok ys) {y : β} (hy : y ∈ ys) : ∃ x ∈ xs, f x = .ok y := by
  induction xs generalizing ys with
  | nil =>
    cases h
    contradiction
  | cons x xs ih =>
    obtain ⟨z, zs, hz, hzs, rfl⟩ := mapM_cons_eq_ok h
    rcases List.mem_cons.mp hy with rfl | hy
    . exact ⟨x, List.mem_cons_self, hz⟩
    . obtain ⟨x', hx', hfx'⟩ := ih hzs hy
      exact ⟨x', List.mem_cons_of_mem x hx', hfx'⟩

theorem exists_mem_of_mapM {f : α → Except ε β} {xs : List α} {ys : List β}
    (h : xs.mapM f = .ok ys) {x : α} (hx : x ∈ xs) : ∃ y ∈ ys, f x = .ok y := by
  induction xs generalizing ys with
  | nil => contradiction
  | cons z xs ih =>
    obtain ⟨y, zs, hy, hzs, rfl⟩ := mapM_cons_eq_ok h
    rcases List.mem_cons.mp hx with rfl | hx
    . exact ⟨y, List.mem_cons_self, hy⟩
    . obtain ⟨y', hy', hfx⟩ := ih hzs hx
      exact ⟨y', List.mem_cons_of_mem y hy', hfx⟩

theorem getElem?_of_mapM {f : α → Except ε β} {xs : List α} {ys : List β} (h : xs.mapM f = .ok ys)
    {i : Nat} {x : α} (hx : xs[i]? = some x) : ∃ y, ys[i]? = some y ∧ f x = .ok y := by
  induction xs generalizing ys i with
  | nil => contradiction
  | cons x' xs ih =>
    obtain ⟨y, zs, hy, hzs, rfl⟩ := mapM_cons_eq_ok h
    cases i with
    | zero =>
      obtain rfl := Option.some.inj hx
      exact ⟨y, rfl, hy⟩
    | succ i => exact ih hzs hx

/-! What holds of an outcome, be it there or an error. -/

def Satisfies (Q : α → Prop) (E : ε → Prop) : Except ε α → Prop
  | .ok a => Q a
  | .error e => E e

section

variable {Q : α → Prop} {R : β → Prop} {E : ε → Prop} {E' : ε' → Prop}

@[simp]
theorem satisfies_ok {a : α} : Satisfies Q E (.ok a) ↔ Q a := by
  rfl

theorem Satisfies.bind {f : α → Except ε β} (h : Satisfies Q E x)
    (hf : ∀ a, Q a → Satisfies R E (f a)) : Satisfies R E (x >>= f) := by
  cases x with
  | error e => exact h
  | ok a => exact hf a h

theorem Satisfies.map {f : α → β} (h : Satisfies Q E x) (hf : ∀ a, Q a → R (f a)) :
    Satisfies R E (x.map f) := by
  cases x with
  | error e => exact h
  | ok a => exact hf a h

theorem Satisfies.mapError {f : ε → ε'} (h : Satisfies Q E x) (hf : ∀ e, E e → E' (f e)) :
    Satisfies Q E' (x.mapError f) := by
  cases x with
  | error e => exact hf e h
  | ok a => exact h

theorem satisfies_mapM {f : α → Except ε β} {xs : List α} (h : ∀ x ∈ xs, Satisfies R E (f x)) :
    Satisfies (fun ys => ∀ y ∈ ys, R y) E (xs.mapM f) := by
  induction xs with
  | nil => exact nofun
  | cons x xs ih =>
    rw [List.mapM_cons]
    apply (h x List.mem_cons_self).bind
    intro y hy
    apply (ih fun z hz => h z (List.mem_cons_of_mem x hz)).bind
    intro ys hys z hz
    rcases List.mem_cons.mp hz with rfl | hz
    . exact hy
    . exact hys z hz

theorem satisfies_foldlM {f : β → α → Except ε β} {xs : List α}
    (h : ∀ acc, R acc → ∀ x ∈ xs, Satisfies R E (f acc x)) {acc : β} (hacc : R acc) :
    Satisfies R E (xs.foldlM f acc) := by
  induction xs generalizing acc with
  | nil => exact hacc
  | cons x xs ih =>
    rw [List.foldlM_cons]
    apply (h acc hacc x List.mem_cons_self).bind
    intro acc' hacc'
    apply ih _ hacc'
    intro acc'' hacc'' y hy
    exact h acc'' hacc'' y (List.mem_cons_of_mem x hy)

end

/-! Outcomes that are there together. -/

def Corresponds (R : α → β → Prop) : Except ε α → Except ε' β → Prop
  | .ok a, .ok b => R a b
  | .error _, .error _ => True
  | _, _ => False

section

variable {y : Except ε' β} {z : Except ε'' γ} {R : α → β → Prop} {S : β → γ → Prop}

theorem corresponds_refl {R : α → α → Prop} (hR : ∀ a, R a a) (x : Except ε α) :
    Corresponds R x x := by
  cases x with
  | error e => exact True.intro
  | ok a => exact hR a

theorem Corresponds.trans {T : α → γ → Prop} (hxy : Corresponds R x y) (hyz : Corresponds S y z)
    (hT : ∀ a b c, R a b → S b c → T a c) : Corresponds T x z := by
  cases x <;> cases y <;> cases z
  . exact True.intro
  . contradiction
  . contradiction
  . contradiction
  . contradiction
  . contradiction
  . contradiction
  . exact hT _ _ _ hxy hyz

theorem Corresponds.bind {S : γ → δ → Prop} {f : α → Except ε γ} {g : β → Except ε' δ}
    (h : Corresponds R x y)
    (hf : ∀ a b, x = .ok a → y = .ok b → R a b → Corresponds S (f a) (g b)) :
    Corresponds S (x >>= f) (y >>= g) := by
  cases x <;> cases y
  . exact True.intro
  . contradiction
  . contradiction
  . exact hf _ _ rfl rfl h

theorem corresponds_map {S : γ → δ → Prop} {f : α → γ} {g : β → δ} :
    Corresponds S (x.map f) (y.map g) ↔ Corresponds (fun a b => S (f a) (g b)) x y := by
  cases x <;> cases y <;> rfl

theorem corresponds_mapError {f : ε → δ} {g : ε' → δ'} :
    Corresponds R (x.mapError f) (y.mapError g) ↔ Corresponds R x y := by
  cases x <;> cases y <;> rfl

theorem Corresponds.imp {S : α → β → Prop} (h : Corresponds R x y)
    (hS : ∀ a b, x = .ok a → y = .ok b → R a b → S a b) : Corresponds S x y := by
  cases x <;> cases y
  . exact True.intro
  . contradiction
  . contradiction
  . exact hS _ _ rfl rfl h

theorem corresponds_of_iff {x y : Except ε Unit} (h : x = .ok () ↔ y = .ok ()) :
    Corresponds (fun _ _ => True) x y := by
  cases x <;> cases y
  . exact True.intro
  . simp at h
  . simp at h
  . exact True.intro

theorem Corresponds.isOk_iff (h : Corresponds R x y) :
    (∃ a, x = .ok a) ↔ ∃ b, y = .ok b := by
  cases x <;> cases y <;> simp_all [Corresponds]

end

/-! Errors that an outcome is not. -/

theorem bind_ne_error {f : α → Except ε β} (h : x ≠ .error e) (hf : ∀ a, f a ≠ .error e) :
    (x >>= f) ≠ .error e := by
  cases x with
  | error e' =>
    intro heq
    cases heq
    contradiction
  | ok a => exact hf a

theorem map_ne_error {f : α → β} (h : x ≠ .error e) : x.map f ≠ .error e := by
  cases x with
  | error e' =>
    intro heq
    cases heq
    contradiction
  | ok a => simp

theorem mapError_ne_error {f : ε → ε'} {e : ε'} {x : Except ε α} (h : ∀ e', f e' ≠ e) :
    x.mapError f ≠ .error e := by
  cases x with
  | error e' =>
    intro heq
    cases heq
    exact h e' rfl
  | ok a => simp

theorem mapM_ne_error {f : α → Except ε β} {xs : List α} (h : ∀ x ∈ xs, f x ≠ .error e) :
    xs.mapM f ≠ .error e := by
  induction xs with
  | nil => simp [pure, Except.pure]
  | cons x xs ih =>
    rw [List.mapM_cons]
    apply bind_ne_error (h x List.mem_cons_self)
    intro y
    apply bind_ne_error
    . apply ih
      intro z hz
      exact h z (List.mem_cons_of_mem x hz)
    . simp [pure, Except.pure]

/-! Errors of the first one that has any. -/

/--
The first element of a list that reports anything at all reports `b`.
-/
inductive First (report : α → β → Prop) : List α → β → Prop
  | here {x : α} {xs : List α} {b : β} (h : report x b) : First report (x :: xs) b
  | later {x : α} {xs : List α} {b : β} (h : ∀ b, ¬report x b) (hxs : First report xs b) :
    First report (x :: xs) b

section

variable {report : α → β → Prop} {xs ys : List α} {b : β}

theorem not_first_nil : ¬First report [] b := by
  rintro ⟨⟩

theorem First.exists_mem (h : First report xs b) : ∃ x ∈ xs, report x b := by
  induction h with
  | here h => exact ⟨_, List.mem_cons_self, h⟩
  | later _ _ ih =>
    obtain ⟨y, hy, hb⟩ := ih
    exact ⟨y, List.mem_cons_of_mem _ hy, hb⟩

theorem first_cons_iff {x : α} :
    First report (x :: xs) b ↔ report x b ∨ (∀ b, ¬report x b) ∧ First report xs b := by
  constructor
  . intro h
    cases h with
    | here h => exact .inl h
    | later h hxs => exact .inr ⟨h, hxs⟩
  . rintro (h | ⟨h, hxs⟩)
    . exact .here h
    . exact .later h hxs

theorem first_append_iff :
    First report (xs ++ ys) b ↔
      First report xs b ∨ (∀ x ∈ xs, ∀ b, ¬report x b) ∧ First report ys b := by
  induction xs with
  | nil => simp [not_first_nil]
  | cons x xs ih =>
    rw [List.cons_append, first_cons_iff, first_cons_iff, ih, List.forall_mem_cons]
    simp only [and_or_left, or_assoc, and_assoc]

theorem first_congr {report' : α → β → Prop} (h : ∀ x ∈ xs, ∀ b, report x b ↔ report' x b) :
    First report xs b ↔ First report' xs b := by
  induction xs with
  | nil => simp [not_first_nil]
  | cons x xs ih =>
    rw [List.forall_mem_cons] at h
    rw [first_cons_iff, first_cons_iff, ih h.2]
    simp only [h.1]

theorem not_exists_first_iff : (∀ b, ¬First report xs b) ↔ ∀ x ∈ xs, ∀ b, ¬report x b := by
  induction xs with
  | nil => simp [not_first_nil]
  | cons x xs ih =>
    simp only [first_cons_iff, List.forall_mem_cons, ← ih]
    constructor
    . intro h
      have hx : ∀ b, ¬report x b := fun b hb => h b (.inl hb)
      exact ⟨hx, fun b hb => h b (.inr ⟨hx, hb⟩)⟩
    . rintro ⟨hx, hxs⟩ b (hb | ⟨-, hb⟩)
      . exact hx b hb
      . exact hxs b hb

end

def FailsFirst (report : α → ε → Prop) (xs : List α) (x : Except ε β) : Prop :=
  ∀ e, x = .error e ↔ First report xs e

namespace FailsFirst

variable {report : α → ε → Prop} {xs ys : List α} {x : Except ε β}

theorem isOk_iff (h : FailsFirst report xs x) :
    (∃ b, x = .ok b) ↔ ∀ y ∈ xs, ∀ e, ¬report y e := by
  rw [← not_exists_first_iff]
  cases x with
  | error e =>
    have hfirst : First report xs e := (h e).mp rfl
    simp only [reduceCtorEq, exists_false, false_iff]
    intro hnone
    exact hnone e hfirst
  | ok b =>
    have hnone : ∀ e, ¬First report xs e := fun e he => nomatch (h e).mpr he
    simp [hnone]

theorem bind {f : β → Except ε γ} (hx : FailsFirst report xs x)
    (hf : ∀ b, x = .ok b → FailsFirst report ys (f b)) :
    FailsFirst report (xs ++ ys) (x >>= f) := by
  intro e
  rw [first_append_iff, ← hx e, ← hx.isOk_iff]
  cases x with
  | error e' => simp
  | ok b =>
    rw [bind_ok, hf b rfl e]
    simp

theorem map {f : β → γ} (h : FailsFirst report xs x) : FailsFirst report xs (x.map f) := by
  intro e
  rw [← h e]
  cases x <;> simp

end FailsFirst

theorem failsFirst_mapM (f : α → Except ε β) (xs : List α) :
    FailsFirst (fun x e => f x = .error e) xs (xs.mapM f) := by
  intro e
  induction xs with
  | nil => simp [not_first_nil, pure, Except.pure]
  | cons x xs ih =>
    rw [List.mapM_cons, first_cons_iff, ← ih]
    cases f x with
    | error e' => simp
    | ok b => cases xs.mapM f <;> simp [pure, Except.pure]

theorem foldlM_eq_mapM {xs : List α} {f : α → Except ε β} {select : γ → β → γ}
    {step : γ → α → Except ε γ} (h : ∀ x ∈ xs, ∀ acc, step acc x = (f x).map (select acc))
    (acc : γ) : xs.foldlM step acc = (xs.mapM f).map (·.foldl select acc) := by
  induction xs generalizing acc with
  | nil => rfl
  | cons x xs ih =>
    have hrest := ih fun y hy => h y (List.mem_cons_of_mem x hy)
    rw [List.foldlM_cons, List.mapM_cons, h x List.mem_cons_self]
    cases f x with
    | error e => rfl
    | ok b =>
      rw [map_ok, bind_ok, hrest, bind_ok]
      cases xs.mapM f <;> rfl

end Sweep
