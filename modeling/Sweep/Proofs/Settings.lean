import Sweep.Config.Basic
import Sweep.Proofs.Quoting

/-!
This module contains the round trip of configurations through JSON. What is loaded is in range, and
a configuration in range is loaded from its text, also if settings that have their defaults are left
out of it.
-/

namespace Sweep.Config

open Json (Scalar)

variable {c d : Config}

structure InRange (c : Config) : Prop where
  portNumber : c.portNumber ≤ 65535
  computationTimeout : ∃ millis ≤ maxCount, c.computationTimeout = .ofMillis millis
  queueTimeout : ∃ millis ≤ maxCount, c.queueTimeout = .ofMillis millis
  workerThreads : ∀ n, c.workerThreads = some n → n ≤ maxCount
  maxDomainLength : c.maxDomainLength ≤ maxCount

/-! What is loaded is in range. -/

theorem natural?_eq_some_iff {bound n : Nat} {value : Scalar} :
    natural? bound value = some n ↔ value = .natural n ∧ n ≤ bound := by
  cases value with
  | natural m =>
    simp only [natural?, Option.ite_none_right_eq_some, Option.some_inj, Scalar.natural.injEq]
    constructor
    . rintro ⟨hle, rfl⟩
      exact ⟨rfl, hle⟩
    . rintro ⟨rfl, hle⟩
      exact ⟨hle, rfl⟩
  | _ => simp [natural?]

theorem inRange_default : default.InRange := by
  constructor
  . decide
  . exact ⟨10000, by decide, rfl⟩
  . exact ⟨120000, by decide, rfl⟩
  . exact nofun
  . decide

theorem InRange.set? (h : d.InRange) {s : Setting} {value : Scalar}
    (hset : d.set? s value = some c) : c.InRange := by
  cases s with
  | host | quitCommand =>
    obtain ⟨_, -, rfl⟩ := Option.map_eq_some_iff.mp hset
    exact { h with }
  | portNumber =>
    obtain ⟨n, hn, rfl⟩ := Option.map_eq_some_iff.mp hset
    exact { h with portNumber := (natural?_eq_some_iff.mp hn).2 }
  | computationTimeout =>
    obtain ⟨n, hn, rfl⟩ := Option.map_eq_some_iff.mp hset
    exact { h with computationTimeout := ⟨n, (natural?_eq_some_iff.mp hn).2, rfl⟩ }
  | queueTimeout =>
    obtain ⟨n, hn, rfl⟩ := Option.map_eq_some_iff.mp hset
    exact { h with queueTimeout := ⟨n, (natural?_eq_some_iff.mp hn).2, rfl⟩ }
  | workerThreads =>
    simp only [Config.set?] at hset
    split at hset
    . cases hset
      exact { h with workerThreads := nofun }
    . obtain ⟨n, hn, rfl⟩ := Option.map_eq_some_iff.mp hset
      refine { h with workerThreads := ?_ }
      rintro m hm
      cases hm
      exact (natural?_eq_some_iff.mp hn).2
  | maxDomainLength =>
    obtain ⟨n, hn, rfl⟩ := Option.map_eq_some_iff.mp hset
    exact { h with maxDomainLength := (natural?_eq_some_iff.mp hn).2 }

theorem InRange.setMembers? (h : d.InRange) {seen : List Setting} {ms : List (String × Scalar)}
    (hset : d.setMembers? seen ms = some c) : c.InRange := by
  induction ms generalizing d seen with
  | nil =>
    cases hset
    exact h
  | cons m ms ih =>
    unfold Config.setMembers? at hset
    split at hset
    . exact ih h hset
    . split at hset
      . contradiction
      . obtain ⟨d', hd', hset⟩ := Option.bind_eq_some_iff.mp hset
        exact ih (h.set? hd') hset

theorem InRange.setElements? (h : d.InRange) {settings : List Setting} {values : List Scalar}
    (hset : d.setElements? settings values = some c) : c.InRange := by
  induction values generalizing d settings with
  | nil =>
    cases settings <;>
    . cases hset
      exact h
  | cons value values ih =>
    cases settings with
    | nil => contradiction
    | cons s settings =>
      obtain ⟨d', hd', hset⟩ := Option.bind_eq_some_iff.mp hset
      exact ih (h.set? hd') hset

theorem load_eq_ok_iff {text : String} : load text = .ok c ↔ ofText? text = some c := by
  unfold load
  cases ofText? text <;> simp

theorem inRange_of_load {text : String} (h : load text = .ok c) : c.InRange := by
  obtain ⟨document, -, hdocument⟩ := Option.bind_eq_some_iff.mp (load_eq_ok_iff.mp h)
  cases document with
  | members ms => exact inRange_default.setMembers? hdocument
  | elements values => exact inRange_default.setElements? hdocument

/-! What is in range is loaded from its text. -/

def value (c : Config) : Setting → Scalar
  | .host => .string c.host
  | .portNumber => .natural c.portNumber
  | .computationTimeout => .natural c.computationTimeout.toMillis.toUInt64.toNat
  | .queueTimeout => .natural c.queueTimeout.toMillis.toUInt64.toNat
  | .workerThreads =>
    match c.workerThreads with
    | none => .null
    | some n => .natural n
  | .maxDomainLength => .natural c.maxDomainLength
  | .quitCommand => .string c.quitCommand

theorem writes_get (c : Config) (s : Setting) : Scalar.Writes (c.get s) (c.value s) := by
  cases s with
  | host | quitCommand => apply Scalar.Writes.string
  | portNumber | computationTimeout | queueTimeout | maxDomainLength => apply Scalar.Writes.natural
  | workerThreads =>
    unfold get value
    cases c.workerThreads with
    | none => apply Scalar.Writes.null
    | some n => apply Scalar.Writes.natural

theorem toNat_toMillis {time : Duration} (h : ∃ millis ≤ maxCount, time = .ofMillis millis) :
    time.toMillis.toUInt64.toNat ≤ maxCount ∧
      .ofMillis time.toMillis.toUInt64.toNat = time := by
  obtain ⟨millis, hle, rfl⟩ := h
  have hlt : millis < 2 ^ 64 := Nat.lt_of_le_of_lt hle (by decide)
  have hmillis : millis.toUInt64.toNat = millis := Nat.mod_eq_of_lt hlt
  rw [Duration.toMillis_ofMillis, hmillis]
  exact ⟨hle, rfl⟩

theorem InRange.ext (hc : c.InRange) (hd : d.InRange) (h : ∀ s, c.value s = d.value s) : c = d := by
  have hhost := Scalar.string.inj (h .host)
  have hportNumber := Scalar.natural.inj (h .portNumber)
  have hcomputationTimeout := Scalar.natural.inj (h .computationTimeout)
  have hqueueTimeout := Scalar.natural.inj (h .queueTimeout)
  have hworkerThreads : c.workerThreads = d.workerThreads := by
    have hvalue := h .workerThreads
    simp only [value] at hvalue
    cases hthreads : c.workerThreads <;> cases hthreads' : d.workerThreads <;>
      simp_all
  have hmaxDomainLength := Scalar.natural.inj (h .maxDomainLength)
  have hquitCommand := Scalar.string.inj (h .quitCommand)
  have hcomputation : c.computationTimeout = d.computationTimeout := by
    rw [← (toNat_toMillis hc.computationTimeout).2, hcomputationTimeout]
    exact (toNat_toMillis hd.computationTimeout).2
  have hqueue : c.queueTimeout = d.queueTimeout := by
    rw [← (toNat_toMillis hc.queueTimeout).2, hqueueTimeout]
    exact (toNat_toMillis hd.queueTimeout).2
  cases c
  cases d
  simp_all

def copy (c d : Config) : Setting → Config
  | .host => { d with host := c.host }
  | .portNumber => { d with portNumber := c.portNumber }
  | .computationTimeout => { d with computationTimeout := c.computationTimeout }
  | .queueTimeout => { d with queueTimeout := c.queueTimeout }
  | .workerThreads => { d with workerThreads := c.workerThreads }
  | .maxDomainLength => { d with maxDomainLength := c.maxDomainLength }
  | .quitCommand => { d with quitCommand := c.quitCommand }

theorem value_copy (c d : Config) (s s' : Setting) :
    (c.copy d s).value s' = if s' = s then c.value s' else d.value s' := by
  cases s <;> cases s' <;> rfl

theorem natural?_of_le {bound n : Nat} (h : n ≤ bound) : natural? bound (.natural n) = some n := by
  rw [natural?_eq_some_iff]
  exact ⟨rfl, h⟩

theorem set?_value (hc : c.InRange) (d : Config) (s : Setting) :
    d.set? s (c.value s) = some (c.copy d s) := by
  cases s with
  | host | quitCommand => rfl
  | portNumber =>
    simp only [set?, value, natural?_of_le hc.portNumber]
    rfl
  | computationTimeout =>
    obtain ⟨hle, htime⟩ := toNat_toMillis hc.computationTimeout
    simp only [set?, value, natural?_of_le hle, Option.map_some, htime]
    rfl
  | queueTimeout =>
    obtain ⟨hle, htime⟩ := toNat_toMillis hc.queueTimeout
    simp only [set?, value, natural?_of_le hle, Option.map_some, htime]
    rfl
  | workerThreads =>
    unfold value copy
    cases hthreads : c.workerThreads with
    | none => rfl
    | some n =>
      simp only [set?, natural?_of_le (hc.workerThreads n hthreads)]
      rfl
  | maxDomainLength =>
    simp only [set?, value, natural?_of_le hc.maxDomainLength]
    rfl

theorem ofKey?_key (s : Setting) : Setting.ofKey? s.key = some s := by
  cases s <;> decide

theorem setMembers?_values (hc : c.InRange) (d : Config) {settings seen : List Setting}
    (hnodup : settings.Nodup) (hseen : ∀ s ∈ settings, s ∉ seen) :
    d.setMembers? seen (settings.map fun s => (s.key, c.value s))
      = some (settings.foldl c.copy d) := by
  induction settings generalizing d seen with
  | nil => rfl
  | cons s settings ih =>
    obtain ⟨hnew, hrest⟩ := List.nodup_cons.mp hnodup
    have hseen' : ∀ s' ∈ settings, s' ∉ s :: seen := by
      intro s' hs'
      rw [List.mem_cons, not_or]
      refine ⟨?_, hseen s' (List.mem_cons_of_mem s hs')⟩
      rintro rfl
      exact hnew hs'
    rw [List.map_cons, setMembers?, ofKey?_key]
    dsimp only
    rw [if_neg (hseen s List.mem_cons_self), set?_value hc, Option.bind_some]
    exact ih (c.copy d s) hrest hseen'

theorem value_foldl_copy (c d : Config) (settings : List Setting) (s : Setting) :
    (settings.foldl c.copy d).value s = if s ∈ settings then c.value s else d.value s := by
  induction settings generalizing d with
  | nil => rfl
  | cons s' settings ih =>
    rw [List.foldl_cons, ih, value_copy]
    by_cases heq : s = s'
    . simp [heq]
    . simp [heq]

theorem ofText?_textOf (hc : c.InRange) {settings : List Setting} (h : settings.Nodup) :
    ofText? (c.textOf settings) = some (settings.foldl c.copy default) := by
  unfold ofText? textOf
  have hdocument := Json.Document.ofText?_object Setting.key c.writes_get settings
  unfold Json.member at hdocument
  rw [hdocument]
  exact setMembers?_values hc default h (by simp)

theorem load_textOf (hc : c.InRange) {settings : List Setting} (h : settings.Nodup)
    (homitted : ∀ s ∉ settings, c.get s = default.get s) :
    load (c.textOf settings) = .ok c := by
  have hload := load_eq_ok_iff.mpr (ofText?_textOf hc h)
  rw [hload]
  congr 1
  apply (inRange_of_load hload).ext hc
  intro s
  rw [value_foldl_copy]
  split
  . rfl
  . next hs =>
    have hdefault := default.writes_get s
    rw [← homitted s hs] at hdefault
    exact hdefault.inj (c.writes_get s)

/--
The round trip of a configuration. The configurations that can be loaded at all are those in range:
there is no condition on their texts.
-/
theorem load_round_trip (c : Config) :
    ((∃ text, load text = .ok c) ↔ c.InRange) ∧
    (∀ text, load text = .ok c →
      load c.text = .ok c ∧
      -- settings that have their defaults may be left out, and the order does not matter
      ∀ settings : List Setting, settings.Nodup →
        (∀ s ∉ settings, c.get s = default.get s) → load (c.textOf settings) = .ok c) := by
  have htext (hc : c.InRange) : load c.text = .ok c := by
    apply load_textOf hc (by decide)
    intro s hs
    cases s <;> exact absurd (by decide) hs
  refine ⟨⟨?_, ?_⟩, ?_⟩
  . rintro ⟨text, hload⟩
    exact inRange_of_load hload
  . intro hc
    exact ⟨c.text, htext hc⟩
  . intro text hload
    have hc := inRange_of_load hload
    refine ⟨htext hc, ?_⟩
    intro settings hnodup homitted
    exact load_textOf hc hnodup homitted

end Sweep.Config
