import Nport.GuardedMachine
import Nport.Tally

/-! CountedMetric of the server: three numbers that a call of add changes one after the other,
for any number of connections, hostnames or ports that come and go at once. Each of them calls
inc when it has come and dec before it is gone, and get may be called at any time. -/
namespace Metrics

open GuardedMachine
open Tally

/-- total and current are what the exporter reads, if there is a meter. -/
structure CountedMetric where
  total : Option ℕ
  current : Option ℤ
  count : ℤ
  deriving DecidableEq, Repr

def CountedMetric.start (meter : Bool) : CountedMetric :=
  if meter then ⟨some 0, some 0, 0⟩ else ⟨none, none, 0⟩

inductive Action where
  | total (value : ℕ)
  | current (value : ℤ)
  /-- fetch_add -/
  | count (value : ℤ)
  deriving DecidableEq, Repr

def add (value : ℤ) : List Action :=
  if 0 < value then [.total value.toNat, .current value, .count value]
  else [.current value, .count value]

def inc : List Action := add 1

def dec : List Action := add (-1)

def CountedMetric.act (m : CountedMetric) : Action → CountedMetric
  | .total value => { m with total := m.total.map (· + value) }
  | .current value => { m with current := m.current.map (· + value) }
  | .count value => { m with count := m.count + value }

def CountedMetric.get (m : CountedMetric) : ℤ := m.count

/-- Where a connection, a hostname or a port stands, with what is left of the call. -/
inductive Phase where
  | unborn
  | arriving (rest : List Action)
  | present
  | leaving (rest : List Action)
  | gone
  deriving DecidableEq, Repr

structure State (U : Type*) where
  metric : CountedMetric
  phase : U → Phase

inductive Event (U : Type*) where
  | inc (u : U)
  | dec (u : U)
  | act (u : U)
  deriving DecidableEq, Repr

variable {U : Type*} [DecidableEq U]

omit [DecidableEq U] in
def Enabled (s : State U) : Event U → Prop
  | .inc u => s.phase u = .unborn
  | .dec u => s.phase u = .present
  | .act u => ∃ action rest, s.phase u = .arriving (action :: rest) ∨
      s.phase u = .leaving (action :: rest)

def arriving (rest : List Action) : Phase := if rest = [] then .present else .arriving rest

def leaving (rest : List Action) : Phase := if rest = [] then .gone else .leaving rest

def next (s : State U) : Event U → State U
  | .inc u => { s with phase := Function.update s.phase u (arriving inc) }
  | .dec u => { s with phase := Function.update s.phase u (leaving dec) }
  | .act u =>
    match s.phase u with
    | .arriving (action :: rest) =>
      ⟨s.metric.act action, Function.update s.phase u (arriving rest)⟩
    | .leaving (action :: rest) =>
      ⟨s.metric.act action, Function.update s.phase u (leaving rest)⟩
    | _ => s

def metrics (U : Type*) [DecidableEq U] (meter : Bool) : Machine (State U) (Event U) :=
  ⟨⟨.start meter, fun _ => .unborn⟩, Enabled, next⟩

/-! What each of the three numbers counts. -/

def Phase.totalled : Phase → Bool
  | .unborn => false
  | .arriving rest => .total 1 ∉ rest
  | .present | .leaving _ | .gone => true

def Phase.current : Phase → Bool
  | .arriving rest => .current 1 ∉ rest
  | .present => true
  | .leaving rest => .current (-1) ∈ rest
  | .unborn | .gone => false

/-- From the return of inc to the return of dec. -/
def Phase.counted : Phase → Bool
  | .present | .leaving _ => true
  | .unborn | .arriving _ | .gone => false

def Phase.involved : Phase → Bool
  | .arriving _ | .present | .leaving _ => true
  | .unborn | .gone => false

def Phase.born : Phase → Bool
  | .unborn => false
  | _ => true

def Phase.arrived : Phase → Bool
  | .present | .leaving _ | .gone => true
  | .unborn | .arriving _ => false

def Phase.idle : Phase → Bool
  | .arriving _ | .leaving _ => false
  | .unborn | .present | .gone => true

section Phase

variable {x : Phase}

theorem Phase.totalled_of_arrived (h : x.arrived = true) : x.totalled = true := by
  cases x with
  | unborn | arriving => cases h
  | present | leaving | gone => rfl

theorem Phase.born_of_totalled (h : x.totalled = true) : x.born = true := by
  cases x with
  | unborn => cases h
  | arriving | present | leaving | gone => rfl

theorem Phase.involved_of_current (h : x.current = true) : x.involved = true := by
  cases x with
  | unborn | gone => cases h
  | arriving | present | leaving => rfl

theorem Phase.born_of_involved (h : x.involved = true) : x.born = true := by
  cases x with
  | unborn | gone => cases h
  | arriving | present | leaving => rfl

theorem Phase.totalled_of_idle (h : x.idle = true) : x.totalled = x.born := by
  cases x with
  | arriving | leaving => cases h
  | unborn | present | gone => rfl

theorem Phase.current_of_idle (h : x.idle = true) : x.current = x.counted := by
  cases x with
  | arriving | leaving => cases h
  | unborn | present | gone => rfl

end Phase

/-- A call in progress has something left to do, and has done the rest in its order. -/
def Phase.Proper : Phase → Prop
  | .arriving rest => rest ≠ [] ∧ rest <:+ inc
  | .leaving rest => rest ≠ [] ∧ rest <:+ dec
  | .unborn | .present | .gone => True

def Measures (p : Phase → Bool) (phase : U → Phase) (value : ℤ) : Prop :=
  ∃ n : ℕ, Counted (fun u => p (phase u) = true) n ∧ value = n

structure Invariant (meter : Bool) (s : State U) : Prop where
  exported : s.metric.total.isSome = meter ∧ s.metric.current.isSome = meter
  proper : ∀ u, (s.phase u).Proper
  finite : ∃ n, Counted (fun u => (s.phase u).born = true) n
  total : ∀ total, s.metric.total = some total → Measures Phase.totalled s.phase total
  current : ∀ current, s.metric.current = some current → Measures Phase.current s.phase current
  count : Measures Phase.counted s.phase s.metric.count

theorem Measures.update {p : Phase → Bool} {phase : U → Phase} {value value' : ℤ}
    (h : Measures p phase value) (u : U) (y : Phase)
    (hv : value' + (p (phase u)).toNat = value + (p y).toNat) :
    Measures p (Function.update phase u y) value' := by
  obtain ⟨n, hn, rfl⟩ := h
  obtain ⟨m, hm, hmn⟩ := hn.update (p := fun x => p x = true) u y
  refine ⟨m, hm, ?_⟩
  cases hx : p (phase u) <;> cases hy : p y <;> simp [hx, hy] at hv hmn <;> omega

structure Moves (m m' : CountedMetric) (x y : Phase) : Prop where
  exported : m'.total.isSome = m.total.isSome ∧ m'.current.isSome = m.current.isSome
  proper : y.Proper
  total : ∀ total', m'.total = some total' →
    ∃ total, m.total = some total ∧ (total' : ℤ) + x.totalled.toNat = total + y.totalled.toNat
  current : ∀ current', m'.current = some current' →
    ∃ current, m.current = some current ∧
      current' + x.current.toNat = current + y.current.toNat
  count : m'.count + x.counted.toNat = m.count + y.counted.toNat

theorem moves_call {m : CountedMetric} {x y : Phase} (hproper : y.Proper)
    (htotal : x.totalled = y.totalled) (hcurrent : x.current = y.current)
    (hcount : x.counted = y.counted) : Moves m m x y where
  exported := ⟨rfl, rfl⟩
  proper := hproper
  total total h := ⟨total, h, by rw [htotal]⟩
  current current h := ⟨current, h, by rw [hcurrent]⟩
  count := by rw [hcount]

theorem moves_total {m : CountedMetric} : Moves m (m.act (.total 1)) (.arriving inc)
    (.arriving [.current 1, .count 1]) where
  exported := ⟨Option.isSome_map, rfl⟩
  proper := ⟨by decide, by decide⟩
  total total' h := by
    obtain ⟨total, htotal, rfl⟩ := Option.map_eq_some_iff.mp h
    exact ⟨total, htotal, by simp [Phase.totalled, inc, add]⟩
  current current h := ⟨current, h, rfl⟩
  count := rfl

theorem moves_current {m : CountedMetric} {x y : Phase} {value : ℤ} (hproper : y.Proper)
    (htotal : x.totalled = y.totalled) (hcount : x.counted = y.counted)
    (hcurrent : value + x.current.toNat = y.current.toNat) :
    Moves m (m.act (.current value)) x y where
  exported := ⟨rfl, Option.isSome_map⟩
  proper := hproper
  total total h := ⟨total, h, by rw [htotal]⟩
  current current' h := by
    obtain ⟨current, hcurrent', rfl⟩ := Option.map_eq_some_iff.mp h
    exact ⟨current, hcurrent', by omega⟩
  count := by
    rw [hcount]
    rfl

theorem moves_count {m : CountedMetric} {x y : Phase} {value : ℤ} (hproper : y.Proper)
    (htotal : x.totalled = y.totalled) (hcurrent : x.current = y.current)
    (hcount : value + x.counted.toNat = y.counted.toNat) :
    Moves m (m.act (.count value)) x y where
  exported := ⟨rfl, rfl⟩
  proper := hproper
  total total h := ⟨total, h, by rw [htotal]⟩
  current current h := ⟨current, h, by rw [hcurrent]⟩
  count := by
    simp only [CountedMetric.act]
    omega

theorem moves_act {m : CountedMetric} {action : Action} {rest : List Action} :
    (action :: rest <:+ inc → Moves m (m.act action) (.arriving (action :: rest)) (arriving rest)) ∧
    (action :: rest <:+ dec →
      Moves m (m.act action) (.leaving (action :: rest)) (leaving rest)) := by
  constructor
  · intro h
    rcases List.suffix_cons_iff.mp h with heq | h
    · obtain ⟨rfl, rfl⟩ := List.cons.inj heq
      exact moves_total
    rcases List.suffix_cons_iff.mp h with heq | h
    · obtain ⟨rfl, rfl⟩ := List.cons.inj heq
      exact moves_current ⟨by decide, by decide⟩ rfl rfl rfl
    rcases List.suffix_cons_iff.mp h with heq | h
    · obtain ⟨rfl, rfl⟩ := List.cons.inj heq
      exact moves_count trivial rfl rfl rfl
    · simp at h
  · intro h
    rcases List.suffix_cons_iff.mp h with heq | h
    · obtain ⟨rfl, rfl⟩ := List.cons.inj heq
      exact moves_current ⟨by decide, by decide⟩ rfl rfl rfl
    rcases List.suffix_cons_iff.mp h with heq | h
    · obtain ⟨rfl, rfl⟩ := List.cons.inj heq
      exact moves_count trivial rfl rfl rfl
    · simp at h

theorem step_moves {s : State U} {e : Event U} (hs : ∀ u, (s.phase u).Proper) (he : Enabled s e) :
    ∃ u m y, next s e = ⟨m, Function.update s.phase u y⟩ ∧ Moves s.metric m (s.phase u) y := by
  cases e with
  | inc u =>
    have hu : s.phase u = .unborn := he
    refine ⟨u, s.metric, .arriving inc, rfl, ?_⟩
    rw [hu]
    exact moves_call ⟨by decide, by decide⟩ rfl rfl rfl
  | dec u =>
    have hu : s.phase u = .present := he
    refine ⟨u, s.metric, .leaving dec, rfl, ?_⟩
    rw [hu]
    exact moves_call ⟨by decide, by decide⟩ rfl rfl rfl
  | act u =>
    obtain ⟨action, rest, hu | hu⟩ := he
    · have hproper := hs u
      rw [hu] at hproper
      refine ⟨u, s.metric.act action, arriving rest, by simp only [next, hu], ?_⟩
      rw [hu]
      exact moves_act.1 hproper.2
    · have hproper := hs u
      rw [hu] at hproper
      refine ⟨u, s.metric.act action, leaving rest, by simp only [next, hu], ?_⟩
      rw [hu]
      exact moves_act.2 hproper.2

theorem step_invariant {meter : Bool} {s : State U} {e : Event U} (h : Invariant meter s)
    (he : Enabled s e) : Invariant meter (next s e) := by
  obtain ⟨u, m, y, hnext, hmoves⟩ := step_moves h.proper he
  rw [hnext]
  refine ⟨?_, ?_, ?_, ?_, ?_, h.count.update u y hmoves.count⟩
  · rw [hmoves.exported.1, hmoves.exported.2]
    exact h.exported
  · intro v
    by_cases hv : v = u
    · subst v
      simpa using hmoves.proper
    · simpa [hv] using h.proper v
  · obtain ⟨n, hn⟩ := h.finite
    obtain ⟨k, hk, _⟩ := hn.update (p := fun x => Phase.born x = true) u y
    exact ⟨k, hk⟩
  · intro total' htotal'
    obtain ⟨total, htotal, hsum⟩ := hmoves.total total' htotal'
    exact (h.total total htotal).update u y hsum
  · intro current' hcurrent'
    obtain ⟨current, hcurrent, hsum⟩ := hmoves.current current' hcurrent'
    exact (h.current current hcurrent).update u y hsum

theorem initial_invariant (meter : Bool) : Invariant meter (metrics U meter).initial := by
  have nobody {p : Phase → Bool} (hp : p .unborn = false) :
      Measures p (metrics U meter).initial.phase 0 :=
    ⟨0, counted_zero_iff.mpr fun u => by simp [metrics, hp], rfl⟩
  refine ⟨?_, fun _ => trivial,
    ⟨0, counted_zero_iff.mpr fun u => by simp [metrics, Phase.born]⟩, ?_, ?_, ?_⟩
  · cases meter <;> exact ⟨rfl, rfl⟩
  · intro total htotal
    cases meter with
    | false => cases htotal
    | true =>
      cases htotal
      exact nobody rfl
  · intro current hcurrent
    cases meter with
    | false => cases hcurrent
    | true =>
      cases hcurrent
      exact nobody rfl
  · cases meter <;> exact nobody rfl

omit [DecidableEq U] in
theorem Invariant.exists_counted {meter : Bool} {s : State U} (h : Invariant meter s)
    (p : Phase → Bool) (hp : ∀ x, p x = true → x.born = true) :
    ∃ n, Counted (fun u => p (s.phase u) = true) n := by
  obtain ⟨_, members, hmembers, _⟩ := h.finite
  refine ⟨_, members.filter fun u => p (s.phase u) = true, fun u => ?_, rfl⟩
  rw [Finset.mem_filter, hmembers]
  exact and_iff_right_of_imp (hp (s.phase u))

/-- What can be read at any time. get is exact: it is how many there are for whom inc has returned
and dec has not. The exporter sees the total and the current number before or after a call that is
under way; when none is, current is what get reads and total is how many there have been. -/
theorem readings_exact (meter : Bool) {s : State U} (h : Reachable (metrics U meter) s) :
    Measures Phase.counted s.phase s.metric.get ∧
    (s.metric.total.isSome = meter ∧ s.metric.current.isSome = meter) ∧
    (∀ total, s.metric.total = some total → ∃ least most,
      Counted (fun u => (s.phase u).arrived = true) least ∧
      Counted (fun u => (s.phase u).born = true) most ∧ least ≤ total ∧ total ≤ most) ∧
    (∀ current, s.metric.current = some current → ∃ least most : ℕ,
      Counted (fun u => s.phase u = .present) least ∧
      Counted (fun u => (s.phase u).involved = true) most ∧ least ≤ current ∧ current ≤ most) ∧
    ((∀ u, (s.phase u).idle = true) →
      (∀ total, s.metric.total = some total → Counted (fun u => (s.phase u).born = true) total) ∧
      ∀ current, s.metric.current = some current → current = s.metric.get) := by
  have hinv : Invariant meter s :=
    h.invariant (initial_invariant meter) fun _ _ ht he => step_invariant ht he
  refine ⟨hinv.count, hinv.exported, ?_, ?_, ?_⟩
  · intro total htotal
    obtain ⟨n, hn, hsame⟩ := hinv.total total htotal
    obtain rfl : total = n := Int.ofNat_inj.mp hsame
    obtain ⟨least, hleast⟩ := hinv.exists_counted Phase.arrived fun _ hx =>
      Phase.born_of_totalled (Phase.totalled_of_arrived hx)
    obtain ⟨most, hmost⟩ := hinv.finite
    exact ⟨least, most, hleast, hmost, hleast.le hn fun _ => Phase.totalled_of_arrived,
      hn.le hmost fun _ => Phase.born_of_totalled⟩
  · intro current hcurrent
    obtain ⟨n, hn, rfl⟩ := hinv.current current hcurrent
    have present {x : Phase} (hx : decide (x = .present) = true) : x.current = true := by
      rw [of_decide_eq_true hx]
      rfl
    obtain ⟨least, hleast⟩ := hinv.exists_counted (fun x => x = .present) fun _ hx =>
      Phase.born_of_involved (Phase.involved_of_current (present hx))
    obtain ⟨most, hmost⟩ := hinv.exists_counted Phase.involved fun _ => Phase.born_of_involved
    exact ⟨least, most, hleast.congr fun u => by simp, hmost,
      Int.ofNat_le.mpr (hleast.le hn fun _ => present),
      Int.ofNat_le.mpr (hn.le hmost fun _ => Phase.involved_of_current)⟩
  · intro hidle
    constructor
    · intro total htotal
      obtain ⟨n, hn, hsame⟩ := hinv.total total htotal
      obtain rfl : total = n := Int.ofNat_inj.mp hsame
      exact hn.congr fun u => by rw [Phase.totalled_of_idle (hidle u)]
    · intro current hcurrent
      obtain ⟨n, hn, rfl⟩ := hinv.current current hcurrent
      obtain ⟨m, hm, hget⟩ := hinv.count
      have hsame : n = m :=
        hn.unique (hm.congr fun u => by rw [Phase.current_of_idle (hidle u)])
      rw [CountedMetric.get, hget, hsame]

def overlap : List (Event Bool) :=
  [.inc true, .act true, .inc false, .act true, .act true, .act false, .act false, .act false,
    .dec false, .act false]

theorem overlap_accepted : Accepts (metrics Bool true) (metrics Bool true).initial overlap :=
  ⟨rfl, ⟨_, _, Or.inl rfl⟩, rfl, ⟨_, _, Or.inl rfl⟩, ⟨_, _, Or.inl rfl⟩, ⟨_, _, Or.inl rfl⟩,
    ⟨_, _, Or.inl rfl⟩, ⟨_, _, Or.inl rfl⟩, rfl, ⟨_, _, Or.inr rfl⟩, trivial⟩

theorem readings_exact_overlap :
    (replay (metrics Bool true) (metrics Bool true).initial overlap).metric =
        ⟨some 2, some 1, 2⟩ ∧
      Measures Phase.counted
        (replay (metrics Bool true) (metrics Bool true).initial overlap).phase 2 :=
  ⟨by decide, (readings_exact true (reachable_of_accepts overlap_accepted)).1⟩

end Metrics
