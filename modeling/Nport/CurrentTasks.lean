import Nport.Reconnect
import Mathlib.Data.Fintype.Basic

/-! On which connection np's port tasks send. A task lives on after the connection that brought
its PortConnect, and client.send goes out on whatever connection is current. -/
namespace CurrentTasks

open GuardedMachine
open PortTask
open Libnp
open Forwardings
open Reconnect

variable {U : Type*}

/-- No port task is in its loop when a connection is made. -/
def NoneRunning (s : State U) : Event U → Prop
  | .connected => ∀ u, (s.ends.port u).phase.looping = false
  | _ => True

instance [Fintype U] (s : State U) (e : Event U) : Decidable (NoneRunning s e) :=
  match e with
  | .connected => inferInstanceAs (Decidable (∀ u, (s.ends.port u).phase.looping = false))
  | .connectFails | .openTunnel _ | .startReading | .announce _ | .portConnect _ _ _
  | .answer _ | .receive _ _ | .lost | .send _ _ | .task _ => isTrue trivial

variable [DecidableEq U] {cfg : Config}

/-! What one step changes. -/

theorem ends_next {s : State U} {e : Event U} (he : Enabled cfg s e) :
    (next cfg s e).ends = s.ends ∨ (next cfg s e).ends = Endpoint.clearWriters s.ends ∨
      ∃ a, Endpoint.Enabled Endpoint.np s.ends a ∧
        (next cfg s e).ends = Endpoint.next Endpoint.np s.ends a ∧ a ≠ .drop ∧
        ∀ u, a = .register u → ∃ address, e = .portConnect u address true := by
  cases e with
  | connected | startReading | announce | lost => exact Or.inl rfl
  | connectFails => exact Or.inr (Or.inl rfl)
  | openTunnel ok =>
    obtain ⟨⟨r, rest, hl⟩, _⟩ := he
    cases ok with
    | true =>
      left
      simp [next, hl]
    | false =>
      right; left
      simp [next, hl, connectFailure]
  | portConnect u address started =>
    simp only [next]
    split
    · cases started with
      | true =>
        refine Or.inr (Or.inr ⟨.register u, he.2.2, rfl, by simp, ?_⟩)
        intro v hv
        obtain rfl : u = v := by simpa using hv
        exact ⟨address, rfl⟩
      | false => exact Or.inl rfl
    · exact Or.inl rfl
  | answer ok =>
    obtain ⟨⟨u, started, hl⟩, _⟩ := he
    left
    simp [next, hl]
  | receive u m => exact Or.inr (Or.inr ⟨.receive u m, he.2, rfl, by simp, by simp⟩)
  | send u ok =>
    obtain ⟨_, hsend, _⟩ := he
    obtain ⟨m, hm⟩ := hsend
    refine Or.inr (Or.inr ⟨.send u ok, ⟨m, hm⟩, ?_, by simp, by simp⟩)
    simp [next, hm]
  | task a =>
    obtain ⟨_, hsilent, ha⟩ := he
    refine Or.inr (Or.inr ⟨a, ha, rfl, ?_, ?_⟩)
    · rintro rfl
      cases hsilent
    · rintro u rfl
      cases hsilent

theorem looping_before {alive : Bool} {p q : Endpoint.Port} (h : Endpoint.PortStep alive p q)
    (hq : q.phase.looping = true) : p.phase.looping = true ∨ p.phase = .absent := by
  cases h with
  | register hp => exact Or.inr hp
  | push | forget => exact Or.inl hq
  | pop m rest hp | write rest count hp | wrote hp | readBytes bytes hp | sentData bytes hp =>
    exact Or.inl (by simp [hp, Phase.looping])
  | writeFail | readLate | readError | released | sentClose | sendFail | teardown | abandon
  | remove => simp [Phase.looping] at hq

theorem unborn_next {s : State U} {e : Event U} (he : Enabled cfg s e) {u : U}
    (hold : (s.ends.port u).phase = .absent)
    (hnew : ((next cfg s e).ends.port u).phase ≠ .absent) :
    ∃ address, e = .portConnect u address true := by
  rcases ends_next he with hends | hends | ⟨a, ha, hends, _, hregister⟩
  · rw [hends] at hnew
    exact absurd hold hnew
  · rw [hends] at hnew
    exact absurd hold hnew
  · rw [hends] at hnew
    by_cases hr : a = .register u
    · exact hregister u hr
    · exact absurd (Endpoint.unborn_step Endpoint.np ha hr hold) hnew

theorem looping_next {s : State U} {e : Event U} (he : Enabled cfg s e) {u : U}
    (h : ((next cfg s e).ends.port u).phase.looping = true) :
    (s.ends.port u).phase.looping = true ∨ ∃ address, e = .portConnect u address true := by
  by_cases hold : (s.ends.port u).phase = .absent
  · right
    refine unborn_next he hold ?_
    intro hnew
    rw [hnew] at h
    cases h
  · left
    rcases ends_next he with hends | hends | ⟨a, ha, hends, _, _⟩
    · rwa [hends] at h
    · rwa [hends] at h
    · rw [hends] at h
      rcases Endpoint.next_port Endpoint.np ha u with hp | hp
      · rwa [hp] at h
      · exact (looping_before hp h).resolve_right hold

def assignedBy (s : State U) : Event U → U → Option ℕ
  | .portConnect u _ _ => Function.update s.assigned u s.connection
  | _ => s.assigned

theorem next_assigned (cfg : Config) (s : State U) (e : Event U) :
    (next cfg s e).assigned = assignedBy s e := by
  cases e with
  | openTunnel ok =>
    simp only [next]
    split
    · cases ok <;> rfl
    · rfl
  | portConnect u address started =>
    simp only [next]
    split <;> rfl
  | answer ok =>
    simp only [next]
    split <;> rfl
  | send u ok =>
    simp only [next]
    split <;> rfl
  | connected | connectFails | startReading | announce | receive | lost | task => rfl

theorem assigned_next {s : State U} {e : Event U} {u : U} {n : ℕ}
    (h : (next cfg s e).assigned u = some n) :
    s.assigned u = some n ∨
      ((∃ address started, e = .portConnect u address started) ∧ s.connection = some n) := by
  rw [next_assigned] at h
  cases e with
  | portConnect v address started =>
    by_cases huv : u = v
    · subst huv
      exact Or.inr ⟨⟨address, started, rfl⟩, by simpa [assignedBy] using h⟩
    · exact Or.inl (by simpa [assignedBy, huv] using h)
  | connected | connectFails | openTunnel | startReading | announce | answer | receive | lost
  | send | task => exact Or.inl h

theorem assigned_kept {s : State U} {e : Event U} (he : Enabled cfg s e) {u : U} {n : ℕ}
    (h : s.assigned u = some n) : (next cfg s e).assigned u = some n := by
  rw [next_assigned]
  cases e with
  | portConnect v address started =>
    have huv : u ≠ v := by
      rintro rfl
      rw [he.2.1] at h
      cases h
    simpa [assignedBy, huv] using h
  | connected | connectFails | openTunnel | startReading | announce | answer | receive | lost
  | send | task => exact h

theorem assigned_connect {s : State U} {u : U} {address : Option Address} {started : Bool} :
    (next cfg s (.portConnect u address started)).assigned u = s.connection := by
  rw [next_assigned]
  exact Function.update_self ..

theorem sent_next {s : State U} {e : Event U} {n : ℕ} {u : U} {m : PortMessage}
    (h : (n, .port u m) ∈ (next cfg s e).sent) :
    (n, .port u m) ∈ s.sent ∨
      (s.connection = some n ∧ (s.ends.port u).phase = .sending m) := by
  have logged {ok : Bool} {x : Outgoing U} (hx : (n, .port u m) ∈ log s ok x) :
      (n, .port u m) ∈ s.sent ∨ (s.connection = some n ∧ x = .port u m) := by
    unfold log at hx
    cases hconn : s.connection with
    | none => exact Or.inl (by simpa [hconn] using hx)
    | some k =>
      cases ok with
      | false => exact Or.inl (by simpa [hconn] using hx)
      | true =>
        simp only [hconn, if_true, List.mem_append, List.mem_singleton, Prod.mk.injEq] at hx
        rcases hx with hx | ⟨rfl, hx⟩
        · exact Or.inl hx
        · exact Or.inr ⟨rfl, hx.symm⟩
  cases e with
  | openTunnel ok =>
    simp only [next] at h
    split at h
    · cases ok with
      | true =>
        rcases logged h with hold | ⟨_, hx⟩
        · exact Or.inl hold
        · cases hx
      | false => exact Or.inl h
    · exact Or.inl h
  | portConnect v address started =>
    simp only [next] at h
    split at h <;> exact Or.inl h
  | answer ok =>
    simp only [next] at h
    split at h
    · rcases logged h with hold | ⟨_, hx⟩
      · exact Or.inl hold
      · cases hx
    · exact Or.inl h
  | send v ok =>
    simp only [next] at h
    split at h
    · next k hk =>
      rcases logged h with hold | ⟨hconn, hx⟩
      · exact Or.inl hold
      · obtain ⟨rfl, rfl⟩ : v = u ∧ k = m := by simpa using hx
        exact Or.inr ⟨hconn, hk⟩
    · exact Or.inl h
  | connected | connectFails | startReading | announce | receive | lost | task => exact Or.inl h

theorem connections_next (cfg : Config) (s : State U) (e : Event U) :
    (e = .connected ∧ (next cfg s e).connections = s.connections + 1 ∧
      (next cfg s e).connection = some s.connections) ∨
    ((next cfg s e).connections = s.connections ∧
      ∀ n, (next cfg s e).connection = some n → s.connection = some n) := by
  cases e with
  | connected => exact Or.inl ⟨rfl, rfl, rfl⟩
  | connectFails => exact Or.inr ⟨rfl, fun n h => by cases h⟩
  | openTunnel ok =>
    right
    simp only [next]
    split
    · cases ok with
      | true => exact ⟨rfl, fun n h => h⟩
      | false => exact ⟨rfl, fun n h => by cases h⟩
    · exact ⟨rfl, fun n h => h⟩
  | portConnect u address started =>
    right
    simp only [next]
    split <;> exact ⟨rfl, fun n h => h⟩
  | answer ok =>
    right
    simp only [next]
    split <;> exact ⟨rfl, fun n h => h⟩
  | send u ok =>
    right
    simp only [next]
    split <;> exact ⟨rfl, fun n h => h⟩
  | startReading | announce | receive | lost | task => exact Or.inr ⟨rfl, fun n h => h⟩

/-! Invariants. -/

structure Invariant (s : State U) : Prop where
  numbered : ∀ n, s.connection = some n → n + 1 = s.connections
  bounded : ∀ u n, s.assigned u = some n → n < s.connections
  born : ∀ u, (s.ends.port u).phase ≠ .absent → ∃ n, s.assigned u = some n
  alive : s.ends.alive = true

/-- While connections are made with no task running: those that run are of the last connection,
and what was sent went out on its own. -/
structure Separate (s : State U) : Prop where
  base : Invariant s
  running : ∀ u, (s.ends.port u).phase.looping = true →
    ∃ n, s.assigned u = some n ∧ n + 1 = s.connections
  sent : ∀ n u m, (n, .port u m) ∈ s.sent → s.assigned u = some n

omit [DecidableEq U] in
theorem initial_separate : Separate (initial : State U) := by
  constructor
  · constructor
    · intro n h
      cases h
    · intro u n h
      cases h
    · intro u h
      exact absurd rfl h
    · rfl
  · intro u h
    cases h
  · intro n u m h
    cases h

theorem step_invariant {s : State U} (hi : Invariant s) {e : Event U}
    (he : Enabled cfg s e) : Invariant (next cfg s e) := by
  constructor
  · intro n hn
    rcases connections_next cfg s e with ⟨_, hc, hnew⟩ | ⟨hc, hold⟩
    · rw [hnew] at hn
      obtain rfl : s.connections = n := by simpa using hn
      exact hc.symm
    · rw [hc]
      exact hi.numbered n (hold n hn)
  · intro u n hu
    have hn : n < s.connections := by
      rcases assigned_next hu with hold | ⟨_, hconn⟩
      · exact hi.bounded u n hold
      · have := hi.numbered n hconn
        omega
    rcases connections_next cfg s e with ⟨_, hc, _⟩ | ⟨hc, _⟩
    · omega
    · omega
  · intro u hu
    by_cases hold : (s.ends.port u).phase = .absent
    · obtain ⟨address, rfl⟩ := unborn_next he hold hu
      obtain ⟨n, hn⟩ := Option.ne_none_iff_exists'.mp he.1.2.2
      exact ⟨n, assigned_connect.trans hn⟩
    · obtain ⟨n, hn⟩ := hi.born u hold
      exact ⟨n, assigned_kept he hn⟩
  · rcases ends_next he with hends | hends | ⟨a, ha, hends, hdrop, _⟩
    · rw [hends]
      exact hi.alive
    · rw [hends]
      exact hi.alive
    · rw [hends, Endpoint.alive_next Endpoint.np hdrop]
      exact hi.alive

theorem step_separate {s : State U} (h : Separate s) {e : Event U} (he : Enabled cfg s e)
    (hc : NoneRunning s e) : Separate (next cfg s e) := by
  refine ⟨step_invariant h.base he, ?_, ?_⟩
  · intro u hu
    rcases looping_next he hu with hold | ⟨address, rfl⟩
    · obtain ⟨n, hn, hlast⟩ := h.running u hold
      refine ⟨n, assigned_kept he hn, ?_⟩
      rcases connections_next cfg s e with ⟨rfl, _, _⟩ | ⟨hsame, _⟩
      · rw [hc u] at hold
        cases hold
      · omega
    · obtain ⟨n, hn⟩ := Option.ne_none_iff_exists'.mp he.1.2.2
      refine ⟨n, assigned_connect.trans hn, ?_⟩
      rcases connections_next cfg s (.portConnect u address true) with
        ⟨hno, _, _⟩ | ⟨hsame, _⟩
      · cases hno
      · rw [hsame]
        exact h.base.numbered n hn
  · intro n u m hsent
    apply assigned_kept he
    rcases sent_next hsent with hold | ⟨hconn, hphase⟩
    · exact h.sent n u m hold
    · obtain ⟨k, hk, hlast⟩ := h.running u (by simp [hphase, Phase.looping])
      have := h.base.numbered n hconn
      obtain rfl : k = n := by omega
      exact hk

/-! A task that still runs. -/

/-- A message of u goes out on connection n. -/
def Sends (cfg : Config) (s : State U) (u : U) (n : ℕ) : Prop :=
  ∃ tr t m, Path (run cfg) s tr t ∧ (n, .port u m) ∈ t.sent ∧ t.assigned u = s.assigned u

/-- A step that does not change the uuid's connection may come first. -/
theorem Sends.after {s : State U} {e : Event U} {u : U} {n : ℕ} (he : Enabled cfg s e)
    (hassigned : (next cfg s e).assigned u = s.assigned u) (h : Sends cfg (next cfg s e) u n) :
    Sends cfg s u n := by
  obtain ⟨tr, t, m, hp, hsent, hsame⟩ := h
  have hstep : Path (run cfg) s [(s, e)] (next cfg s e) := .tail .refl he
  exact ⟨_, t, m, hstep.trans hp, hsent, hsame.trans hassigned⟩

theorem sends_sending {s : State U} {u : U} {n : ℕ} {m : PortMessage}
    (hloop : s.loop ≠ .exited) (hconn : s.connection = some n)
    (hphase : (s.ends.port u).phase = .sending m) : Sends cfg s u n := by
  have he : Enabled cfg s (.send u true) := ⟨hloop, ⟨m, hphase⟩, by simp [hconn]⟩
  have hstep : Path (run cfg) s [(s, .send u true)] (next cfg s (.send u true)) := .tail .refl he
  refine ⟨_, _, m, hstep, ?_, ?_⟩
  · simp [next, hphase, log, hconn]
  · simp [next, hphase]

/-- The local side closes its connection, and the task says so. -/
theorem sends_select {s : State U} {u : U} {n : ℕ} (hloop : s.loop ≠ .exited)
    (hconn : s.connection = some n) (halive : s.ends.alive = true)
    (hphase : (s.ends.port u).phase = .select) : Sends cfg s u n := by
  have he : Enabled cfg s (.task (.read u (.size []))) :=
    ⟨hloop, rfl, hphase, by simp [bufferSize]⟩
  refine Sends.after he rfl (sends_sending hloop hconn (m := .close) ?_)
  simp [next, Endpoint.next, Endpoint.Port.receiveBytes, Endpoint.np, clientPort, halive,
    outgoing]

theorem sends_written {s : State U} {u : U} {n : ℕ} (hloop : s.loop ≠ .exited)
    (hconn : s.connection = some n) (halive : s.ends.alive = true)
    (hphase : (s.ends.port u).phase = .writing []) : Sends cfg s u n := by
  have he : Enabled cfg s (.task (.wrote u)) := ⟨hloop, rfl, hphase⟩
  refine Sends.after he rfl (sends_select hloop hconn halive ?_)
  simp [next, Endpoint.next, afterWrite]

theorem sends_looping {s : State U} {u : U} {n : ℕ} (hloop : s.loop ≠ .exited)
    (hconn : s.connection = some n) (halive : s.ends.alive = true)
    (hrun : (s.ends.port u).phase.looping = true) : Sends cfg s u n := by
  cases hphase : (s.ends.port u).phase with
  | select => exact sends_select hloop hconn halive hphase
  | sending m => exact sends_sending hloop hconn hphase
  | writing rest =>
    cases rest with
    | nil => exact sends_written hloop hconn halive hphase
    | cons b rest =>
      have he : Enabled cfg s (.task (.write u (rest.length + 1))) :=
        ⟨hloop, rfl, b :: rest, hphase, by simp, by simp⟩
      refine Sends.after he rfl (sends_written hloop hconn halive ?_)
      simp [next, Endpoint.next, Endpoint.Port.write, hphase]
  | absent | left | removing | ended => simp [hphase, Phase.looping] at hrun

theorem run_invariant {s : State U} {tr : List (State U × Event U)}
    (hr : Run (run cfg) tr s) : Invariant s :=
  Path.invariant (M := run cfg) (fun _ _ hi he => step_invariant hi he) hr initial_separate.base

/-- If no port task runs while a connection is made, every PortReceive and PortClose goes out on
the connection that its uuid was assigned on. Where one runs, it may send on the new one. -/
theorem port_messages_separate (cfg : Config) {s : State U} {tr : List (State U × Event U)}
    (hr : Run (run cfg) tr s) :
    ((∀ p ∈ tr, NoneRunning p.1 p.2) →
      ∀ n u m, (n, .port u m) ∈ s.sent → s.assigned u = some n) ∧
    (∀ e, Enabled cfg s e → ¬ NoneRunning s e →
      ∃ tr' t n u m k, Path (run cfg) (next cfg s e) tr' t ∧ (n, .port u m) ∈ t.sent ∧
        t.assigned u = some k ∧ k < n) := by
  constructor
  · intro hc
    have hseparate : Separate s := Path.invariant_where (M := run cfg) (C := NoneRunning)
      (fun _ _ h he hc => step_separate h he hc) hr initial_separate hc
    exact hseparate.sent
  · intro e he hc
    have hi := run_invariant hr
    cases e with
    | connected =>
      obtain ⟨u, hu⟩ := not_forall.mp hc
      have hrun : (s.ends.port u).phase.looping = true := by simpa using hu
      obtain ⟨k, hk⟩ := hi.born u (by
        intro habsent
        simp [habsent, Phase.looping] at hrun)
      have hsends : Sends cfg (next cfg s .connected) u s.connections :=
        sends_looping (by simp [next]) rfl hi.alive hrun
      obtain ⟨tr', t, m, hp, hsent, hsame⟩ := hsends
      exact ⟨tr', t, s.connections, u, m, k, hp, hsent, hsame.trans hk, hi.bounded u k hk⟩
    | connectFails | openTunnel | startReading | announce | portConnect | answer | receive | lost
    | send | task => exact absurd trivial hc

def config : Config := ⟨[.tcp none ⟨none, 8000⟩], some "nport.io"⟩

def portOpened : Announcement :=
  .portOpened ⟨0, some ⟨some "nport.io", 40000⟩, some ⟨none, 8000⟩, none⟩

def served : List (Event (Unit)) :=
  [.connected, .openTunnel true, .startReading, .announce portOpened,
    .portConnect () (some ⟨some "nport.io", 40000⟩) true, .answer true,
    .task (.read () (.size [1])), .send () true]

def tidy : List (Event (Unit)) :=
  served ++ [.receive () .close, .task .lookup, .task .enqueue, .task (.pop ()), .lost, .connected]

/-- The task is still there when the next connection is made. -/
def untidy : List (Event (Unit)) :=
  served ++ [.lost, .connected, .task (.read () (.size [2])), .send () true]

theorem port_messages_separate_tidy :
    (0, .port () (.data [1])) ∈ (replay (run config) initial tidy).sent ∧
      (replay (run config) initial tidy).assigned () = some 0 := by
  have haccepts : Accepts (run config) initial tidy := by decide
  have hc : ∀ p ∈ trace (run config) initial tidy, NoneRunning p.1 p.2 := by decide
  have hsent : (0, .port () (.data [1])) ∈ (replay (run config) initial tidy).sent := by decide
  exact ⟨hsent, (port_messages_separate config (path_of_accepts haccepts)).1 hc _ _ _ hsent⟩

/-- On the second connection np sends a PortReceive for a uuid of the first. -/
theorem old_task_sends :
    ∃ s : State (Unit), Reachable (run config) s ∧
      (1, .port () (.data [2])) ∈ s.sent ∧ s.assigned () = some 0 := by
  have haccepts : Accepts (run config) initial untidy := by decide
  exact ⟨_, reachable_of_accepts haccepts, by decide, by decide⟩

end CurrentTasks
