import Nport.Reconnect
import Mathlib.Data.Fintype.Basic

/-! What np's main loop does about failures. A connect or the send of an open that fails ends
the attempt: connect_failure, and connect again. The continue after a failed open is that of
the for loop over the tunnels, though. -/
namespace ConnectionLoop

open GuardedMachine
open PortTask
open Reconnect
open Tunnels (Request)

variable {U : Type*}

/-! Attempts. Each begins with a call of connect. -/

def countCall (calls : List ℕ) : Event U → List ℕ
  | .connected => 0 :: calls
  | .connectFails => 1 :: calls
  | .openTunnel false =>
    match calls with
    | n :: rest => (n + 1) :: rest
    | [] => []
  | _ => calls

def attempts (tr : List (State U × Event U)) : List ℕ :=
  tr.foldl (fun calls p => countCall calls p.2) []

def failedInARow (calls : List ℕ) : ℕ := (calls.takeWhile (· ≠ 0)).length

def opensOn (sent : List (ℕ × Outgoing U)) (n : ℕ) : List Request :=
  sent.filterMap fun x =>
    match x with
    | (m, .request r) => if m = n then some r else none
    | _ => none

def Ready (cfg : Config) (s : State U) : Prop :=
  ∃ n, s.connection = some n ∧ opensOn s.sent n = cfg.tunnels.map Tunnel.request

/-- What the main loop should do about failures. -/
structure AsIntended (cfg : Config) (tr : List (State U × Event U)) (s : State U) : Prop where
  /-- connect_failure is called once in an attempt that fails -/
  once : ∀ n ∈ attempts tr, n ≤ 1
  /-- an open is sent in an attempt that has not failed -/
  reconnects : Each (fun before p => p.2 = .openTunnel true →
    (attempts before).head? = some 0) tr
  givesUp : s.loop = .exited → maxConnectRetries < failedInARow (attempts tr)
  ready : Each (fun _ p => p.2 = .startReading → Ready cfg p.1) tr

/-- The for loop goes on to the next tunnel or to its end. -/
def goesOn : Event U → Bool
  | .openTunnel _ | .startReading => true
  | _ => false

/-- No open fails to be sent, unless connect_failure gives up then, so that nothing comes
after it. -/
def OpensSucceed (tr : List (State U × Event U)) : Prop :=
  Each (fun before p => goesOn p.2 = true → ∀ q ∈ before, q.2 ≠ .openTunnel false) tr

variable {cfg : Config} {tr : List (State U × Event U)} {s : State U} {e : Event U}

theorem attempts_concat : attempts (tr ++ [(s, e)]) = countCall (attempts tr) e := by
  simp [attempts]

theorem once_before (h : ∀ n ∈ countCall (attempts tr) e, n ≤ 1) : ∀ n ∈ attempts tr, n ≤ 1 := by
  intro n hn
  cases e with
  | connected | connectFails => exact h n (List.mem_cons_of_mem _ hn)
  | openTunnel ok =>
    cases ok with
    | true => exact h n hn
    | false =>
      cases ha : attempts tr with
      | nil => simp [ha] at hn
      | cons m rest =>
        rw [ha] at h hn
        have hm := h (m + 1) List.mem_cons_self
        rcases List.mem_cons.mp hn with rfl | hrest
        · omega
        · exact h n (List.mem_cons_of_mem _ hrest)
  | startReading | announce | portConnect | answer | receive | lost | send | task => exact h n hn

theorem opensOn_append (sent more : List (ℕ × Outgoing U)) (n : ℕ) :
    opensOn (sent ++ more) n = opensOn sent n ++ opensOn more n :=
  List.filterMap_append ..

theorem opensOn_unmade {sent : List (ℕ × Outgoing U)} {n : ℕ} (h : ∀ x ∈ sent, x.1 < n) :
    opensOn sent n = [] := by
  rw [opensOn, List.filterMap_eq_nil_iff]
  rintro ⟨m, x⟩ hx
  have hm : m ≠ n := (h _ hx).ne
  cases x with
  | request r => simp [hm]
  | portConnected | port => rfl

theorem log_bound {ok : Bool} {x : Outgoing U} {n : ℕ} (hs : ∀ y ∈ s.sent, y.1 < n)
    (hc : ∀ m, s.connection = some m → m < n) : ∀ y ∈ log s ok x, y.1 < n := by
  unfold log
  cases hconn : s.connection with
  | none => exact hs
  | some m =>
    cases ok with
    | false => exact hs
    | true =>
      intro y hy
      rcases List.mem_append.mp hy with hy | hy
      · exact hs y hy
      · rw [List.mem_singleton.mp hy]
        exact hc m hconn

theorem opensOn_log {ok : Bool} {x : Outgoing U} {n : ℕ} (hx : ∀ r, x ≠ .request r) :
    opensOn (log s ok x) n = opensOn s.sent n := by
  unfold log
  cases s.connection with
  | none => rfl
  | some m =>
    cases ok with
    | false => rfl
    | true =>
      cases x with
      | request r => exact absurd rfl (hx r)
      | portConnected | port => exact (opensOn_append ..).trans (List.append_nil _)

theorem opensOn_log_request {r : Request} {n : ℕ} (hc : s.connection = some n) :
    opensOn (log s true (.request r)) n = opensOn s.sent n ++ [r] := by
  simp [log, hc, opensOn]

def OnCourse (cfg : Config) (calls : List ℕ) (s : State U) : Prop :=
  match s.loop with
  | .connecting => s.retries = failedInARow calls
  | .opening rest => ∃ before n, calls = 0 :: before ∧ s.retries = failedInARow before ∧
      s.connection = some n ∧ opensOn s.sent n ++ rest = cfg.tunnels.map Tunnel.request
  | .reading | .answering _ _ => calls.head? = some 0 ∧ s.retries = 0
  | .exited => maxConnectRetries < failedInARow calls

structure Fine (cfg : Config) (tr : List (State U × Event U)) (s : State U) : Prop where
  unfailed : ∀ p ∈ tr, p.2 ≠ .openTunnel false
  course : OnCourse cfg (attempts tr) s
  bound : ∀ x ∈ s.sent, x.1 < s.connections
  current : ∀ n, s.connection = some n → n < s.connections

/-- After an open that failed: either that was the last attempt, or the for loop goes on without
a connection. -/
structure Stuck (tr : List (State U × Event U)) (s : State U) : Prop where
  failed : ∃ p ∈ tr, p.2 = .openTunnel false
  counted : ∃ n before, attempts tr = (n + 1) :: before
  place : s.loop = .exited ∧ maxConnectRetries < failedInARow (attempts tr) ∨
    (∃ rest, s.loop = .opening rest) ∧ s.connection = none

theorem failedInARow_succ (n : ℕ) (calls : List ℕ) :
    failedInARow ((n + 1) :: calls) = failedInARow calls + 1 := by
  simp [failedInARow]

theorem failedInARow_zero {calls : List ℕ} (h : calls.head? = some 0) :
    failedInARow calls = 0 := by
  cases calls with
  | nil => cases h
  | cons n rest =>
    obtain rfl : n = 0 := by simpa using h
    simp [failedInARow]

theorem onCourse_congr {calls : List ℕ} {t : State U} (h : OnCourse cfg calls s)
    (hloop : t.loop = s.loop) (hretries : t.retries = s.retries)
    (hconn : t.connection = s.connection) (hsent : ∀ n, opensOn t.sent n = opensOn s.sent n) :
    OnCourse cfg calls t := by
  simpa only [OnCourse, hloop, hretries, hconn, hsent] using h

section Steps

variable [DecidableEq U]

omit [DecidableEq U] in
theorem onCourse_connectFailure {calls : List ℕ} (h : s.retries = failedInARow calls) :
    OnCourse cfg (1 :: calls) (connectFailure s .connecting) := by
  by_cases hmany : maxConnectRetries < s.retries + 1
  · simp only [OnCourse, connectFailure, if_pos hmany, failedInARow_succ, ← h]
    exact hmany
  · simp only [OnCourse, connectFailure, if_neg hmany, failedInARow_succ, ← h]

theorem course_next (h : Fine cfg tr s) (he : Enabled cfg s e) (hne : e ≠ .openTunnel false) :
    OnCourse cfg (countCall (attempts tr) e) (next cfg s e) := by
  have hcourse := h.course
  cases e with
  | connected =>
    have hloop : s.loop = .connecting := he
    simp only [OnCourse, hloop] at hcourse
    exact ⟨_, s.connections, rfl, hcourse, rfl, by rw [next, opensOn_unmade h.bound]; rfl⟩
  | connectFails =>
    have hloop : s.loop = .connecting := he
    simp only [OnCourse, hloop] at hcourse
    exact onCourse_connectFailure hcourse
  | openTunnel ok =>
    cases ok with
    | false => exact absurd rfl hne
    | true =>
      obtain ⟨⟨r, rest, hloop⟩, hconn⟩ := he
      simp only [OnCourse, hloop] at hcourse
      obtain ⟨before, n, hcalls, hretries, hn, hopens⟩ := hcourse
      simp only [next, hloop, if_true, OnCourse, countCall]
      refine ⟨before, n, hcalls, hretries, hn, ?_⟩
      rw [opensOn_log_request hn, ← hopens]
      simp
  | startReading =>
    have hloop : s.loop = .opening [] := he
    simp only [OnCourse, hloop] at hcourse
    obtain ⟨before, n, hcalls, _⟩ := hcourse
    refine ⟨?_, rfl⟩
    change (attempts tr).head? = some 0
    rw [hcalls]
    rfl
  | announce a =>
    exact onCourse_congr hcourse rfl rfl rfl fun _ => rfl
  | receive u m =>
    exact onCourse_congr hcourse rfl rfl rfl fun _ => rfl
  | portConnect u address started =>
    have hloop : s.loop = .reading := he.1.1
    simp only [OnCourse, hloop] at hcourse
    simp only [next]
    split <;> exact hcourse
  | answer ok =>
    obtain ⟨⟨u, started, hloop⟩, _⟩ := he
    simp only [OnCourse, hloop] at hcourse
    simp only [next, hloop]
    exact hcourse
  | lost =>
    have hloop : s.loop = .reading := he.1
    simp only [OnCourse, hloop] at hcourse
    exact hcourse.2.trans (failedInARow_zero hcourse.1).symm
  | send u ok =>
    obtain ⟨_, ⟨m, hm⟩, _⟩ := he
    simp only [next, hm]
    exact onCourse_congr hcourse rfl rfl rfl fun _ => opensOn_log (by simp)
  | task a => exact onCourse_congr hcourse rfl rfl rfl fun _ => rfl

theorem bound_next (hb : ∀ x ∈ s.sent, x.1 < s.connections)
    (hc : ∀ n, s.connection = some n → n < s.connections) (he : Enabled cfg s e) :
    (∀ x ∈ (next cfg s e).sent, x.1 < (next cfg s e).connections) ∧
      ∀ n, (next cfg s e).connection = some n → n < (next cfg s e).connections := by
  cases e with
  | connected =>
    refine ⟨fun x hx => Nat.lt_succ_of_lt (hb x hx), ?_⟩
    intro n hn
    obtain rfl : s.connections = n := by simpa [next] using hn
    exact Nat.lt_succ_self _
  | connectFails => exact ⟨hb, by simp [next, connectFailure]⟩
  | openTunnel ok =>
    obtain ⟨⟨r, rest, hloop⟩, _⟩ := he
    simp only [next, hloop]
    cases ok with
    | true => exact ⟨log_bound hb hc, hc⟩
    | false => exact ⟨hb, by simp [connectFailure]⟩
  | portConnect u address started =>
    simp only [next]
    split <;> exact ⟨hb, hc⟩
  | answer ok =>
    obtain ⟨⟨u, started, hloop⟩, _⟩ := he
    simp only [next, hloop]
    exact ⟨log_bound hb hc, hc⟩
  | send u ok =>
    obtain ⟨_, ⟨m, hm⟩, _⟩ := he
    simp only [next, hm]
    exact ⟨log_bound hb hc, hc⟩
  | startReading | announce | receive | lost | task => exact ⟨hb, hc⟩

theorem fine_next (h : Fine cfg tr s) (he : Enabled cfg s e) (hne : e ≠ .openTunnel false) :
    Fine cfg (tr ++ [(s, e)]) (next cfg s e) := by
  obtain ⟨hb, hc⟩ := bound_next h.bound h.current he
  refine ⟨?_, attempts_concat ▸ course_next h he hne, hb, hc⟩
  intro p hp
  rcases List.mem_append.mp hp with hp | hp
  · exact h.unfailed p hp
  · rw [List.mem_singleton.mp hp]
    exact hne

theorem stuck_of_failed (h : Fine cfg tr s) (he : Enabled cfg s (.openTunnel false)) :
    Stuck (tr ++ [(s, .openTunnel false)]) (next cfg s (.openTunnel false)) ∧
      attempts (tr ++ [(s, .openTunnel false)]) = 1 :: (attempts tr).tail := by
  obtain ⟨⟨r, rest, hloop⟩, _⟩ := he
  have hcourse := h.course
  simp only [OnCourse, hloop] at hcourse
  obtain ⟨before, n, hcalls, hretries, _⟩ := hcourse
  have hnew : attempts (tr ++ [(s, .openTunnel false)]) = 1 :: before := by
    rw [attempts_concat, hcalls]
    rfl
  have htail : 1 :: before = 1 :: (attempts tr).tail := by
    rw [hcalls]
    rfl
  refine ⟨⟨⟨(s, .openTunnel false), by simp, rfl⟩, ⟨0, before, hnew⟩, ?_⟩, hnew.trans htail⟩
  rw [hnew, failedInARow_succ, ← hretries]
  simp only [next, hloop, Bool.false_eq_true, if_false, connectFailure]
  by_cases hmany : maxConnectRetries < s.retries + 1
  · exact Or.inl ⟨if_pos hmany, hmany⟩
  · exact Or.inr ⟨⟨rest, if_neg hmany⟩, trivial⟩

omit [DecidableEq U] in
theorem loop_ne_exited (he : Enabled cfg s e) : s.loop ≠ .exited := by
  intro hx
  cases e with
  | connected | connectFails | startReading => cases hx.symm.trans he
  | openTunnel ok =>
    obtain ⟨⟨r, rest, hloop⟩, _⟩ := he
    cases hx.symm.trans hloop
  | announce | portConnect | receive => cases hx.symm.trans he.1.1
  | answer ok =>
    obtain ⟨⟨u, started, hloop⟩, _⟩ := he
    cases hx.symm.trans hloop
  | lost => cases hx.symm.trans he.1
  | send | task => exact he.1 hx

omit [DecidableEq U] in
/-- Where a step can be taken, the for loop goes on without a connection. -/
theorem Stuck.opening (h : Stuck tr s) (he : Enabled cfg s e) :
    (∃ rest, s.loop = .opening rest) ∧ s.connection = none :=
  h.place.resolve_left fun hx => loop_ne_exited he hx.1

theorem stuck_next (h : Stuck tr s) (he : Enabled cfg s e) (hne : goesOn e = false) :
    Stuck (tr ++ [(s, e)]) (next cfg s e) ∧ attempts (tr ++ [(s, e)]) = attempts tr := by
  obtain ⟨⟨rest, hloop⟩, hconn⟩ := h.opening he
  obtain ⟨p, hp, hfailed⟩ := h.failed
  have hmem : p ∈ tr ++ [(s, e)] := List.mem_append_left _ hp
  cases e with
  | openTunnel | startReading => cases hne
  | connected | connectFails => cases hloop.symm.trans he
  | announce | portConnect | receive => cases hloop.symm.trans he.1.1
  | answer ok =>
    obtain ⟨⟨u, started, hanswering⟩, _⟩ := he
    cases hloop.symm.trans hanswering
  | lost => cases hloop.symm.trans he.1
  | send u ok =>
    obtain ⟨_, ⟨m, hm⟩, _⟩ := he
    have hsame : attempts (tr ++ [(s, .send u ok)]) = attempts tr := attempts_concat
    refine ⟨⟨⟨p, hmem, hfailed⟩, hsame ▸ h.counted, Or.inr ?_⟩, hsame⟩
    simp only [next, hm]
    exact ⟨⟨rest, hloop⟩, hconn⟩
  | task a =>
    have hsame : attempts (tr ++ [(s, .task a)]) = attempts tr := attempts_concat
    exact ⟨⟨⟨p, hmem, hfailed⟩, hsame ▸ h.counted, Or.inr ⟨⟨rest, hloop⟩, hconn⟩⟩, hsame⟩

omit [DecidableEq U] in
theorem not_intended_of_goesOn (h : Stuck tr s) (he : Enabled cfg s e) (hgo : goesOn e = true)
    (t : State U) : ¬ AsIntended cfg (tr ++ [(s, e)]) t := by
  obtain ⟨_, hconn⟩ := h.opening he
  obtain ⟨n, before, hcalls⟩ := h.counted
  intro hi
  cases e with
  | openTunnel ok =>
    cases ok with
    | true => exact he.2 rfl hconn
    | false =>
      have hnew : attempts (tr ++ [(s, .openTunnel false)]) = (n + 1 + 1) :: before := by
        rw [attempts_concat, hcalls]
        rfl
      have hmany := hi.once (n + 1 + 1) (hnew ▸ List.mem_cons_self)
      omega
  | startReading =>
    obtain ⟨n, hn, _⟩ := (each_concat.mp hi.ready).2 rfl
    rw [hconn] at hn
    cases hn
  | _ => cases hgo

omit [DecidableEq U] in
theorem intended_before (he : Enabled cfg s e) {t : State U}
    (h : AsIntended cfg (tr ++ [(s, e)]) t) : AsIntended cfg tr s := by
  refine ⟨once_before (e := e) ?_, (each_concat.mp h.reconnects).1, ?_, (each_concat.mp h.ready).1⟩
  · rw [← attempts_concat (s := s)]
    exact h.once
  · exact fun hx => absurd hx (loop_ne_exited he)

theorem intended_next (h : Fine cfg tr s) (hi : AsIntended cfg tr s) (he : Enabled cfg s e)
    (hne : e ≠ .openTunnel false) : AsIntended cfg (tr ++ [(s, e)]) (next cfg s e) := by
  have hcourse := h.course
  refine ⟨?_, each_concat.mpr ⟨hi.reconnects, ?_⟩, ?_, each_concat.mpr ⟨hi.ready, ?_⟩⟩
  · rw [attempts_concat]
    cases e with
    | connected => exact List.forall_mem_cons.mpr ⟨Nat.zero_le 1, hi.once⟩
    | connectFails => exact List.forall_mem_cons.mpr ⟨Nat.le_refl 1, hi.once⟩
    | openTunnel ok =>
      cases ok with
      | true => exact hi.once
      | false => exact absurd rfl hne
    | startReading | announce | portConnect | answer | receive | lost | send | task =>
      exact hi.once
  · rintro rfl
    obtain ⟨⟨r, rest, hloop⟩, _⟩ := he
    simp only [OnCourse, hloop] at hcourse
    obtain ⟨before, n, hcalls, _⟩ := hcourse
    rw [hcalls]
    rfl
  · intro hx
    have hnew := (fine_next h he hne).course
    simpa only [OnCourse, hx] using hnew
  · rintro rfl
    have hloop : s.loop = .opening [] := he
    simp only [OnCourse, hloop] at hcourse
    obtain ⟨before, n, _, _, hn, hopens⟩ := hcourse
    exact ⟨n, hn, by simpa using hopens⟩

/-- In a run np deals with failures as intended exactly when no open fails to be sent, but for
one at which it gives up. -/
theorem failures_handled_iff (cfg : Config) {tr : List (State U × Event U)} {s : State U}
    (hr : Run (run cfg) tr s) : AsIntended cfg tr s ↔ OpensSucceed tr := by
  suffices hall : (AsIntended cfg tr s ∧ OpensSucceed tr ∧ (Fine cfg tr s ∨ Stuck tr s)) ∨
      (¬ AsIntended cfg tr s ∧ ¬ OpensSucceed tr) by
    rcases hall with ⟨hi, ho, _⟩ | ⟨hi, ho⟩
    · exact iff_of_true hi ho
    · exact iff_of_false hi ho
  induction hr with
  | refl =>
    refine Or.inl ⟨⟨by simp [attempts], each_nil, ?_, each_nil⟩, each_nil, Or.inl ?_⟩
    · intro hx
      cases hx
    · exact ⟨by simp, rfl, by simp [run, initial], by simp [run, initial]⟩
  | @tail tr t e _ he ih =>
    rcases ih with ⟨hi, ho, hfine | hstuck⟩ | ⟨hi, ho⟩
    · have ho' : OpensSucceed (tr ++ [(t, e)]) :=
        each_concat.mpr ⟨ho, fun _ => hfine.unfailed⟩
      by_cases hf : e = .openTunnel false
      · subst hf
        obtain ⟨hstuck, hcalls⟩ := stuck_of_failed hfine he
        refine Or.inl ⟨⟨?_, each_concat.mpr ⟨hi.reconnects, by simp⟩, ?_,
          each_concat.mpr ⟨hi.ready, by simp⟩⟩, ho', Or.inr hstuck⟩
        · rw [hcalls]
          refine List.forall_mem_cons.mpr ⟨Nat.le_refl 1, fun n hn => ?_⟩
          exact hi.once n (List.mem_of_mem_tail hn)
        · intro hx
          rcases hstuck.place with hexit | ⟨⟨rest, hloop⟩, _⟩
          · exact hexit.2
          · cases hx.symm.trans hloop
      · exact Or.inl ⟨intended_next hfine hi he hf, ho', Or.inl (fine_next hfine he hf)⟩
    · cases hgo : goesOn e with
      | true =>
        refine Or.inr ⟨not_intended_of_goesOn hstuck he hgo _, fun ho' => ?_⟩
        obtain ⟨p, hp, hfailed⟩ := hstuck.failed
        exact (each_concat.mp ho').2 hgo p hp hfailed
      | false =>
        obtain ⟨hstuck', hcalls⟩ := stuck_next hstuck he hgo
        refine Or.inl ⟨⟨hcalls ▸ hi.once, each_concat.mpr ⟨hi.reconnects, ?_⟩, ?_,
          each_concat.mpr ⟨hi.ready, ?_⟩⟩, each_concat.mpr ⟨ho, ?_⟩, Or.inr hstuck'⟩
        · rintro rfl
          cases hgo
        · intro hx
          rcases hstuck'.place with hexit | ⟨⟨rest, hloop⟩, _⟩
          · exact hexit.2
          · cases hx.symm.trans hloop
        · rintro rfl
          cases hgo
        · intro hgo'
          rw [hgo] at hgo'
          cases hgo'
    · refine Or.inr ⟨fun h => hi (intended_before he h), fun h => ho (each_concat.mp h).1⟩

end Steps

theorem opensSucceed_of_none (h : ∀ p ∈ tr, p.2 ≠ .openTunnel false) : OpensSucceed tr := by
  intro before p after hl _ q hq
  exact h q (by simp [hl, hq])

def tunnel (port : UInt16) : Tunnel := .tcp none ⟨none, port⟩

def twoTunnels : Config := ⟨[tunnel 8000, tunnel 8001], some "nport.io"⟩

def secondAttempt : List (Event Unit) :=
  [.connectFails, .connected, .openTunnel true, .openTunnel true, .startReading]

theorem failures_handled_second_attempt :
    AsIntended twoTunnels (trace (run twoTunnels) initial secondAttempt)
      (replay (run twoTunnels) initial secondAttempt) := by
  have haccepts : Accepts (run twoTunnels) initial secondAttempt := by decide
  have hsent : ∀ p ∈ trace (run twoTunnels) initial secondAttempt, p.2 ≠ .openTunnel false := by
    decide
  exact (failures_handled_iff twoTunnels (path_of_accepts haccepts)).mpr
    (opensSucceed_of_none hsent)

/-- The connection is lost at the first of two tunnels. -/
def lostAtFirst : List (Event Unit) :=
  [.connected, .openTunnel false, .openTunnel false, .startReading]

def sixTunnels : Config :=
  ⟨[tunnel 8000, tunnel 8001, tunnel 8002, tunnel 8003, tunnel 8004, tunnel 8005],
    some "nport.io"⟩

def lostAtFirstOfSix : List (Event Unit) :=
  .connected :: List.replicate 6 (.openTunnel false)

/-- One failed attempt calls connect_failure for each tunnel: np reads without a connection, or
gives up at once. -/
theorem failed_open_repeats :
    (∃ tr s, Run (run (U := Unit) twoTunnels) tr s ∧ attempts tr = [2] ∧ s.loop = .reading ∧
      s.connection = none ∧ s.retries = 0 ∧ ¬ AsIntended twoTunnels tr s) ∧
    ∃ tr s, Run (run (U := Unit) sixTunnels) tr s ∧ s.loop = .exited ∧
      failedInARow (attempts tr) = 1 ∧ ¬ AsIntended sixTunnels tr s := by
  have htwo : Accepts (run twoTunnels) initial lostAtFirst := by decide
  have hsix : Accepts (run sixTunnels) initial lostAtFirstOfSix := by decide
  refine ⟨⟨_, _, path_of_accepts htwo, by decide, by decide, by decide, by decide, ?_⟩,
    ⟨_, _, path_of_accepts hsix, by decide, by decide, ?_⟩⟩
  · exact fun h => absurd (h.once 2 (by decide)) (by decide)
  · exact fun h => absurd (h.givesUp (by decide)) (by decide)

end ConnectionLoop
