import Nport.ConnectRequest
import Mathlib.Data.Fintype.Basic

/-! What ends the session loop of the server when np is honest: its own receive error, or
a PortReceive or PortClose for a uuid that has no writer. The error of port_message goes
through msg to handle_socket, which leaves its loop; np only logs the same error. -/
namespace SessionSurvival

open GuardedMachine
open PortTask
open Link
open Tunnel
open ConnectRequest

variable {U : Type*} [DecidableEq U]

/-- port_message looks for a uuid whose task has not begun or has removed its writer. -/
def Missed (s : State U) (e : Event U) : Prop :=
  e = .server .lookup ∧ ∃ u m, s.server.dispatcher = .lookup u m ∧
    (s.server.port u).phase.present = false

structure Serving (s : State U) : Prop where
  base : Tunnel.Invariant s
  pending : Pending s
  running : s.server.running = true

variable {s t : State U} {e : Event U}

omit [DecidableEq U] in
theorem registered_iff_present {s : Endpoint.State U} (hi : Endpoint.Invariant s)
    (running : s.running = true) (u : U) :
    (s.port u).registered = true ↔ (s.port u).phase.present = true :=
  ⟨hi.started u, hi.kept (hi.lives running) u⟩

theorem stopped_by {s : Endpoint.State U} (hi : Endpoint.Invariant s)
    {a : Endpoint.Event U} (ha : Endpoint.Enabled Endpoint.server s a)
    (before : s.running = true)
    (after : (Endpoint.next Endpoint.server s a).running = false) :
    a = .stop ∨ (a = .lookup ∧ ∃ u m, s.dispatcher = .lookup u m ∧
      (s.port u).phase.present = false) := by
  have same (hb : s.running = false) : False := by
    rw [before] at hb
    cases hb
  cases a with
  | stop => exact Or.inl rfl
  | lookup =>
    obtain ⟨⟨u, m, hd⟩, _⟩ := ha
    refine Or.inr ⟨rfl, u, m, hd, ?_⟩
    by_cases hr : (s.port u).registered = true
    · exact absurd (by simpa [Endpoint.next, hd, hr] using after) same
    · have hp := mt (registered_iff_present hi before u).mpr hr
      simpa using hp
  | enqueue =>
    obtain ⟨u, m, hd, _⟩ := ha
    exact absurd (by simpa [Endpoint.next, hd] using after) same
  | refuse =>
    obtain ⟨u, m, hd, hp⟩ := ha
    rw [hi.started u (hi.held u m hd)] at hp
    cases hp
  | register | receive | pop | closed | write | wrote | writeFail | read | send | teardown
  | remove | clear | drop => exact absurd after same

theorem step_serving (h : Serving s) (hstep : Step s e t) (quiet : e ≠ .server .stop)
    (found : ¬ Missed s e) : Serving t := by
  refine ⟨Tunnel.step_invariant h.base hstep, step_pending h.pending hstep, ?_⟩
  by_contra hn
  have hn : t.server.running = false := by simpa using hn
  rcases hstep.atServer with hs | ⟨a, ha, hs, hl, _⟩
  · rw [hs, h.running] at hn
    cases hn
  · rw [hs] at hn
    rcases stopped_by h.base.server ha h.running hn with rfl | ⟨rfl, hmiss⟩
    · rcases hl trivial with he | ⟨_, u, ok, rest, hu, hc⟩
      · exact quiet he
      · rw [h.pending.found hu] at hc
        cases hc
    · obtain rfl : e = .server .lookup := by simpa using hl trivial
      exact found ⟨rfl, hmiss⟩

theorem missed_stops (h : Serving s) (hm : Missed s e) : (next s e).server.running = false := by
  obtain ⟨rfl, u, m, hd, hp⟩ := hm
  have hr : (s.server.port u).registered = false := by
    have hn := mt (registered_iff_present h.base.server h.running u).mp (by simp [hp])
    simpa using hn
  simp [next, Endpoint.next, hd, hr, Endpoint.failDispatch, Endpoint.server]

/-- In a session whose websocket does not fail, the loop of handle_socket runs on exactly
when every message it hands to port_message finds the task of its uuid. -/
theorem session_survives_iff {tr : List (State U × Event U)} {s : State U}
    (h : Run tunnel tr s) (quiet : ∀ p ∈ tr, p.2 ≠ .server .stop) :
    (∀ t ∈ visited tr s, t.server.running = true) ↔ ∀ p ∈ tr, ¬ Missed p.1 p.2 := by
  have hiff := Path.forall_visited_iff (J := Serving)
    (P := fun t => t.server.running = true)
    (C := fun t e => e ≠ .server .stop ∧ ¬ Missed t e)
    (fun _ _ hj he hc => step_serving hj (next_step he) hc.1 hc.2) (fun _ hj => hj.running)
    ?_ h ⟨Tunnel.initial_invariant, initial_pending, rfl⟩
  · rw [hiff]
    exact ⟨fun hc p hp => (hc p hp).2, fun hc p hp => ⟨quiet p hp, hc p hp⟩⟩
  · intro t e hj he hc hrun
    have hrun : (next t e).server.running = true := hrun
    have stopped : (next t e).server.running = false := by
      by_cases hs : e = .server .stop
      · subst hs; rfl
      · exact missed_stops hj (by simpa [hs] using hc)
    rw [hrun] at stopped
    cases stopped

theorem lookup_keeps_ports (s : State U) :
    (next s (.server .lookup)).server.port = s.server.port := by
  simp only [next, Endpoint.next]
  split
  · split <;> rfl
  · rfl

/-- Two connections. The external peer of the first closes while a frame of np for it is
under way; the frame comes to a server that has removed the writer. -/
def peerClosesEarly : List (Event Bool) :=
  establish true ++ establish false ++
    [.np (.read false (.size [1])), .server (.read false (.size [])),
      .serverSend false true true, .server (.teardown false), .server (.remove false),
      .npSend false true true, .serverReceive, .server .lookup]

theorem peerClosesEarly_accepted : Accepts tunnel initial peerClosesEarly := by decide

theorem peer_closing_early_ends_session :
    ∃ (tr : List (State Bool × Event Bool)) (s : State Bool), Run tunnel tr s ∧
      (∀ p ∈ tr, p.2 ≠ .server .stop) ∧ (s.server.port false).phase = .ended .eof ∧
      (s.server.port true).phase = .select ∧ s.server.running = false := by
  exact ⟨_, _, path_of_accepts peerClosesEarly_accepted, by decide, by decide, by decide,
    by decide⟩

theorem peer_closing_early_misses :
    ¬ ∀ p ∈ trace tunnel initial peerClosesEarly, ¬ Missed p.1 p.2 := by
  intro hfound
  have hrun := path_of_accepts peerClosesEarly_accepted
  have halive := (session_survives_iff hrun (by decide)).mpr hfound _
    (List.mem_append_right _ (List.mem_singleton.mpr rfl))
  revert halive
  decide

end SessionSurvival
