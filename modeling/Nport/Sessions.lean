import Nport.HttpOpen
import Nport.Registry
import Nport.Tally

/-! The handle_socket tasks of all clients over the registry they share, with the accept loops
they start and the three gauges. A step is what a task does up to its next await; every send
and every receive may fail. -/
namespace Sessions

open GuardedMachine
open Registry (Hostname)
open HttpOpen (HttpOpenError)
open Tally

/-- Where the handle_socket task of a client stands. -/
inductive Phase where
  | unborn
  | welcoming
  /-- the welcome message could not be sent, the task has returned -/
  | failed
  | connected
  | reading
  | opening (hostname : Hostname)
  | adding (hostname : Hostname)
  /-- claimed and added, http_hostnames().inc() is next -/
  | opened
  | closing (hostname : Hostname)
  | unclaiming (hostname : Hostname)
  /-- released, http_hostnames().dec() is next -/
  | closed
  | binding
  | replying
  | handling
  /-- out of the loop, deregister is next -/
  | leaving
  | deregistering
  | clearing
  /-- deregistered, client_connections().dec() is next -/
  | departed
  | returned
  deriving DecidableEq, Repr

def Phase.task : Phase → Registry.Task
  | .unborn => .unborn
  | .adding hostname => .claiming hostname
  | .unclaiming hostname => .releasing hostname
  | .deregistering => .deregistering
  | .clearing => .clearing
  | .departed | .returned => .gone
  | _ => .idle

inductive Loop where
  | unborn
  | listening
  /-- in serve_socket -/
  | serving
  /-- left with break -/
  | broken
  /-- left through the closer -/
  | closed
  deriving DecidableEq, Repr

structure State (C P : Type*) where
  registry : Registry.State C
  phase : C → Phase
  loops : P → Loop
  httpHostnames : ℤ
  tcpPorts : ℤ
  clientConnections : ℤ

variable {C P : Type*} [DecidableEq C] [DecidableEq P]

def initial : State C P := ⟨Registry.initial, fun _ => .unborn, fun _ => .unborn, 0, 0, 0⟩

/-- A decoded message, with the result of the checks its handler begins with. -/
inductive Incoming where
  | empty
  | httpOpen (hostname : Except HttpOpenError Hostname)
  | httpClose (hostname : Hostname)
  | portOpen (valid : Bool)
  /-- HttpResponse, PortConnected, PortReceive and PortClose -/
  | other
  deriving DecidableEq

/-- msghandlers::msg, up to the first thing that can wait. -/
def Incoming.dispatch : Incoming → Phase
  | .empty => .reading
  | .httpOpen (.ok hostname) => .opening hostname
  | .httpOpen (.error _) => .replying
  | .httpClose hostname => .closing hostname
  | .portOpen true => .binding
  | .portOpen false => .replying
  | .other => .handling

inductive Event (C P : Type*) where
  | register (c : C)
  | welcome (c : C) (sent : Bool)
  | countConnection (c : C)
  | receive (c : C) (message : Incoming)
  | failReceive (c : C)
  | claim (c : C) (hostname : Hostname)
  | add (c : C) (hostname : Hostname)
  | countHostname (c : C)
  | release (c : C) (hostname : Hostname)
  | unclaim (c : C) (hostname : Hostname)
  | uncountHostname (c : C)
  /-- port_server::server: the gauge is incremented and the loop spawned -/
  | bind (c : C) (p : P)
  | failBind (c : C)
  | reply (c : C) (sent : Bool)
  | handled (c : C) (ok : Bool)
  | deregister (c : C)
  | lockClaimed (c : C)
  | clear (c : C)
  | uncountConnection (c : C)
  | accept (p : P)
  | served (p : P) (goesOn : Bool)
  | close (p : P)
  deriving DecidableEq

def Event.onRegistry : Event C P → Option (Registry.Event C)
  | .register c => some (.register c)
  | .claim c h => some (.claimHttpHostname c h)
  | .add c h => some (.addHttpHostname c h)
  | .release c h => some (.releaseHttpHostname c h)
  | .unclaim c h => some (.unclaim c h)
  | .deregister c => some (.deregister c)
  | .lockClaimed c => some (.lockClaimed c)
  | .clear c => some (.clear c)
  | _ => none

def Event.needs (sendWelcomeMessage : Bool) (s : State C P) : Event C P → Prop
  | .register c => s.phase c = .unborn
  | .welcome c sent => s.phase c = .welcoming ∧ (sendWelcomeMessage = false → sent = true)
  | .countConnection c => s.phase c = .connected
  | .receive c _ => s.phase c = .reading
  | .failReceive c => s.phase c = .reading
  | .claim c h => s.phase c = .opening h
  | .add c h => s.phase c = .adding h
  | .countHostname c => s.phase c = .opened
  | .release c h => s.phase c = .closing h
  | .unclaim c h => s.phase c = .unclaiming h
  | .uncountHostname c => s.phase c = .closed
  | .bind c p => s.phase c = .binding ∧ s.loops p = .unborn
  | .failBind c => s.phase c = .binding
  | .reply c _ => s.phase c = .replying
  | .handled c _ => s.phase c = .handling
  | .deregister c => s.phase c = .leaving
  | .lockClaimed c => s.phase c = .deregistering
  | .clear c => s.phase c = .clearing
  | .uncountConnection c => s.phase c = .departed
  | .accept p => s.loops p = .listening
  | .served p _ => s.loops p = .serving
  | .close p => s.loops p = .listening

def Enabled (sendWelcomeMessage : Bool) (s : State C P) (e : Event C P) : Prop :=
  e.needs sendWelcomeMessage s ∧ ∀ r ∈ e.onRegistry, Registry.Enabled s.registry r

instance (sendWelcomeMessage : Bool) (s : State C P) (e : Event C P) :
    Decidable (e.needs sendWelcomeMessage s) := by
  cases e <;> simp only [Event.needs] <;> infer_instance

instance (sendWelcomeMessage : Bool) (s : State C P) (e : Event C P) :
    Decidable (Enabled sendWelcomeMessage s e) :=
  inferInstanceAs (Decidable (_ ∧ ∀ r ∈ e.onRegistry, _))

def State.enter (s : State C P) (c : C) (phase : Phase) : State C P :=
  { s with phase := Function.update s.phase c phase }

def State.setLoop (s : State C P) (p : P) (loop : Loop) : State C P :=
  { s with loops := Function.update s.loops p loop }

def State.act (s : State C P) (r : Registry.Event C) : State C P :=
  { s with registry := Registry.next s.registry r }

def next (s : State C P) : Event C P → State C P
  | .register c => (s.act (.register c)).enter c .welcoming
  | .welcome c sent => s.enter c (if sent then .connected else .failed)
  | .countConnection c =>
    { s.enter c .reading with clientConnections := s.clientConnections + 1 }
  | .receive c message => s.enter c message.dispatch
  | .failReceive c => s.enter c .leaving
  | .claim c h =>
    (s.act (.claimHttpHostname c h)).enter c
      (if Registry.claimResult s.registry h then .adding h else .replying)
  | .add c h => (s.act (.addHttpHostname c h)).enter c .opened
  | .countHostname c => { s.enter c .replying with httpHostnames := s.httpHostnames + 1 }
  | .release c h =>
    (s.act (.releaseHttpHostname c h)).enter c
      (if Registry.releaseResult s.registry c h then .unclaiming h else .replying)
  | .unclaim c h => (s.act (.unclaim c h)).enter c .closed
  | .uncountHostname c => { s.enter c .replying with httpHostnames := s.httpHostnames - 1 }
  | .bind c p => { (s.enter c .replying).setLoop p .listening with tcpPorts := s.tcpPorts + 1 }
  | .failBind c => s.enter c .replying
  | .reply c sent => s.enter c (if sent then .reading else .leaving)
  | .handled c ok => s.enter c (if ok then .reading else .leaving)
  | .deregister c =>
    (s.act (.deregister c)).enter c
      (if c ∈ s.registry.clients then .deregistering else .departed)
  | .lockClaimed c => (s.act (.lockClaimed c)).enter c .clearing
  | .clear c => (s.act (.clear c)).enter c .departed
  | .uncountConnection c =>
    { s.enter c .returned with clientConnections := s.clientConnections - 1 }
  | .accept p => s.setLoop p .serving
  | .served p goesOn => s.setLoop p (if goesOn then .listening else .broken)
  | .close p => { s.setLoop p .closed with tcpPorts := s.tcpPorts - 1 }

def server (sendWelcomeMessage : Bool) : Machine (State C P) (Event C P) :=
  ⟨initial, Enabled sendWelcomeMessage, next⟩

instance (sendWelcomeMessage : Bool) (s : State C P) (e : Event C P) :
    Decidable ((server sendWelcomeMessage).Enabled s e) :=
  inferInstanceAs (Decidable (Enabled sendWelcomeMessage s e))

/-- The registry part is a state of the registry, and agrees with every phase. -/
structure Invariant (s : State C P) : Prop where
  registry : Registry.Invariant s.registry
  task : ∀ c, s.registry.task c = (s.phase c).task

omit [DecidableEq C] [DecidableEq P] in
theorem initial_invariant : Invariant (initial : State C P) :=
  ⟨Registry.initial_invariant, fun _ => rfl⟩

theorem next_registry (s : State C P) (e : Event C P) :
    (next s e).registry =
      match e.onRegistry with
      | some r => Registry.next s.registry r
      | none => s.registry := by
  cases e <;> rfl

/-- The client whose task takes a step; none for a step of an accept loop. -/
def Event.client : Event C P → Option C
  | .register c | .welcome c _ | .countConnection c | .receive c _ | .failReceive c
  | .claim c _ | .add c _ | .countHostname c | .release c _ | .unclaim c _
  | .uncountHostname c | .bind c _ | .failBind c | .reply c _ | .handled c _
  | .deregister c | .lockClaimed c | .clear c | .uncountConnection c => some c
  | .accept _ | .served _ _ | .close _ => none

theorem phase_other (s : State C P) {e : Event C P} {d : C} (hd : e.client ≠ some d) :
    (next s e).phase d = s.phase d := by
  cases e <;> simp_all [Event.client, next, State.act, State.enter, State.setLoop,
    Function.update_of_ne, Ne.symm]

omit [DecidableEq C] [DecidableEq P] in
theorem client_of_onRegistry {e : Event C P} {r : Registry.Event C}
    (hr : e.onRegistry = some r) : e.client = some r.client := by
  cases e <;> cases hr <;> rfl

theorem task_other (s : State C P) {e : Event C P} {d : C} (hd : e.client ≠ some d) :
    (next s e).registry.task d = s.registry.task d := by
  rw [next_registry]
  cases hr : e.onRegistry with
  | none => rfl
  | some r =>
    have hne : d ≠ r.client := by
      rintro rfl
      exact hd (client_of_onRegistry hr)
    exact (Registry.next_other s.registry hne).1

theorem step_preserves_task {w : Bool} {s : State C P} (hi : Invariant s) {e : Event C P}
    (he : Enabled w s e) (d : C) :
    (next s e).registry.task d = ((next s e).phase d).task := by
  obtain ⟨hphase, -⟩ := he
  by_cases hd : e.client = some d
  · have ht := hi.task d
    cases e with
    | register c =>
      obtain rfl : c = d := Option.some.inj hd
      simp [next, State.act, State.enter, Registry.next, Phase.task]
    | welcome c sent =>
      obtain rfl : c = d := Option.some.inj hd
      rw [show s.phase c = _ from hphase.1] at ht
      cases sent <;> simpa [next, State.enter, State.setLoop, Phase.task] using ht
    | countConnection c =>
      obtain rfl : c = d := Option.some.inj hd
      rw [show s.phase c = _ from hphase] at ht
      simpa [next, State.enter, State.setLoop, Phase.task] using ht
    | receive c message =>
      obtain rfl : c = d := Option.some.inj hd
      rw [show s.phase c = _ from hphase] at ht
      have hidle : message.dispatch.task = .idle := by
        rcases message with _ | (_ | _) | _ | (_ | _) | _ <;> rfl
      simp only [next, State.enter, Function.update_self, hidle]
      exact ht
    | failReceive c =>
      obtain rfl : c = d := Option.some.inj hd
      rw [show s.phase c = _ from hphase] at ht
      simpa [next, State.enter, State.setLoop, Phase.task] using ht
    | claim c h =>
      obtain rfl : c = d := Option.some.inj hd
      rw [show s.phase c = _ from hphase] at ht
      by_cases hh : h ∈ s.registry.claimedHttpHostnames
      · simpa [next, State.act, State.enter, Registry.next, Registry.claimResult, hh,
          Phase.task] using ht
      · simp [next, State.act, State.enter, Registry.next, Registry.claimResult, hh, Phase.task]
    | add c h =>
      obtain rfl : c = d := Option.some.inj hd
      simp [next, State.act, State.enter, Registry.next, Phase.task]
    | countHostname c =>
      obtain rfl : c = d := Option.some.inj hd
      rw [show s.phase c = _ from hphase] at ht
      simpa [next, State.enter, State.setLoop, Phase.task] using ht
    | release c h =>
      obtain rfl : c = d := Option.some.inj hd
      rw [show s.phase c = _ from hphase] at ht
      by_cases hh : h ∈ s.registry.hostnames c
      · simp [next, State.act, State.enter, Registry.next, Registry.releaseResult, hh, Phase.task]
      · simpa [next, State.act, State.enter, Registry.next, Registry.releaseResult, hh,
          Phase.task] using ht
    | unclaim c h =>
      obtain rfl : c = d := Option.some.inj hd
      simp [next, State.act, State.enter, Registry.next, Phase.task]
    | uncountHostname c =>
      obtain rfl : c = d := Option.some.inj hd
      rw [show s.phase c = _ from hphase] at ht
      simpa [next, State.enter, State.setLoop, Phase.task] using ht
    | bind c p =>
      obtain rfl : c = d := Option.some.inj hd
      rw [show s.phase c = _ from hphase.1] at ht
      simpa [next, State.enter, State.setLoop, Phase.task] using ht
    | failBind c =>
      obtain rfl : c = d := Option.some.inj hd
      rw [show s.phase c = _ from hphase] at ht
      simpa [next, State.enter, State.setLoop, Phase.task] using ht
    | reply c sent =>
      obtain rfl : c = d := Option.some.inj hd
      rw [show s.phase c = _ from hphase] at ht
      cases sent <;> simpa [next, State.enter, State.setLoop, Phase.task] using ht
    | handled c ok =>
      obtain rfl : c = d := Option.some.inj hd
      rw [show s.phase c = _ from hphase] at ht
      cases ok <;> simpa [next, State.enter, State.setLoop, Phase.task] using ht
    | deregister c =>
      obtain rfl : c = d := Option.some.inj hd
      cases hx : s.registry.clients.idxOf? c with
      | some i =>
        have hc : c ∈ s.registry.clients := by
          by_contra hc
          rw [List.idxOf?_eq_none_iff.mpr hc] at hx
          cases hx
        simp [next, State.act, State.enter, Registry.next, hx, hc, Phase.task]
      | none =>
        have hc : c ∉ s.registry.clients := List.idxOf?_eq_none_iff.mp hx
        simp [next, State.act, State.enter, Registry.next, hx, hc, Phase.task]
    | lockClaimed c =>
      obtain rfl : c = d := Option.some.inj hd
      simp [next, State.act, State.enter, Registry.next, Phase.task]
    | clear c =>
      obtain rfl : c = d := Option.some.inj hd
      simp [next, State.act, State.enter, Registry.next, Phase.task]
    | uncountConnection c =>
      obtain rfl : c = d := Option.some.inj hd
      rw [show s.phase c = _ from hphase] at ht
      simpa [next, State.enter, State.setLoop, Phase.task] using ht
    | accept => cases hd
    | served => cases hd
    | close => cases hd
  · rw [phase_other s hd, task_other s hd]
    exact hi.task d

theorem step_preserves_invariant {w : Bool} {s : State C P} (hi : Invariant s) {e : Event C P}
    (he : Enabled w s e) : Invariant (next s e) := by
  refine ⟨?_, step_preserves_task hi he⟩
  rw [next_registry]
  cases hr : e.onRegistry with
  | none => exact hi.registry
  | some r => exact Registry.step_preserves_invariant hi.registry (he.2 r hr)

theorem reachable_invariant {w : Bool} {s : State C P} (h : Reachable (server w) s) :
    Invariant s :=
  Reachable.invariant (M := server w) initial_invariant
    (fun _ _ hi he => step_preserves_invariant hi he) h

/-! What is left of a client whose task has returned. -/

def Ended (s : State C P) (c : C) : Prop := s.phase c = .failed ∨ s.phase c = .returned

def Cleaned (s : State C P) (c : C) : Prop :=
  c ∉ s.registry.clients ∧
    ∀ h ∈ s.registry.claimedHttpHostnames, ∃ d, d ≠ c ∧ h ∈ Registry.holds s.registry d

inductive PhaseStep (s : State C P) (c : C) : Event C P → Phase → Phase → Prop where
  | other {e x} : e.client ≠ some c → PhaseStep s c e x x
  | register : PhaseStep s c (.register c) .unborn .welcoming
  | welcomed : PhaseStep s c (.welcome c true) .welcoming .connected
  | failed : PhaseStep s c (.welcome c false) .welcoming .failed
  | counted : PhaseStep s c (.countConnection c) .connected .reading
  | receive {m} : PhaseStep s c (.receive c m) .reading m.dispatch
  | failReceive : PhaseStep s c (.failReceive c) .reading .leaving
  | claimed {h} : Registry.claimResult s.registry h = true →
      PhaseStep s c (.claim c h) (.opening h) (.adding h)
  | refused {h} : Registry.claimResult s.registry h = false →
      PhaseStep s c (.claim c h) (.opening h) .replying
  | add {h} : PhaseStep s c (.add c h) (.adding h) .opened
  | countHostname : PhaseStep s c (.countHostname c) .opened .replying
  | released {h} : Registry.releaseResult s.registry c h = true →
      PhaseStep s c (.release c h) (.closing h) (.unclaiming h)
  | notOwned {h} : Registry.releaseResult s.registry c h = false →
      PhaseStep s c (.release c h) (.closing h) .replying
  | unclaim {h} : PhaseStep s c (.unclaim c h) (.unclaiming h) .closed
  | uncountHostname : PhaseStep s c (.uncountHostname c) .closed .replying
  | bind {p} : s.loops p = .unborn → PhaseStep s c (.bind c p) .binding .replying
  | failBind : PhaseStep s c (.failBind c) .binding .replying
  | replied : PhaseStep s c (.reply c true) .replying .reading
  | failReply : PhaseStep s c (.reply c false) .replying .leaving
  | handled : PhaseStep s c (.handled c true) .handling .reading
  | failHandled : PhaseStep s c (.handled c false) .handling .leaving
  | deregister : c ∈ s.registry.clients →
      PhaseStep s c (.deregister c) .leaving .deregistering
  | absent : c ∉ s.registry.clients → PhaseStep s c (.deregister c) .leaving .departed
  | lockClaimed : PhaseStep s c (.lockClaimed c) .deregistering .clearing
  | clear : PhaseStep s c (.clear c) .clearing .departed
  | uncountConnection : PhaseStep s c (.uncountConnection c) .departed .returned

theorem phase_step {w : Bool} {s : State C P} {e : Event C P} (he : Enabled w s e) (c : C) :
    PhaseStep s c e (s.phase c) ((next s e).phase c) := by
  by_cases hd : e.client = some c
  · obtain ⟨hphase, -⟩ := he
    have before {x : Phase} (hx : s.phase c = x) {y : Phase} (hy : (next s e).phase c = y)
        (hstep : PhaseStep s c e x y) : PhaseStep s c e (s.phase c) ((next s e).phase c) := by
      rw [hx, hy]
      exact hstep
    cases e with
    | register d =>
      obtain rfl : d = c := Option.some.inj hd
      exact before hphase (Function.update_self ..) .register
    | welcome d sent =>
      obtain rfl : d = c := Option.some.inj hd
      cases sent with
      | true => exact before hphase.1 (Function.update_self ..) .welcomed
      | false => exact before hphase.1 (Function.update_self ..) .failed
    | countConnection d =>
      obtain rfl : d = c := Option.some.inj hd
      exact before hphase (Function.update_self ..) .counted
    | receive d m =>
      obtain rfl : d = c := Option.some.inj hd
      exact before hphase (Function.update_self ..) .receive
    | failReceive d =>
      obtain rfl : d = c := Option.some.inj hd
      exact before hphase (Function.update_self ..) .failReceive
    | claim d h =>
      obtain rfl : d = c := Option.some.inj hd
      cases hr : Registry.claimResult s.registry h with
      | true => exact before hphase (by simp [next, State.enter, hr]) (.claimed hr)
      | false => exact before hphase (by simp [next, State.enter, hr]) (.refused hr)
    | add d h =>
      obtain rfl : d = c := Option.some.inj hd
      exact before hphase (Function.update_self ..) .add
    | countHostname d =>
      obtain rfl : d = c := Option.some.inj hd
      exact before hphase (Function.update_self ..) .countHostname
    | release d h =>
      obtain rfl : d = c := Option.some.inj hd
      cases hr : Registry.releaseResult s.registry d h with
      | true => exact before hphase (by simp [next, State.enter, hr]) (.released hr)
      | false => exact before hphase (by simp [next, State.enter, hr]) (.notOwned hr)
    | unclaim d h =>
      obtain rfl : d = c := Option.some.inj hd
      exact before hphase (Function.update_self ..) .unclaim
    | uncountHostname d =>
      obtain rfl : d = c := Option.some.inj hd
      exact before hphase (Function.update_self ..) .uncountHostname
    | bind d p =>
      obtain rfl : d = c := Option.some.inj hd
      exact before hphase.1 (Function.update_self ..) (.bind hphase.2)
    | failBind d =>
      obtain rfl : d = c := Option.some.inj hd
      exact before hphase (Function.update_self ..) .failBind
    | reply d sent =>
      obtain rfl : d = c := Option.some.inj hd
      cases sent with
      | true => exact before hphase (Function.update_self ..) .replied
      | false => exact before hphase (Function.update_self ..) .failReply
    | handled d ok =>
      obtain rfl : d = c := Option.some.inj hd
      cases ok with
      | true => exact before hphase (Function.update_self ..) .handled
      | false => exact before hphase (Function.update_self ..) .failHandled
    | deregister d =>
      obtain rfl : d = c := Option.some.inj hd
      by_cases hc : d ∈ s.registry.clients
      · exact before hphase (by simp [next, State.enter, hc]) (.deregister hc)
      · exact before hphase (by simp [next, State.enter, hc]) (.absent hc)
    | lockClaimed d =>
      obtain rfl : d = c := Option.some.inj hd
      exact before hphase (Function.update_self ..) .lockClaimed
    | clear d =>
      obtain rfl : d = c := Option.some.inj hd
      exact before hphase (Function.update_self ..) .clear
    | uncountConnection d =>
      obtain rfl : d = c := Option.some.inj hd
      exact before hphase (Function.update_self ..) .uncountConnection
    | accept => cases hd
    | served => cases hd
    | close => cases hd
  · rw [phase_other s hd]
    exact .other hd

theorem failed_step {w : Bool} {s : State C P} {e : Event C P} (he : Enabled w s e) (c : C) :
    (next s e).phase c ≠ .failed ↔ s.phase c ≠ .failed ∧ e ≠ .welcome c false := by
  generalize hx : s.phase c = x
  generalize hy : (next s e).phase c = y
  cases hx ▸ hy ▸ phase_step he c with
  | other hd =>
    have hne : e ≠ .welcome c false := by
      rintro rfl
      exact hd rfl
    simp [hne]
  | @receive m =>
    have hother : m.dispatch ≠ .failed := by
      rcases m with _ | (_ | _) | _ | (_ | _) | _ <;> simp [Incoming.dispatch]
    simp [hother]
  | _ => simp

omit [DecidableEq C] [DecidableEq P] in
theorem cleaned_of_returned {s : State C P} (hi : Invariant s) {c : C}
    (hc : s.phase c = .returned) : Cleaned s c := by
  have hgone : s.registry.task c = .gone := by
    rw [hi.task c, hc]
    rfl
  refine ⟨hi.registry.unregistered hgone id, ?_⟩
  intro h hh
  obtain ⟨d, hd⟩ := (hi.registry.split.covers h).mp hh
  refine ⟨d, ?_, hd⟩
  rintro rfl
  simp [Registry.holds, Registry.holding, hgone] at hd

omit [DecidableEq C] [DecidableEq P] in
theorem not_cleaned_of_failed {s : State C P} (hi : Invariant s) {c : C}
    (hc : s.phase c = .failed) : ¬ Cleaned s c := by
  have hidle : s.registry.task c = .idle := by
    rw [hi.task c, hc]
    rfl
  exact fun h => h.1 (hi.registry.registered hidle trivial)

theorem not_failed_iff {w : Bool} {s : State C P} {tr : List (State C P × Event C P)}
    (hr : Run (server w) tr s) {c : C} :
    s.phase c ≠ .failed ↔ ∀ p ∈ tr, p.2 ≠ .welcome c false :=
  Path.last_iff (M := server w) (I := fun _ => True) (P := fun t => t.phase c ≠ .failed)
    (C := fun _ e => e ≠ .welcome c false) (fun _ _ _ _ => trivial)
    (fun _ _ _ he => failed_step he c) hr trivial (by simp [server, initial])

/-- When handle_socket has returned for a client, whatever failed on the way, the registry is
clean of it exactly when its welcome message did not fail. -/
theorem ended_cleaned_iff (sendWelcomeMessage : Bool) {s : State C P}
    {tr : List (State C P × Event C P)} (hr : Run (server sendWelcomeMessage) tr s) {c : C}
    (hc : Ended s c) : Cleaned s c ↔ ∀ p ∈ tr, p.2 ≠ .welcome c false := by
  have hi := reachable_invariant ⟨tr, hr⟩
  rw [← not_failed_iff hr]
  constructor
  · intro hclean hf
    exact not_cleaned_of_failed hi hf hclean
  · intro hf
    exact cleaned_of_returned hi (hc.resolve_left hf)

/-- The client hangs up right after the upgrade. -/
def unwelcome : List (Event (Unit) (Unit)) := [.register (), .welcome () false]

/-- A client whose connection breaks while the answer to its HttpOpen is sent. -/
def brokenReply : List (Event (Unit) (Unit)) :=
  [.register (), .welcome () true, .countConnection (),
    .receive () (.httpOpen (.ok "something.localhost")), .claim () "something.localhost",
    .add () "something.localhost", .countHostname (), .reply () false, .deregister (),
    .lockClaimed (), .clear (), .uncountConnection ()]

theorem ended_cleaned_brokenReply :
    Cleaned (replay (server true) initial brokenReply) () := by
  have accepted : Accepts (server true) initial brokenReply := by decide
  apply (ended_cleaned_iff true (path_of_accepts accepted) (Or.inr (by decide))).mpr
  decide

theorem unwelcome_client_stays : ∃ tr s, Run (server (C := Unit) (P := Unit) true) tr s ∧
    Ended s () ∧ ¬ Cleaned s () := by
  have accepted : Accepts (server true) initial unwelcome := by decide
  refine ⟨_, _, path_of_accepts accepted, Or.inl (by decide), ?_⟩
  exact fun h => h.1 (by decide)

end Sessions
