import Nport.Reconnect
import Mathlib.Data.Fintype.Basic

/-! Whether np's tables describe the current session. connect_failure clears them, and a
connection that is lost in the read loop leaves them as they are. -/
namespace CurrentTables

open GuardedMachine
open Libnp
open Forwardings
open Reconnect

variable {U : Type*} {cfg : Config}

def InReadLoop (s : State U) : Prop :=
  s.loop = .reading ∨ ∃ u started, s.loop = .answering u started

structure DescribedBy (l : List Announcement) (t : Tables) : Prop where
  http : ∀ hostname addr, t.http hostname = some addr →
    ∃ msg, .httpOpened msg ∈ l ∧ msg.hostname = hostname ∧ msg.error = none ∧
      Addr.fromAddress msg.localAddress = addr
  port : ∀ origin addr, t.port origin = some addr →
    ∃ msg, .portOpened msg ∈ l ∧ msg.error = none ∧
      portOriginFromRaw msg.protocol msg.remoteAddress = some origin ∧
      Addr.fromAddress msg.localAddress = addr

def Successful : Announcement → Prop
  | .httpOpened msg => msg.error = none
  | .httpClosed _ => False
  | .portOpened msg => msg.error = none

/-- The tables are those of the current connection, and take what it announces next. -/
def Current (cfg : Config) (s : State U) : Prop :=
  InReadLoop s → DescribedBy s.announced s.tables ∧
    ∀ a, Honest cfg s.announced a → Successful a → ∃ t, s.tables.register a = .ok t

/-- The read loop is entered with empty tables. -/
def EntersEmpty (s : State U) : Event U → Prop
  | .startReading => s.tables = .empty
  | _ => True

/-- While the read loop is entered with empty tables: they come from the announcements of the
current connection. -/
structure Invariant (cfg : Config) (s : State U) : Prop where
  unread : ∀ rest, s.loop = .opening rest → s.announced = []
  granted : ∀ msg, .portOpened msg ∈ s.announced → msg.error = none →
    msg.protocol = 0 ∧ ∃ port, msg.remoteAddress = some (Addr.toAddress ⟨cfg.serverHost, port⟩)
  tables : InReadLoop s → s.tables = s.announced.foldl Tables.apply .empty

theorem describedBy_foldl (l : List Announcement) :
    DescribedBy l (l.foldl Tables.apply .empty) := by
  induction l using List.reverseRecOn with
  | nil =>
    constructor
    · intro hostname addr h
      cases h
    · intro origin addr h
      cases h
  | append_singleton l a ih =>
    rw [List.foldl_append]
    constructor
    · intro hostname addr h
      rcases http_from h with hold | ⟨msg, rfl, hnew⟩
      · obtain ⟨msg, hm, hmsg⟩ := ih.http hostname addr hold
        exact ⟨msg, List.mem_append_left _ hm, hmsg⟩
      · exact ⟨msg, by simp, hnew⟩
    · intro origin addr h
      rcases port_from h with hold | ⟨msg, rfl, hnew⟩
      · obtain ⟨msg, hm, hmsg⟩ := ih.port origin addr hold
        exact ⟨msg, List.mem_append_left _ hm, hmsg⟩
      · exact ⟨msg, by simp, hnew⟩

theorem foldl_http_isSome (l : List Announcement) (t : Tables) (hostname : String) :
    ((l.foldl Tables.apply t).http hostname).isSome =
      l.foldl (Announcement.stands hostname) (t.http hostname).isSome := by
  induction l generalizing t with
  | nil => rfl
  | cons a l ih => rw [List.foldl_cons, List.foldl_cons, ih, apply_http_isSome]

theorem Invariant.accepts {s : State U} (hi : Invariant cfg s) (hread : InReadLoop s)
    {a : Announcement} (ha : Honest cfg s.announced a) (hs : Successful a) :
    ∃ t, s.tables.register a = .ok t := by
  have htables := hi.tables hread
  cases a with
  | httpOpened msg =>
    have hvacant : s.tables.http msg.hostname = none := by
      have h := foldl_http_isSome s.announced .empty msg.hostname
      rw [← htables] at h
      simpa [Tables.empty, ha hs] using h
    have herror : msg.error = none := hs
    exact ⟨_, by simp [Tables.register, httpRegister, herror, hvacant]; rfl⟩
  | httpClosed msg => cases hs
  | portOpened msg =>
    have herror : msg.error = none := hs
    obtain ⟨hprotocol, ⟨port, haddress⟩, hfresh⟩ := ha hs
    have horigin : portOriginFromRaw msg.protocol msg.remoteAddress =
        some (portOrigin .tcp ⟨cfg.serverHost, port⟩) := by
      simp [portOriginFromRaw, PortProtocol.tryFrom, hprotocol, haddress,
        Addr.fromAddress_toAddress]
    have hvacant : s.tables.port (portOrigin .tcp ⟨cfg.serverHost, port⟩) = none := by
      by_contra hentry
      obtain ⟨addr, haddr⟩ := Option.ne_none_iff_exists'.mp hentry
      have hdescribed := describedBy_foldl s.announced
      rw [← htables] at hdescribed
      obtain ⟨old, hold, holdError, holdOrigin, _⟩ := hdescribed.port _ _ haddr
      obtain ⟨hp, port', haddress'⟩ := hi.granted old hold holdError
      have hname : portOrigin .tcp ⟨cfg.serverHost, port'⟩ =
          portOrigin .tcp ⟨cfg.serverHost, port⟩ := by
        simpa [portOriginFromRaw, PortProtocol.tryFrom, hp, haddress',
          Addr.fromAddress_toAddress] using holdOrigin
      have hsame := portOrigin_injective hname
      have hold' := hfresh _ hold
      simp [opensAddress, holdError, haddress, haddress', hsame] at hold'
    exact ⟨_, by simp [Tables.register, portRegister, herror, horigin, hvacant]; rfl⟩

theorem Invariant.current {s : State U} (hi : Invariant cfg s) : Current cfg s := by
  intro hread
  refine ⟨?_, fun a ha hs => hi.accepts hread ha hs⟩
  rw [hi.tables hread]
  exact describedBy_foldl _

theorem initial_invariant : Invariant cfg (initial : State U) := by
  constructor
  · intro rest h
    cases h
  · intro msg h
    cases h
  · rintro (h | ⟨u, started, h⟩) <;> cases h

theorem connectFailure_loop {s : State U} {loop l : Loop U}
    (h : (connectFailure s loop).loop = l) : l = .exited ∨ l = loop := by
  simp only [connectFailure] at h
  split at h
  · exact Or.inl h.symm
  · exact Or.inr h.symm

theorem Invariant.connectFailure {s : State U} (hi : Invariant cfg s) {loop : Loop U}
    (hloop : ∀ rest, loop = .opening rest → s.announced = [])
    (hread : loop ≠ .reading ∧ ∀ u started, loop ≠ .answering u started) :
    Invariant cfg (connectFailure s loop) := by
  refine ⟨?_, hi.granted, ?_⟩
  · intro rest h
    rcases connectFailure_loop h with h | h
    · cases h
    · exact hloop rest h.symm
  · rintro (h | ⟨u, started, h⟩)
    · rcases connectFailure_loop h with h | h
      · cases h
      · exact absurd h.symm hread.1
    · rcases connectFailure_loop h with h | h
      · cases h
      · exact absurd h.symm (hread.2 u started)

variable [DecidableEq U]

theorem step_invariant {s : State U} (hi : Invariant cfg s) {e : Event U}
    (he : Enabled cfg s e) (hc : EntersEmpty s e) : Invariant cfg (next cfg s e) := by
  cases e with
  | connected =>
    refine ⟨fun _ _ => rfl, ?_, ?_⟩
    · intro msg h
      cases h
    · rintro (h | ⟨u, started, h⟩) <;> cases h
  | connectFails =>
    apply hi.connectFailure
    · intro rest h
      cases h
    · exact ⟨by simp, by simp⟩
  | openTunnel ok =>
    obtain ⟨⟨r, rest, hl⟩, _⟩ := he
    have hnone := hi.unread _ hl
    cases ok with
    | true =>
      simp only [next, hl, if_true]
      refine ⟨fun _ _ => hnone, hi.granted, ?_⟩
      rintro (h | ⟨u, started, h⟩) <;> cases h
    | false =>
      simp only [next, hl]
      exact hi.connectFailure (fun _ _ => hnone) ⟨by simp, by simp⟩
  | startReading =>
    have hnone := hi.unread _ he
    have hempty : s.tables = .empty := hc
    refine ⟨?_, hi.granted, ?_⟩
    · intro rest h
      cases h
    · intro _
      simp [next, hnone, hempty]
  | announce a =>
    obtain ⟨⟨hl, _⟩, hhonest⟩ := he
    refine ⟨?_, ?_, ?_⟩
    · intro rest h
      have : s.loop = .opening rest := h
      rw [hl] at this
      cases this
    · intro msg hm herror
      rcases List.mem_append.mp hm with hm | hm
      · exact hi.granted msg hm herror
      · obtain rfl := List.mem_singleton.mp hm
        obtain ⟨hp, haddress, _⟩ := hhonest herror
        exact ⟨hp, haddress⟩
    · intro _
      have htables := hi.tables (Or.inl hl)
      simp [next, htables]
  | portConnect u remoteAddress started =>
    obtain ⟨⟨hl, _⟩, _⟩ := he
    have htables := hi.tables (Or.inl hl)
    simp only [next]
    split
    · exact ⟨fun rest h => (by cases h), hi.granted, fun _ => htables⟩
    · exact ⟨fun rest h => (by cases h), hi.granted, fun _ => htables⟩
  | answer ok =>
    obtain ⟨⟨u, started, hl⟩, _⟩ := he
    have htables := hi.tables (Or.inr ⟨u, started, hl⟩)
    simp only [next, hl]
    exact ⟨fun rest h => (by cases h), hi.granted, fun _ => htables⟩
  | receive u m => exact ⟨hi.unread, hi.granted, hi.tables⟩
  | lost =>
    refine ⟨fun rest h => (by cases h), hi.granted, ?_⟩
    rintro (h | ⟨u, started, h⟩) <;> cases h
  | send u ok =>
    simp only [next]
    split <;> exact ⟨hi.unread, hi.granted, hi.tables⟩
  | task e => exact ⟨hi.unread, hi.granted, hi.tables⟩

/-- What is left in the tables was not announced on the new connection. -/
theorem stale_step {s : State U} (hi : Invariant cfg s) {e : Event U} (he : Enabled cfg s e)
    (hc : ¬ EntersEmpty s e) : ¬ Current cfg (next cfg s e) := by
  intro hcurrent
  cases e with
  | startReading =>
    apply hc
    have hnone := hi.unread _ he
    obtain ⟨hdescribed, _⟩ := hcurrent (Or.inl rfl)
    have hnothing : DescribedBy [] s.tables := by simpa [next, hnone] using hdescribed
    have hhttp : s.tables.http = fun _ => none := by
      funext hostname
      by_contra h
      obtain ⟨addr, haddr⟩ := Option.ne_none_iff_exists'.mp h
      obtain ⟨msg, hm, _⟩ := hnothing.http hostname addr haddr
      cases hm
    have hport : s.tables.port = fun _ => none := by
      funext origin
      by_contra h
      obtain ⟨addr, haddr⟩ := Option.ne_none_iff_exists'.mp h
      obtain ⟨msg, hm, _⟩ := hnothing.port origin addr haddr
      cases hm
    exact congrArg₂ Tables.mk hhttp hport
  | connected | connectFails | openTunnel | announce | portConnect | answer | receive | lost
  | send | task => exact hc trivial

/-- np's tables describe the current session in every state of a run exactly when the read
loop is never entered with something left in them. -/
theorem tables_current_iff (cfg : Config) {s : State U} {tr : List (State U × Event U)}
    (hr : Run (run cfg) tr s) :
    (∀ t ∈ visited tr s, Current cfg t) ↔ ∀ p ∈ tr, EntersEmpty p.1 p.2 :=
  Path.forall_visited_iff (M := run cfg) (J := Invariant cfg) (P := Current cfg) (C := EntersEmpty)
    (fun _ _ hi he hc => step_invariant hi he hc) (fun _ hi => hi.current)
    (fun _ _ hi he hc => stale_step hi he hc) hr initial_invariant

def config : Config := ⟨[.http (some "something") ⟨none, 8000⟩], some "nport.io"⟩

def somethingOpened : Announcement :=
  .httpOpened ⟨"something.nport.io", some ⟨none, 8000⟩, none⟩

def interrupted : List (Event (Unit)) :=
  [.connected, .openTunnel true, .startReading, .announce somethingOpened, .lost, .connectFails,
    .connected, .openTunnel true, .startReading, .announce somethingOpened]

/-- A session is lost with its tunnel open, and the server is back at once. -/
def dropped : List (Event (Unit)) :=
  [.connected, .openTunnel true, .startReading, .announce somethingOpened, .lost,
    .connected, .openTunnel true, .startReading]

theorem tables_current_iff_interrupted :
    Current config (replay (run config) initial interrupted) := by
  have haccepts : Accepts (run config) initial interrupted := by decide
  have henters : ∀ p ∈ trace (run config) initial interrupted, EntersEmpty p.1 p.2 := by
    simp only [interrupted, trace, List.forall_mem_cons, List.not_mem_nil, false_implies,
      implies_true, and_true]
    exact ⟨trivial, trivial, rfl, trivial, trivial, trivial, trivial, trivial, rfl, trivial⟩
  have hall := (tables_current_iff config (path_of_accepts haccepts)).mpr henters
  exact hall _ (List.mem_append_right _ (List.mem_singleton_self _))

/-- In the read loop of a connection that has announced nothing, np has the tunnel of the one
before, and refuses the announcement of the new one. -/
theorem lost_tunnel_stays :
    ∃ s : State (Unit), Reachable (run config) s ∧ s.loop = .reading ∧ s.announced = [] ∧
      s.tables.http "something.nport.io" = some ⟨none, 8000⟩ ∧ ¬ Current config s ∧
      Honest config s.announced somethingOpened ∧ Successful somethingOpened ∧
      s.tables.register somethingOpened =
        .error (.httpHostnameAlreadyRegistered "something.nport.io") := by
  have haccepts : Accepts (run config) initial dropped := by decide
  have hentry : (replay (run config) initial dropped).tables.http "something.nport.io" =
      some ⟨none, 8000⟩ := by decide
  refine ⟨_, reachable_of_accepts haccepts, rfl, rfl, hentry, ?_, by decide, rfl, ?_⟩
  · intro hcurrent
    obtain ⟨msg, hm, _⟩ := (hcurrent (Or.inl rfl)).1.http _ _ hentry
    cases hm
  · have hrefused : httpRegister (replay (run config) initial dropped).tables
        ⟨"something.nport.io", some ⟨none, 8000⟩, none⟩ =
          .error (.httpHostnameAlreadyRegistered "something.nport.io") := by
      simp [httpRegister, hentry]
    exact hrefused

end CurrentTables
