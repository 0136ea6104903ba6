import Nport.Endpoint
import Nport.Tunnels

/-! The main loop of np over any number of connections: connecting, opening the tunnels and
reading, with connect_failure on the way. The Client is one and the same all the time, and the
port tasks of an earlier connection go on with it. -/
namespace Reconnect

open GuardedMachine
open PortTask
open Libnp
open Forwardings
open Tunnels (Request)

inductive Tunnel where
  | http (hostname : Option String) (localAddr : Addr)
  | tcp (remoteAddr : Option Addr) (localAddr : Addr)
  deriving DecidableEq

/-- What the for loop over the tunnels sends for one of them. -/
def Tunnel.request : Tunnel → Request
  | .http hostname localAddr => .httpOpen (hostname.getD "") localAddr
  | .tcp remoteAddr localAddr => .portOpen (remoteAddr.getD ⟨none, 0⟩) localAddr

structure Config where
  tunnels : List Tunnel
  /-- the host in the addresses of the server's ports -/
  serverHost : Option String

def maxConnectRetries : ℕ := 5

inductive Loop (U : Type*) where
  | connecting
  /-- in the for loop over the tunnels; rest are still to be opened -/
  | opening (rest : List Request)
  /-- in recv, or in dispatch::message while the dispatcher is busy -/
  | reading
  /-- in dispatch::port::connect, with PortConnected still to be sent -/
  | answering (u : U) (started : Bool)
  /-- process::exit(1) -/
  | exited
  deriving DecidableEq

inductive Outgoing (U : Type*) where
  | request (r : Request)
  | portConnected (u : U) (started : Bool)
  /-- a PortReceive or PortClose of a port task -/
  | port (u : U) (message : PortMessage)
  deriving DecidableEq

/-- Connections are numbered in the order they are made. announced is what the current one has
brought, sent all that was ever sent with the connection it went out on, and assigned the
connection on which a uuid came; no step reads the last two. -/
structure State (U : Type*) where
  loop : Loop U
  connection : Option ℕ
  connections : ℕ
  retries : ℕ
  tables : Tables
  ends : Endpoint.State U
  announced : List Announcement
  sent : List (ℕ × Outgoing U)
  assigned : U → Option ℕ

variable {U : Type*}

def initial : State U :=
  { loop := .connecting
    connection := none
    connections := 0
    retries := 0
    tables := .empty
    ends := Endpoint.initial
    announced := []
    sent := []
    assigned := fun _ => none }

def opensAddress (address : Option Address) : Announcement → Bool
  | .portOpened msg => msg.error.isNone && decide (msg.remoteAddress = address)
  | _ => false

/-- An honest server grants a hostname that the connection does not have, and a port of its own
that it has not granted to the connection before. -/
def Honest (cfg : Config) (announced : List Announcement) : Announcement → Prop
  | .httpOpened msg => msg.error = none →
    announced.foldl (Announcement.stands msg.hostname) false = false
  | .httpClosed _ => True
  | .portOpened msg => msg.error = none →
    msg.protocol = 0 ∧
      (∃ port, msg.remoteAddress = some (Addr.toAddress ⟨cfg.serverHost, port⟩)) ∧
      ∀ a ∈ announced, opensAddress msg.remoteAddress a = false

def silent : Endpoint.Event U → Bool
  | .register _ | .receive _ _ | .send _ _ | .stop | .clear | .drop => false
  | _ => true

inductive Event (U : Type*) where
  /-- client.connect returns, with a connection or without -/
  | connected
  | connectFails
  /-- http_open or tcp_open for the next tunnel -/
  | openTunnel (ok : Bool)
  | startReading
  /-- recv returns HttpOpened, HttpClosed or PortOpened -/
  | announce (a : Announcement)
  /-- recv returns PortConnect; started is the result of port::start, when it comes to that -/
  | portConnect (u : U) (remoteAddress : Option Address) (started : Bool)
  | answer (ok : Bool)
  /-- recv returns PortReceive or PortClose -/
  | receive (u : U) (message : PortMessage)
  /-- recv returns an error -/
  | lost
  /-- client.send of a port task -/
  | send (u : U) (ok : Bool)
  | task (e : Endpoint.Event U)
  deriving DecidableEq

def Receives (s : State U) : Prop :=
  s.loop = .reading ∧ s.ends.dispatcher = .idle ∧ s.connection ≠ none

def Enabled (cfg : Config) (s : State U) : Event U → Prop
  | .connected | .connectFails => s.loop = .connecting
  | .openTunnel ok => (∃ r rest, s.loop = .opening (r :: rest)) ∧
      (ok = true → s.connection ≠ none)
  | .startReading => s.loop = .opening []
  | .announce a => Receives s ∧ Honest cfg s.announced a
  | .portConnect u _ _ => Receives s ∧ s.assigned u = none ∧
      Endpoint.Enabled Endpoint.np s.ends (.register u)
  | .answer ok => (∃ u started, s.loop = .answering u started) ∧
      (ok = true → s.connection ≠ none)
  | .receive u m => Receives s ∧ Endpoint.Enabled Endpoint.np s.ends (.receive u m)
  | .lost => s.loop = .reading ∧ s.ends.dispatcher = .idle
  | .send u ok => s.loop ≠ .exited ∧ Endpoint.Enabled Endpoint.np s.ends (.send u ok) ∧
      (ok = true → s.connection ≠ none)
  | .task e => s.loop ≠ .exited ∧ silent e = true ∧ Endpoint.Enabled Endpoint.np s.ends e

variable [DecidableEq U]

/-- connect_failure: Client::disconnect, and the end of the process after too many. -/
def connectFailure (s : State U) (loop : Loop U) : State U :=
  { s with
    loop := if maxConnectRetries < s.retries + 1 then .exited else loop
    connection := none
    retries := s.retries + 1
    tables := .empty
    ends := Endpoint.clearWriters s.ends }

/-- What goes out now goes out on the current connection. -/
def log (s : State U) (ok : Bool) (x : Outgoing U) : List (ℕ × Outgoing U) :=
  match s.connection with
  | some n => if ok then s.sent ++ [(n, x)] else s.sent
  | none => s.sent

def next (cfg : Config) (s : State U) : Event U → State U
  | .connected =>
    { s with
      loop := .opening (cfg.tunnels.map Tunnel.request)
      connection := some s.connections
      connections := s.connections + 1
      announced := [] }
  | .connectFails => connectFailure s .connecting
  | .openTunnel ok =>
    match s.loop with
    | .opening (r :: rest) =>
      -- the continue after connect_failure is that of the for loop
      if ok then { s with loop := .opening rest, sent := log s true (.request r) }
      else connectFailure s (.opening rest)
    | _ => s
  | .startReading => { s with loop := .reading, retries := 0 }
  | .announce a => { s with tables := s.tables.apply a, announced := s.announced ++ [a] }
  | .portConnect u remoteAddress started =>
    let assigned := Function.update s.assigned u s.connection
    match portConnect s.tables 0 remoteAddress with
    | .ok _ =>
      { s with
        loop := .answering u started
        ends := if started then Endpoint.next Endpoint.np s.ends (.register u) else s.ends
        assigned := assigned }
    | .error _ => { s with loop := .answering u false, assigned := assigned }
  | .answer ok =>
    match s.loop with
    | .answering u started =>
      { s with loop := .reading, sent := log s ok (.portConnected u started) }
    | _ => s
  | .receive u m => { s with ends := Endpoint.next Endpoint.np s.ends (.receive u m) }
  -- break 'read: neither disconnect nor connect_failure is called
  | .lost => { s with loop := .connecting }
  | .send u ok =>
    match (s.ends.port u).phase with
    | .sending m =>
      { s with
        ends := Endpoint.next Endpoint.np s.ends (.send u ok)
        sent := log s ok (.port u m) }
    | _ => s
  | .task e => { s with ends := Endpoint.next Endpoint.np s.ends e }

def run (cfg : Config) : Machine (State U) (Event U) := ⟨initial, Enabled cfg, next cfg⟩

theorem exists_port_iff (host : Option String) (address : Option Address) :
    address = some (Addr.toAddress ⟨host, (Addr.fromAddress address).port⟩) ↔
      ∃ port, address = some (Addr.toAddress ⟨host, port⟩) := by
  constructor
  · intro h
    exact ⟨_, h⟩
  · rintro ⟨port, rfl⟩
    rw [Addr.fromAddress_toAddress]

instance (host : Option String) (address : Option Address) :
    Decidable (∃ port, address = some (Addr.toAddress ⟨host, port⟩)) :=
  decidable_of_iff _ (exists_port_iff host address)

instance (cfg : Config) (announced : List Announcement) (a : Announcement) :
    Decidable (Honest cfg announced a) :=
  match a with
  | .httpOpened msg => inferInstanceAs (Decidable (msg.error = none → _ = _))
  | .httpClosed _ => isTrue trivial
  | .portOpened msg => inferInstanceAs (Decidable (msg.error = none → _ ∧ (∃ _, _) ∧ _))

instance (s : State U) : Decidable (Receives s) := inferInstanceAs (Decidable (_ ∧ _))

instance (l : Loop U) : Decidable (∃ r rest, l = .opening (r :: rest)) :=
  match l with
  | .opening (r :: rest) => isTrue ⟨r, rest, rfl⟩
  | .opening [] | .connecting | .reading | .answering _ _ | .exited => isFalse (by simp)

instance (l : Loop U) : Decidable (∃ u started, l = .answering u started) :=
  match l with
  | .answering u started => isTrue ⟨u, started, rfl⟩
  | .opening _ | .connecting | .reading | .exited => isFalse (by simp)

instance [Fintype U] (cfg : Config) (s : State U) (e : Event U) : Decidable (Enabled cfg s e) := by
  cases e <;> simp only [Enabled] <;> infer_instance

instance [Fintype U] (cfg : Config) (s : State U) (e : Event U) :
    Decidable ((run cfg).Enabled s e) :=
  inferInstanceAs (Decidable (Enabled cfg s e))

end Reconnect
