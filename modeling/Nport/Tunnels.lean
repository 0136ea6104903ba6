import Nport.Forwardings
import Nport.Registry

/-! One session of an np client: its requests and the answers of the server travel through two
fifo channels, other clients use the registry and other programs the ports meanwhile, and HTTP
requests and TCP connections come in for what is open. As long as the session is up no send on
its websocket fails, and nothing but its end closes a listener of the client. -/
namespace Tunnels

open GuardedMachine
open Libnp
open Registry (Hostname)
open HttpOpen (hostnameToClaim HttpOpenError)
open Forwardings

structure Config where
  hostnames : PortOpen.Hostnames
  toLowercase : String → String
  isLoopback : String → Bool

inductive Request where
  | httpOpen (hostname : String) (localAddr : Addr)
  | httpClose (hostname : String)
  | portOpen (remoteAddr : Addr) (localAddr : Addr)
  deriving DecidableEq

def portOpenMessage (remoteAddr localAddr : Addr) : PortOpen.Open :=
  ⟨0, some remoteAddr.toAddress, some localAddr.toAddress⟩

def httpOpened (hostname : Hostname) (localAddr : Addr) (error : Option HttpOpenError) :
    Announcement :=
  .httpOpened ⟨hostname, some localAddr.toAddress, error⟩

/-- The answer to a PortOpen, for what bind returns. -/
def portOpened (cfg : Config) (bind : Except Unit UInt16) (remoteAddr localAddr : Addr) :
    Announcement :=
  .portOpened (PortOpen.portOpen cfg.toLowercase cfg.isLoopback (fun _ => bind) cfg.hostnames
    (portOpenMessage remoteAddr localAddr)).response

def remoteAddr (cfg : Config) (port : UInt16) : Addr :=
  Addr.fromHostAndPort cfg.isLoopback cfg.hostnames.tcpHostname port

def origin (cfg : Config) (port : UInt16) : String := portOrigin .tcp (remoteAddr cfg port)

inductive Handler where
  | unborn
  | reading
  | opening (hostname : Hostname) (localAddr : Addr)
  | adding (hostname : Hostname) (localAddr : Addr)
  | closing (hostname : Hostname)
  | unclaiming (hostname : Hostname)
  | binding (remoteAddr localAddr : Addr)
  /-- bound and accepting, register_port is next -/
  | registering (remoteAddr localAddr : Addr) (port : UInt16)
  /-- waits for ws_sender -/
  | replying (answer : Announcement)
  deriving DecidableEq

def Handler.task : Handler → Registry.Task
  | .unborn => .unborn
  | .adding hostname _ => .claiming hostname
  | .unclaiming hostname => .releasing hostname
  | _ => .idle

/-- What the server sends; Q names the requests and connections from outside. -/
inductive Message (Q : Type*) where
  | announce (a : Announcement)
  | httpRequest (q : Q) (hostname : Hostname)
  | portConnect (q : Q) (remoteAddress : Address)
  deriving DecidableEq

inductive Traffic where
  | unborn
  | routed (hostname : Hostname)
  | accepted (port : UInt16)
  | gone
  deriving DecidableEq

structure State (C Q : Type*) where
  registry : Registry.State C
  handler : Handler
  openPorts : List UInt16
  /-- every port of the machine that somebody listens on -/
  listeners : Finset UInt16
  traffic : Q → Traffic
  requests : List Request
  inFlight : List (Message Q)
  /-- what np has dispatched so far -/
  handled : List (Message Q)
  tables : Tables
  /-- for every grant, the local address of the request it was granted to -/
  httpGrants : String → Option Addr
  portGrants : String → Option Addr

variable {C Q : Type*} [DecidableEq C] [DecidableEq Q]

def initial : State C Q :=
  { registry := Registry.initial
    handler := .unborn
    openPorts := []
    listeners := ∅
    traffic := fun _ => .unborn
    requests := []
    inFlight := []
    handled := []
    tables := .empty
    httpGrants := fun _ => none
    portGrants := fun _ => none }

def deliver (t : Tables) : Message Q → Tables
  | .announce a => t.apply a
  | _ => t

/-- The handler of the head request, up to its first wait; generated is what the name
generator gives. -/
def dispatch (cfg : Config) (generated : String) : Request → Handler
  | .httpOpen hostname localAddr =>
    match hostnameToClaim cfg.toLowercase cfg.hostnames generated (some hostname) with
    | .ok name => .opening name localAddr
    | .error error => .replying (httpOpened hostname localAddr (some error))
  | .httpClose hostname => .closing hostname
  | .portOpen remoteAddr localAddr =>
    match PortOpen.validateOpen cfg.toLowercase cfg.hostnames
        (portOpenMessage remoteAddr localAddr) with
    | .ok () => .binding remoteAddr localAddr
    | .error _ => .replying (portOpened cfg (.error ()) remoteAddr localAddr)

inductive Event (C Q : Type*) where
  /-- another client uses the registry -/
  | other (r : Registry.Event C)
  | otherListens (port : UInt16)
  | otherCloses (port : UInt16)
  | register
  | request (r : Request)
  | receive (generated : String)
  | claim (hostname : Hostname) (localAddr : Addr)
  | add (hostname : Hostname) (localAddr : Addr)
  | release (hostname : Hostname)
  | unclaim (hostname : Hostname)
  | bind (remoteAddr localAddr : Addr) (port : UInt16)
  | failBind (remoteAddr localAddr : Addr)
  | registerPort (remoteAddr localAddr : Addr) (port : UInt16)
  | reply (answer : Announcement)
  /-- a lookup of the hostname finds the client -/
  | route (q : Q) (hostname : Hostname)
  | sendRequest (q : Q) (hostname : Hostname)
  | accept (q : Q) (port : UInt16)
  | sendConnect (q : Q) (port : UInt16)
  /-- np handles the next message -/
  | handle
  deriving DecidableEq

/-- The port that is bound and not in open_ports yet. -/
def Handler.bound : Handler → Option UInt16
  | .registering _ _ port => some port
  | _ => none

def Listens (s : State C Q) (port : UInt16) : Prop :=
  port ∈ s.openPorts ∨ s.handler.bound = some port

def Enabled (me : C) (s : State C Q) : Event C Q → Prop
  | .other r => r.client ≠ me ∧ Registry.Enabled s.registry r
  | .otherListens port => port ∉ s.listeners
  | .otherCloses port => port ∈ s.listeners ∧ ¬ Listens s port
  | .register => s.handler = .unborn ∧ Registry.Enabled s.registry (.register me)
  | .request _ => True
  | .receive _ => s.handler = .reading ∧ s.requests ≠ []
  | .claim h a => s.handler = .opening h a ∧ Registry.Enabled s.registry (.claimHttpHostname me h)
  | .add h a => s.handler = .adding h a ∧ Registry.Enabled s.registry (.addHttpHostname me h)
  | .release h => s.handler = .closing h ∧ Registry.Enabled s.registry (.releaseHttpHostname me h)
  | .unclaim h => s.handler = .unclaiming h ∧ Registry.Enabled s.registry (.unclaim me h)
  -- the system gives a port that nobody listens on, and the one that was asked for
  | .bind r l port => s.handler = .binding r l ∧ port ∉ s.listeners ∧ (r.port ≠ 0 → port = r.port)
  | .failBind r l => s.handler = .binding r l
  | .registerPort r l port => s.handler = .registering r l port
  | .reply answer => s.handler = .replying answer
  | .route q h => s.traffic q = .unborn ∧ me ∈ s.registry.clients ∧ h ∈ s.registry.hostnames me
  | .sendRequest q h => s.traffic q = .routed h
  | .accept q port => s.traffic q = .unborn ∧ Listens s port
  | .sendConnect q port => s.traffic q = .accepted port
  | .handle => s.inFlight ≠ []

instance (s : State C Q) (port : UInt16) : Decidable (Listens s port) :=
  inferInstanceAs (Decidable (_ ∨ _))

instance (me : C) (s : State C Q) (e : Event C Q) : Decidable (Enabled me s e) := by
  cases e <;> simp only [Enabled] <;> infer_instance

def next (cfg : Config) (me : C) (s : State C Q) : Event C Q → State C Q
  | .other r => { s with registry := Registry.next s.registry r }
  | .otherListens port => { s with listeners := insert port s.listeners }
  | .otherCloses port => { s with listeners := s.listeners.erase port }
  | .register =>
    { s with registry := Registry.next s.registry (.register me), handler := .reading }
  | .request r => { s with requests := s.requests ++ [r] }
  | .receive generated =>
    match s.requests with
    | r :: rest => { s with requests := rest, handler := dispatch cfg generated r }
    | [] => s
  | .claim h a =>
    { s with
      registry := Registry.next s.registry (.claimHttpHostname me h)
      handler :=
        if Registry.claimResult s.registry h then .adding h a
        else .replying (httpOpened h a (some .inUse)) }
  | .add h a =>
    { s with
      registry := Registry.next s.registry (.addHttpHostname me h)
      handler := .replying (httpOpened h a none)
      httpGrants := Function.update s.httpGrants h (some a) }
  | .release h =>
    { s with
      registry := Registry.next s.registry (.releaseHttpHostname me h)
      handler :=
        if Registry.releaseResult s.registry me h then .unclaiming h
        else .replying (.httpClosed ⟨h, some .notRegistered⟩) }
  | .unclaim h =>
    { s with
      registry := Registry.next s.registry (.unclaim me h)
      handler := .replying (.httpClosed ⟨h, none⟩) }
  | .bind r l port =>
    { s with listeners := insert port s.listeners, handler := .registering r l port }
  | .failBind r l => { s with handler := .replying (portOpened cfg (.error ()) r l) }
  | .registerPort r l port =>
    { s with
      openPorts := s.openPorts ++ [port]
      handler := .replying (portOpened cfg (.ok port) r l)
      portGrants := Function.update s.portGrants (origin cfg port) (some l) }
  | .reply answer =>
    { s with handler := .reading, inFlight := s.inFlight ++ [.announce answer] }
  | .route q h => { s with traffic := Function.update s.traffic q (.routed h) }
  | .sendRequest q h =>
    { s with
      traffic := Function.update s.traffic q .gone
      inFlight := s.inFlight ++ [.httpRequest q h] }
  | .accept q port => { s with traffic := Function.update s.traffic q (.accepted port) }
  | .sendConnect q port =>
    { s with
      traffic := Function.update s.traffic q .gone
      inFlight := s.inFlight ++ [.portConnect q (remoteAddr cfg port).toAddress] }
  | .handle =>
    match s.inFlight with
    | m :: rest =>
      { s with
        inFlight := rest
        handled := s.handled ++ [m]
        tables := deliver s.tables m }
    | [] => s

def session (cfg : Config) (me : C) : Machine (State C Q) (Event C Q) :=
  ⟨initial, Enabled me, next cfg me⟩

instance (cfg : Config) (me : C) (s : State C Q) (e : Event C Q) :
    Decidable ((session cfg me).Enabled s e) :=
  inferInstanceAs (Decidable (Enabled me s e))

def Handler.about : Handler → List Announcement
  | .unclaiming hostname => [.httpClosed ⟨hostname, none⟩]
  | .replying answer => [answer]
  | _ => []

/-- The tables of np once all that is in flight or about to be sent is dispatched. -/
def settled (s : State C Q) : Tables :=
  s.handler.about.foldl Tables.apply (s.inFlight.foldl deliver s.tables)

/-- The tables as the server sees them: its own hostnames and open ports, each with the local
address of the request it was granted to. -/
def serverView (me : C) (s : State C Q) : Tables where
  http h := if h ∈ s.registry.hostnames me then s.httpGrants h else none
  port := s.portGrants

def Validated (cfg : Config) : Handler → Prop
  | .binding remoteAddr localAddr | .registering remoteAddr localAddr _ =>
    PortOpen.validateOpen cfg.toLowercase cfg.hostnames (portOpenMessage remoteAddr localAddr) =
      .ok ()
  | _ => True

structure Invariant (cfg : Config) (me : C) (s : State C Q) : Prop where
  registry : Registry.Invariant s.registry
  task : s.registry.task me = s.handler.task
  fresh : ∀ h a, s.handler = .adding h a → h ∉ s.registry.hostnames me
  listening : ∀ port, Listens s port → port ∈ s.listeners
  unregistered : ∀ port, s.handler.bound = some port → port ∉ s.openPorts
  validated : Validated cfg s.handler
  named : ∀ h ∈ s.registry.hostnames me, s.httpGrants h ≠ none
  ports : ∀ o, s.portGrants o ≠ none ↔ ∃ port ∈ s.openPorts, o = origin cfg port
  agree : settled s = serverView me s

variable {cfg : Config} {me : C}

omit [DecidableEq C] [DecidableEq Q] in
theorem initial_invariant : Invariant cfg me (initial : State C Q) where
  registry := Registry.initial_invariant
  task := rfl
  fresh _ _ h := by cases h
  listening port h := by simp [Listens, initial, Handler.bound] at h
  unregistered _ h := by cases h
  validated := trivial
  named _ h := by simp [initial, Registry.initial] at h
  ports _ := by simp [initial]
  agree := by simp [settled, serverView, initial, Handler.about, Registry.initial, Tables.empty]

theorem dispatch_task (cfg : Config) (generated : String) (r : Request) :
    (dispatch cfg generated r).task = .idle := by
  cases r with
  | httpOpen hostname localAddr =>
    simp only [dispatch]
    split <;> rfl
  | httpClose => rfl
  | portOpen remoteAddr localAddr =>
    simp only [dispatch]
    split <;> rfl

def Event.onRegistry (me : C) : Event C Q → Option (Registry.Event C)
  | .other r => some r
  | .register => some (.register me)
  | .claim h _ => some (.claimHttpHostname me h)
  | .add h _ => some (.addHttpHostname me h)
  | .release h => some (.releaseHttpHostname me h)
  | .unclaim h => some (.unclaim me h)
  | _ => none

theorem next_registry (s : State C Q) (e : Event C Q) :
    (next cfg me s e).registry =
      match e.onRegistry me with
      | some r => Registry.next s.registry r
      | none => s.registry := by
  cases e with
  | receive generated =>
    simp only [next]
    split <;> rfl
  | handle =>
    simp only [next]
    split <;> rfl
  | _ => rfl

theorem step_registry {s : State C Q} (hi : Invariant cfg me s) {e : Event C Q}
    (he : Enabled me s e) : Registry.Invariant (next cfg me s e).registry := by
  rw [next_registry]
  cases e with
  | other r => exact Registry.step_preserves_invariant hi.registry he.2
  | register => exact Registry.step_preserves_invariant hi.registry he.2
  | claim h a => exact Registry.step_preserves_invariant hi.registry he.2
  | add h a => exact Registry.step_preserves_invariant hi.registry he.2
  | release h => exact Registry.step_preserves_invariant hi.registry he.2
  | unclaim h => exact Registry.step_preserves_invariant hi.registry he.2
  | _ => exact hi.registry

theorem step_task {s : State C Q} (hi : Invariant cfg me s) {e : Event C Q}
    (he : Enabled me s e) :
    (next cfg me s e).registry.task me = (next cfg me s e).handler.task := by
  have ht := hi.task
  cases e with
  | other r =>
    simp only [next]
    rw [(Registry.next_other s.registry (Ne.symm he.1)).1]
    exact ht
  | register => simp [next, Registry.next, Handler.task]
  | receive generated =>
    rw [he.1] at ht
    obtain ⟨r, rest, hr⟩ := List.exists_cons_of_ne_nil he.2
    simp only [next, hr, dispatch_task]
    exact ht
  | claim h a =>
    rw [he.1] at ht
    by_cases hh : h ∈ s.registry.claimedHttpHostnames
    · simpa [next, Registry.next, Registry.claimResult, hh, Handler.task] using ht
    · simp [next, Registry.next, Registry.claimResult, hh, Handler.task]
  | add h a => simp [next, Registry.next, Handler.task]
  | release h =>
    rw [he.1] at ht
    by_cases hh : h ∈ s.registry.hostnames me
    · simp [next, Registry.next, Registry.releaseResult, hh, Handler.task]
    · simpa [next, Registry.next, Registry.releaseResult, hh, Handler.task] using ht
  | unclaim h => simp [next, Registry.next, Handler.task]
  | bind r l port =>
    rw [he.1] at ht
    simpa [next, Handler.task] using ht
  | failBind r l =>
    rw [show s.handler = _ from he] at ht
    simpa [next, Handler.task] using ht
  | registerPort r l port =>
    rw [show s.handler = _ from he] at ht
    simpa [next, Handler.task] using ht
  | reply answer =>
    rw [show s.handler = _ from he] at ht
    simpa [next, Handler.task] using ht
  | handle =>
    obtain ⟨m, rest, hm⟩ := List.exists_cons_of_ne_nil he
    simpa [next, hm] using ht
  | _ => exact ht

def Event.own (own : Finset Hostname) : Event C Q → Finset Hostname
  | .add h _ => insert h own
  | .release h => own.erase h
  | _ => own

theorem own_next (cfg : Config) {s : State C Q} {e : Event C Q} (he : Enabled me s e) :
    (next cfg me s e).registry.hostnames me = e.own (s.registry.hostnames me) := by
  cases e with
  | other r => exact (Registry.next_other s.registry (Ne.symm he.1)).2
  | receive generated =>
    simp only [next]
    split <;> rfl
  | claim h a =>
    by_cases hh : h ∈ s.registry.claimedHttpHostnames <;>
      simp [next, Registry.next, Event.own, hh]
  | add h a => simp [next, Registry.next, Event.own]
  | release h =>
    by_cases hh : h ∈ s.registry.hostnames me <;> simp [next, Registry.next, Event.own, hh]
  | handle =>
    simp only [next]
    split <;> rfl
  | _ => rfl

theorem step_fresh {s : State C Q} (hi : Invariant cfg me s) {e : Event C Q}
    (he : Enabled me s e) (h : Hostname) (a : Addr)
    (ha : (next cfg me s e).handler = .adding h a) :
    h ∉ (next cfg me s e).registry.hostnames me := by
  rw [own_next cfg he]
  cases e with
  | claim h' a' =>
    by_cases hh : h' ∈ s.registry.claimedHttpHostnames
    · simp [next, Registry.claimResult, hh] at ha
    · obtain ⟨rfl, rfl⟩ : h' = h ∧ a' = a := by
        simpa [next, Registry.claimResult, hh] using ha
      have hidle : s.registry.task me = .idle := by
        rw [hi.task, he.1]
        rfl
      exact fun hm => hh (hi.registry.own_claimed (hi.registry.registered hidle trivial) hm)
  | receive generated =>
    obtain ⟨r, rest, hr⟩ := List.exists_cons_of_ne_nil he.2
    have ht := dispatch_task cfg generated r
    simp only [next, hr] at ha
    rw [ha] at ht
    cases ht
  | add h' a' => simp [next] at ha
  | release h' =>
    by_cases hh : h' ∈ s.registry.hostnames me <;>
      simp [next, Registry.releaseResult, hh] at ha
  | register => simp [next] at ha
  | unclaim => simp [next] at ha
  | bind => simp [next] at ha
  | failBind => simp [next] at ha
  | registerPort => simp [next] at ha
  | reply => simp [next] at ha
  | handle =>
    obtain ⟨m, rest, hm⟩ := List.exists_cons_of_ne_nil he
    exact hi.fresh h a (by simpa [next, hm] using ha)
  | _ => exact hi.fresh h a ha

/-! The client's own listeners. -/

theorem dispatch_bound (cfg : Config) (generated : String) (r : Request) :
    (dispatch cfg generated r).bound = none := by
  cases r with
  | httpOpen hostname localAddr =>
    simp only [dispatch]
    split <;> rfl
  | httpClose => rfl
  | portOpen remoteAddr localAddr =>
    simp only [dispatch]
    split <;> rfl

theorem listens_next {s : State C Q} {e : Event C Q} (he : Enabled me s e) (port : UInt16) :
    Listens (next cfg me s e) port ↔ Listens s port ∨ ∃ r l, e = .bind r l port := by
  cases e with
  | register => simp [Listens, next, he.1, Handler.bound]
  | receive generated =>
    obtain ⟨r, rest, hr⟩ := List.exists_cons_of_ne_nil he.2
    simp only [Listens, next, hr, he.1, dispatch_bound]
    simp [Handler.bound]
  | claim h a =>
    by_cases hh : h ∈ s.registry.claimedHttpHostnames <;>
      simp [Listens, next, Registry.claimResult, hh, he.1, Handler.bound]
  | add h a => simp [Listens, next, he.1, Handler.bound]
  | release h =>
    by_cases hh : h ∈ s.registry.hostnames me <;>
      simp [Listens, next, Registry.releaseResult, hh, he.1, Handler.bound]
  | unclaim h => simp [Listens, next, he.1, Handler.bound]
  | bind r l p =>
    simp [Listens, next, he.1, Handler.bound]
  | failBind r l => simp [Listens, next, show s.handler = _ from he, Handler.bound]
  | registerPort r l p =>
    simp [Listens, next, show s.handler = _ from he, Handler.bound, eq_comm]
  | reply answer => simp [Listens, next, show s.handler = _ from he, Handler.bound]
  | handle =>
    obtain ⟨m, rest, hm⟩ := List.exists_cons_of_ne_nil he
    simp [Listens, next, hm]
  | _ => simp [Listens, next]

theorem step_listening {s : State C Q} (hi : Invariant cfg me s) {e : Event C Q}
    (he : Enabled me s e) (port : UInt16) (hp : Listens (next cfg me s e) port) :
    port ∈ (next cfg me s e).listeners := by
  rcases (listens_next he port).mp hp with hp | ⟨r, l, rfl⟩
  · have hl := hi.listening port hp
    cases e with
    | otherListens p => exact Finset.mem_insert_of_mem hl
    | otherCloses p =>
      have hne : port ≠ p := by
        rintro rfl
        exact he.2 hp
      exact Finset.mem_erase.mpr ⟨hne, hl⟩
    | bind r l p => exact Finset.mem_insert_of_mem hl
    | receive generated =>
      simp only [next]
      split <;> exact hl
    | handle =>
      simp only [next]
      split <;> exact hl
    | _ => exact hl
  · exact Finset.mem_insert_self _ _

theorem step_unregistered {s : State C Q} (hi : Invariant cfg me s) {e : Event C Q}
    (he : Enabled me s e) (port : UInt16) (hp : (next cfg me s e).handler.bound = some port) :
    port ∉ (next cfg me s e).openPorts := by
  cases e with
  | bind r l p =>
    obtain rfl : p = port := by simpa [next, Handler.bound] using hp
    exact fun hm => he.2.1 (hi.listening p (Or.inl hm))
  | register => simp [next, Handler.bound] at hp
  | receive generated =>
    obtain ⟨r, rest, hr⟩ := List.exists_cons_of_ne_nil he.2
    simp only [next, hr, dispatch_bound] at hp
    cases hp
  | claim h a =>
    by_cases hh : h ∈ s.registry.claimedHttpHostnames <;>
      simp [next, Registry.claimResult, hh, Handler.bound] at hp
  | add h a => simp [next, Handler.bound] at hp
  | release h =>
    by_cases hh : h ∈ s.registry.hostnames me <;>
      simp [next, Registry.releaseResult, hh, Handler.bound] at hp
  | unclaim h => simp [next, Handler.bound] at hp
  | failBind r l => simp [next, Handler.bound] at hp
  | registerPort r l p => simp [next, Handler.bound] at hp
  | reply answer => simp [next, Handler.bound] at hp
  | handle =>
    obtain ⟨m, rest, hm⟩ := List.exists_cons_of_ne_nil he
    simp only [next, hm] at hp ⊢
    exact hi.unregistered port hp
  | _ => exact hi.unregistered port hp

/-! What was granted. -/

theorem step_named {s : State C Q} (hi : Invariant cfg me s) {e : Event C Q}
    (he : Enabled me s e) (h : Hostname) (hh : h ∈ (next cfg me s e).registry.hostnames me) :
    (next cfg me s e).httpGrants h ≠ none := by
  rw [own_next cfg he] at hh
  cases e with
  | add h' a =>
    by_cases hne : h = h'
    · simp [next, hne]
    · have hold : h ∈ s.registry.hostnames me := (Finset.mem_insert.mp hh).resolve_left hne
      simpa [next, hne] using hi.named h hold
  | release h' => exact hi.named h (Finset.mem_of_mem_erase hh)
  | receive generated =>
    simp only [next]
    split <;> exact hi.named h hh
  | handle =>
    simp only [next]
    split <;> exact hi.named h hh
  | _ => exact hi.named h hh

theorem origin_injective {p q : UInt16} (h : origin cfg p = origin cfg q) : p = q :=
  portOrigin_injective h

theorem step_ports {s : State C Q} (hi : Invariant cfg me s) {e : Event C Q} (o : String) :
    (next cfg me s e).portGrants o ≠ none ↔
      ∃ port ∈ (next cfg me s e).openPorts, o = origin cfg port := by
  cases e with
  | registerPort r l p =>
    by_cases ho : o = origin cfg p
    · simp [next, ho]
    · have hp := hi.ports o
      simp only [next, Function.update_of_ne ho, List.mem_append, List.mem_singleton]
      rw [hp]
      constructor
      · rintro ⟨port, hm, rfl⟩
        exact ⟨port, Or.inl hm, rfl⟩
      · rintro ⟨port, hm | rfl, rfl⟩
        · exact ⟨port, hm, rfl⟩
        · exact absurd rfl ho
  | receive generated =>
    simp only [next]
    split <;> exact hi.ports o
  | handle =>
    simp only [next]
    split <;> exact hi.ports o
  | _ => exact hi.ports o

theorem dispatch_validated (generated : String) (r : Request) :
    Validated cfg (dispatch cfg generated r) := by
  cases r with
  | httpOpen hostname localAddr =>
    simp only [dispatch]
    split <;> trivial
  | httpClose => trivial
  | portOpen remoteAddr localAddr =>
    simp only [dispatch]
    split
    · assumption
    · trivial

theorem step_validated {s : State C Q} (hi : Invariant cfg me s) {e : Event C Q}
    (he : Enabled me s e) : Validated cfg (next cfg me s e).handler := by
  have hv := hi.validated
  cases e with
  | receive generated =>
    obtain ⟨r, rest, hr⟩ := List.exists_cons_of_ne_nil he.2
    simp only [next, hr]
    exact dispatch_validated generated r
  | claim h a =>
    simp only [next]
    split <;> trivial
  | release h =>
    simp only [next]
    split <;> trivial
  | bind r l port =>
    rw [he.1] at hv
    exact hv
  | handle =>
    simp only [next]
    split <;> exact hv
  | register => trivial
  | add => trivial
  | unclaim => trivial
  | failBind => trivial
  | registerPort => trivial
  | reply => trivial
  | _ => exact hv

/-! The answers, as np sees them. -/

theorem apply_refused (t : Tables) (hostname : Hostname) (localAddr : Addr)
    (error : HttpOpenError) : t.apply (httpOpened hostname localAddr (some error)) = t :=
  apply_httpOpened_error t rfl

theorem apply_portOpened_refused (t : Tables) (remoteAddr localAddr : Addr) :
    t.apply (portOpened cfg (.error ()) remoteAddr localAddr) = t := by
  unfold portOpened PortOpen.portOpen
  cases PortOpen.validateOpen cfg.toLowercase cfg.hostnames
      (portOpenMessage remoteAddr localAddr) with
  | error e => exact apply_portOpened_error t rfl
  | ok => exact apply_portOpened_error t rfl

theorem apply_granted {t : Tables} {hostname : Hostname} (localAddr : Addr)
    (fresh : t.http hostname = none) :
    t.apply (httpOpened hostname localAddr none) =
      { t with http := Function.update t.http hostname (some localAddr) } := by
  have h : t.apply (.httpOpened ⟨hostname, some localAddr.toAddress, none⟩) = _ :=
    apply_httpOpened t rfl fresh
  rw [Addr.fromAddress_toAddress] at h
  exact h

/-- Both sides compute the same origin for an open port. -/
theorem apply_portOpened_granted {t : Tables} {port : UInt16} {remoteAddr localAddr : Addr}
    (hv : PortOpen.validateOpen cfg.toLowercase cfg.hostnames
      (portOpenMessage remoteAddr localAddr) = .ok ())
    (fresh : t.port (origin cfg port) = none) :
    t.apply (portOpened cfg (.ok port) remoteAddr localAddr) =
      { t with port := Function.update t.port (origin cfg port) (some localAddr) } := by
  have ho : portOriginFromRaw 0 (some (Tunnels.remoteAddr cfg port).toAddress) =
      some (origin cfg port) := by
    simp [portOriginFromRaw, PortProtocol.tryFrom, Addr.fromAddress_toAddress, origin]
  have h : t.apply (.portOpened ⟨0, some (Tunnels.remoteAddr cfg port).toAddress,
      some localAddr.toAddress, none⟩) = _ := apply_portOpened t rfl ho fresh
  rw [Addr.fromAddress_toAddress] at h
  simp only [portOpened, PortOpen.portOpen, hv, PortOpen.server]
  exact h

theorem dispatch_about (generated : String) (r : Request) (t : Tables) :
    (dispatch cfg generated r).about.foldl Tables.apply t = t := by
  cases r with
  | httpOpen hostname localAddr =>
    simp only [dispatch]
    split
    · rfl
    · next error _ => exact apply_refused t hostname localAddr error
  | httpClose => rfl
  | portOpen remoteAddr localAddr =>
    simp only [dispatch]
    split
    · rfl
    · exact apply_portOpened_refused t remoteAddr localAddr

def arrived (s : State C Q) : Tables := s.inFlight.foldl deliver s.tables

omit [DecidableEq C] [DecidableEq Q] in
theorem settled_of_nothing_about {s : State C Q} (h : s.handler.about = []) :
    settled s = arrived s := by
  simp [settled, arrived, h]

theorem step_agree {s : State C Q} (hi : Invariant cfg me s) {e : Event C Q}
    (he : Enabled me s e) : settled (next cfg me s e) = serverView me (next cfg me s e) := by
  have hown := own_next cfg he
  have hagree := hi.agree
  cases e with
  | other r =>
    rw [serverView, hown]
    exact hagree
  | register =>
    rw [settled_of_nothing_about (by simp [he.1, Handler.about])] at hagree
    rw [serverView, hown, settled_of_nothing_about rfl]
    exact hagree
  | receive generated =>
    obtain ⟨r, rest, hr⟩ := List.exists_cons_of_ne_nil he.2
    rw [settled_of_nothing_about (by simp [he.1, Handler.about])] at hagree
    rw [serverView, hown]
    simp only [settled, next, hr, dispatch_about]
    exact hagree
  | claim h a =>
    rw [settled_of_nothing_about (by simp [he.1, Handler.about])] at hagree
    have hview : serverView me (next cfg me s (.claim h a)) = serverView me s := by
      rw [serverView, hown]
      rfl
    rw [hview, ← hagree]
    by_cases hh : h ∈ s.registry.claimedHttpHostnames
    · have hrefused := apply_refused (arrived s) h a .inUse
      simpa [settled, next, Registry.claimResult, hh, Handler.about, arrived] using hrefused
    · simp [settled, next, Registry.claimResult, hh, Handler.about, arrived]
  | add h a =>
    rw [settled_of_nothing_about (by simp [he.1, Handler.about])] at hagree
    have hfresh : (arrived s).http h = none := by
      rw [hagree]
      simp [serverView, hi.fresh h a he.1]
    rw [serverView, hown]
    change (arrived s).apply (httpOpened h a none) = _
    rw [apply_granted a hfresh, hagree]
    simp only [serverView, next, Tables.mk.injEq, and_true]
    funext k
    by_cases hk : k = h
    · simp [hk, Event.own]
    · simp [hk, Event.own]
  | release h =>
    rw [settled_of_nothing_about (by simp [he.1, Handler.about])] at hagree
    have hclosed (error : Option HttpCloseError) :
        (arrived s).apply (.httpClosed ⟨h, error⟩) =
          serverView me (next cfg me s (.release h)) := by
      rw [apply_httpClosed, hagree, serverView, serverView, hown]
      simp only [next, Tables.mk.injEq, and_true]
      funext k
      by_cases hk : k = h
      · simp [hk, Event.own]
      · simp [hk, Event.own]
    by_cases hh : h ∈ s.registry.hostnames me
    · rw [← hclosed none]
      simp [settled, next, Registry.releaseResult, hh, Handler.about, arrived]
    · rw [← hclosed (some .notRegistered)]
      simp [settled, next, Registry.releaseResult, hh, Handler.about, arrived]
  | unclaim h =>
    rw [serverView, hown]
    rw [settled, he.1] at hagree
    exact hagree
  | bind r l port =>
    rw [settled, he.1] at hagree
    exact hagree
  | failBind r l =>
    rw [settled_of_nothing_about (by simp [show s.handler = _ from he, Handler.about])] at hagree
    exact (apply_portOpened_refused _ _ _).trans hagree
  | registerPort r l port =>
    have hh : s.handler = .registering r l port := he
    rw [settled_of_nothing_about (by simp [hh, Handler.about])] at hagree
    have hv := hi.validated
    rw [hh] at hv
    have hfresh : (arrived s).port (origin cfg port) = none := by
      rw [hagree]
      by_contra hne
      obtain ⟨p, hp, ho⟩ := (hi.ports _).mp hne
      obtain rfl := origin_injective ho
      exact hi.unregistered port (by rw [hh]; rfl) hp
    change (arrived s).apply (portOpened cfg (.ok port) r l) = _
    rw [apply_portOpened_granted hv hfresh, hagree]
    rfl
  | reply answer =>
    rw [settled, show s.handler = _ from he] at hagree
    simp only [settled, next, List.foldl_append]
    exact hagree
  | sendRequest q h =>
    simp only [settled, next, List.foldl_append]
    exact hagree
  | sendConnect q port =>
    simp only [settled, next, List.foldl_append]
    exact hagree
  | handle =>
    obtain ⟨m, rest, hm⟩ := List.exists_cons_of_ne_nil he
    rw [settled, hm] at hagree
    simp only [settled, next, hm]
    exact hagree
  | _ => exact hagree

theorem step_preserves_invariant {s : State C Q} (hi : Invariant cfg me s) {e : Event C Q}
    (he : Enabled me s e) : Invariant cfg me (next cfg me s e) where
  registry := step_registry hi he
  task := step_task hi he
  fresh := step_fresh hi he
  listening := step_listening hi he
  unregistered := step_unregistered hi he
  validated := step_validated hi he
  named := step_named hi he
  ports := step_ports hi
  agree := step_agree hi he

theorem reachable_invariant {s : State C Q} (h : Reachable (session cfg me) s) :
    Invariant cfg me s :=
  Reachable.invariant (M := session cfg me) initial_invariant
    (fun _ _ hi he => step_preserves_invariant hi he) h

/-- What np's tables come to once the messages in flight and the one about to be sent are
dispatched: their keys are the hostnames and the origins of the open ports that the server has
for the client, and each leads to the local address of the request it was granted to. -/
theorem tunnels_agree (cfg : Config) (me : C) {s : State C Q}
    (h : Reachable (session cfg me) s) :
    (∀ hostname, (settled s).http hostname ≠ none ↔ hostname ∈ s.registry.hostnames me) ∧
    (∀ o, (settled s).port o ≠ none ↔ ∃ port ∈ s.openPorts, o = origin cfg port) ∧
    (∀ hostname ∈ s.registry.hostnames me,
      (settled s).http hostname = s.httpGrants hostname) ∧
    (∀ port ∈ s.openPorts,
      (settled s).port (origin cfg port) = s.portGrants (origin cfg port)) := by
  have hi := reachable_invariant h
  rw [hi.agree]
  refine ⟨?_, hi.ports, ?_, fun _ _ => rfl⟩
  · intro hostname
    by_cases hh : hostname ∈ s.registry.hostnames me
    · simp [serverView, hh, hi.named hostname hh]
    · simp [serverView, hh]
  · intro hostname hh
    simp [serverView, hh]

def localConfig : Config where
  hostnames := HttpOpen.configuredHostnames HttpOpen.kelvinData "localhost" (some "api")
    (some "tcp") ""
  toLowercase := HttpOpen.kelvinData.toLowercase
  isLoopback _ := false

def pipelined : List (Event Bool Unit) :=
  [.register, .other (.register true), .other (.claimHttpHostname true "other.localhost"),
    .other (.addHttpHostname true "other.localhost"), .request (.httpOpen "something" ⟨none, 8000⟩),
    .request (.httpOpen "other" ⟨none, 8001⟩), .request (.portOpen ⟨none, 0⟩ ⟨none, 8002⟩),
    .receive "", .claim "something.localhost" ⟨none, 8000⟩,
    .add "something.localhost" ⟨none, 8000⟩,
    .reply (httpOpened "something.localhost" ⟨none, 8000⟩ none), .receive "",
    .claim "other.localhost" ⟨none, 8001⟩,
    .reply (httpOpened "other.localhost" ⟨none, 8001⟩ (some .inUse)), .receive "",
    .bind ⟨none, 0⟩ ⟨none, 8002⟩ 40000, .registerPort ⟨none, 0⟩ ⟨none, 8002⟩ 40000]

theorem tunnels_agree_pipelined :
    (settled (replay (session localConfig false) initial pipelined)).http "something.localhost" =
      some ⟨none, 8000⟩ := by
  have accepted : Accepts (session localConfig false) initial pipelined := by decide
  have h := tunnels_agree localConfig false (reachable_of_accepts accepted)
  exact (h.2.2.1 "something.localhost" (by decide)).trans (by decide)

end Tunnels
