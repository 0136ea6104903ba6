import Nport.GuardedMachine
import Nport.PortHistory
import Nport.Link

/-! One session between nport-server and np: the two endpoints, the two directions of the
websocket, and the connect handshake of serve_socket and dispatch::port::connect.
A uuid is drawn once, for one accepted connection. Frames that are not about forwarded
ports touch nothing in this state and are left out. -/
namespace Tunnel

open GuardedMachine
open PortTask
open PortHistory
open Link

/-- serve_socket in the accept loop, up to the spawn of the port task. -/
inductive Accept where
  | idle
  /-- register_connect_request is done -/
  | requested
  /-- PortConnect is sent, in rx.await -/
  | waiting
  /-- the answer was PortConnected without error -/
  | registering
  | spawned
  | failed
  deriving DecidableEq, Repr

/-- dispatch::port::connect, which runs in the message loop of np. -/
inductive Dial where
  | connecting
  /-- port::start has returned, PortConnected is still to be sent -/
  | answering (ok : Bool)
  deriving DecidableEq, Repr

structure State (U : Type*) where
  server : Endpoint.State U
  np : Endpoint.State U
  accept : U → Accept
  /-- connect_requests has a sender for the uuid -/
  connectRequests : U → Bool
  /-- what came through the oneshot: whether PortConnected had no error -/
  connected : U → Option Bool
  dialing : Option (U × Dial)
  up : List (Frame U (U × Bool))
  down : List (Frame U U)
  upIntact : Bool
  downIntact : Bool

/-- In the events that send, ok is what send returns and reached whether the frame got out. -/
inductive Event (U : Type*) where
  | accept (u : U)
  | connect (u : U) (ok reached : Bool)
  | wake (u : U)
  | spawn (u : U)
  | serverReceive
  | serverSend (u : U) (ok reached : Bool)
  | server (event : Endpoint.Event U)
  | npReceive
  | dial (ok : Bool)
  | answer (ok reached : Bool)
  | npSend (u : U) (ok reached : Bool)
  | np (event : Endpoint.Event U)
  deriving DecidableEq, Repr

variable {U : Type*}

def initial : State U :=
  ⟨Endpoint.initial, Endpoint.initial, fun _ => .idle, fun _ => false, fun _ => none, none,
    [], [], true, true⟩

/-- The steps of an endpoint that need neither the websocket nor the handshake. -/
def Local : Endpoint.Event U → Prop
  | .register _ | .receive _ _ | .send _ _ => False
  | _ => True

theorem Local.not_receive {a : Endpoint.Event U} (h : Local a) : ∀ v m, a ≠ .receive v m := by
  rintro v m rfl
  exact h

theorem Local.not_send {a : Endpoint.Event U} (h : Local a) : ∀ v ok, a ≠ .send v ok := by
  rintro v ok rfl
  exact h

/-- The accept loop is inside serve_socket with a strong reference to the Client. -/
def Accept.holds : Accept → Bool
  | .requested | .waiting | .registering => true
  | _ => false

/-- A port task of np may outlive the session and then sends into the next one. -/
def Enabled (s : State U) : Event U → Prop
  | .accept u => s.accept u = .idle ∧ s.server.alive = true
  | .connect u ok reached => s.accept u = .requested ∧ (reached = true → s.downIntact = true) ∧
      (ok = true → reached = true)
  | .wake u => s.accept u = .waiting ∧ s.connected u ≠ none
  | .spawn u => s.accept u = .registering ∧ Endpoint.Enabled Endpoint.server s.server (.register u)
  | .serverReceive => s.server.dispatcher = .idle ∧ s.server.running = true ∧
      s.server.alive = true ∧ s.up ≠ []
  | .serverSend u ok reached => Endpoint.Enabled Endpoint.server s.server (.send u ok) ∧
      (reached = true → s.downIntact = true) ∧ (ok = true → reached = true)
  | .server e => Local e ∧ Endpoint.Enabled Endpoint.server s.server e ∧
      (e = .drop → ∀ u, (s.accept u).holds = false)
  | .npReceive => s.np.dispatcher = .idle ∧ s.np.running = true ∧ s.np.alive = true ∧
      s.dialing = none ∧ s.down ≠ []
  | .dial ok => ∃ u, s.dialing = some (u, .connecting) ∧
      (ok = true → Endpoint.Enabled Endpoint.np s.np (.register u))
  | .answer ok reached => (∃ u result, s.dialing = some (u, .answering result)) ∧
      (reached = true → s.upIntact = true) ∧ (ok = true → reached = true)
  | .npSend u ok reached => Endpoint.Enabled Endpoint.np s.np (.send u ok) ∧
      (reached = true → s.upIntact = true) ∧
      (ok = true → reached = true ∨ s.np.running = false)
  | .np e => Local e ∧ Endpoint.Enabled Endpoint.np s.np e ∧
      (s.dialing ≠ none → e ≠ .stop ∧ e ≠ .clear ∧ e ≠ .drop)

variable [DecidableEq U]

/-- What the session loop of the server does with a frame: send_connected_response fails
when connect_requests has no entry, and a PortReceive or PortClose goes to port_message. -/
def serverReceive (s : State U) : State U :=
  match s.up with
  | [] => s
  | .control (u, ok) :: rest =>
    if s.connectRequests u then
      { s with
        up := rest
        connectRequests := Function.update s.connectRequests u false
        connected := Function.update s.connected u (some ok) }
    else { s with up := rest, server := Endpoint.next Endpoint.server s.server .stop }
  | .port u m :: rest =>
    { s with up := rest, server := Endpoint.next Endpoint.server s.server (.receive u m) }

def npReceive (s : State U) : State U :=
  match s.down with
  | [] => s
  | .control u :: rest => { s with down := rest, dialing := some (u, .connecting) }
  | .port u m :: rest =>
    { s with down := rest, np := Endpoint.next Endpoint.np s.np (.receive u m) }

def serverSend (s : State U) (u : U) (ok reached : Bool) : State U :=
  match (s.server.port u).phase with
  | .sending m =>
    { s with
      server := Endpoint.next Endpoint.server s.server (.send u ok)
      down := transmit s.down (.port u m) reached
      downIntact := s.downIntact && ok && reached }
  | _ => s

def npSend (s : State U) (u : U) (ok reached : Bool) : State U :=
  match (s.np.port u).phase with
  | .sending m =>
    { s with
      np := Endpoint.next Endpoint.np s.np (.send u ok)
      up := transmit s.up (.port u m) reached
      upIntact := s.upIntact && ok && reached }
  | _ => s

/-- port::start: connecting may fail, else the writer is registered and the task spawned. -/
def dial (s : State U) (ok : Bool) : State U :=
  match s.dialing with
  | some (u, .connecting) =>
    { s with
      np := if ok then Endpoint.next Endpoint.np s.np (.register u) else s.np
      dialing := some (u, .answering ok) }
  | _ => s

def answer (s : State U) (ok reached : Bool) : State U :=
  match s.dialing with
  | some (u, .answering result) =>
    { s with
      dialing := none
      up := transmit s.up (.control (u, result)) reached
      upIntact := s.upIntact && ok && reached }
  | _ => s

def next (s : State U) : Event U → State U
  | .accept u => { s with
      accept := Function.update s.accept u .requested
      connectRequests := Function.update s.connectRequests u true }
  | .connect u ok reached => { s with
      accept := Function.update s.accept u (if ok then .waiting else .failed)
      down := transmit s.down (.control u) reached
      downIntact := s.downIntact && ok && reached }
  | .wake u => { s with
      accept := Function.update s.accept u
        (if s.connected u = some true then .registering else .failed) }
  | .spawn u => { s with
      accept := Function.update s.accept u .spawned
      server := Endpoint.next Endpoint.server s.server (.register u) }
  | .serverReceive => serverReceive s
  | .serverSend u ok reached => serverSend s u ok reached
  | .server e => { s with server := Endpoint.next Endpoint.server s.server e }
  | .npReceive => npReceive s
  | .dial ok => dial s ok
  | .answer ok reached => answer s ok reached
  | .npSend u ok reached => npSend s u ok reached
  | .np e => { s with np := Endpoint.next Endpoint.np s.np e }

def tunnel : Machine (State U) (Event U) := ⟨initial, Enabled, next⟩

instance : (e : Endpoint.Event U) → Decidable (Local e)
  | .register _ | .receive _ _ | .send _ _ => isFalse id
  | .lookup | .enqueue | .refuse | .pop _ | .closed _ | .write _ _ | .wrote _ | .writeFail _
  | .read _ _ | .teardown _ | .remove _ | .stop | .clear | .drop => isTrue trivial

instance [Fintype U] (s : State U) (e : Event U) : Decidable (Enabled s e) := by
  cases e <;> simp only [Enabled] <;> infer_instance

instance [Fintype U] (s : State U) (e : Event U) : Decidable (tunnel.Enabled s e) :=
  inferInstanceAs (Decidable (Enabled s e))

def establish (u : U) : List (Event U) :=
  [.accept u, .connect u true true, .npReceive, .dial true, .answer true true, .serverReceive,
    .wake u, .spawn u]

def npToServer (u : U) (bytes : Bytes) : List (Event U) :=
  [.np (.read u (.size bytes)), .npSend u true true, .serverReceive]

def serverToNp (u : U) (bytes : Bytes) : List (Event U) :=
  [.server (.read u (.size bytes)), .serverSend u true true, .npReceive]

inductive Step (s : State U) : Event U → State U → Prop where
  | accept (u) : s.accept u = .idle → s.server.alive = true →
      Step s (.accept u) { s with
        accept := Function.update s.accept u .requested
        connectRequests := Function.update s.connectRequests u true }
  | connect (u ok reached) : s.accept u = .requested →
      (reached = true → s.downIntact = true) → (ok = true → reached = true) →
      Step s (.connect u ok reached) { s with
        accept := Function.update s.accept u (if ok then .waiting else .failed)
        down := transmit s.down (.control u) reached
        downIntact := s.downIntact && ok && reached }
  | wake (u answer) : s.accept u = .waiting → s.connected u = some answer →
      Step s (.wake u) { s with
        accept := Function.update s.accept u (if answer then .registering else .failed) }
  | spawn (u) : s.accept u = .registering →
      Endpoint.Enabled Endpoint.server s.server (.register u) →
      Step s (.spawn u) { s with
        accept := Function.update s.accept u .spawned
        server := Endpoint.next Endpoint.server s.server (.register u) }
  | connected (u ok rest) : s.up = .control (u, ok) :: rest → s.connectRequests u = true →
      Step s .serverReceive { s with
        up := rest
        connectRequests := Function.update s.connectRequests u false
        connected := Function.update s.connected u (some ok) }
  | noRequest (u ok rest) : s.up = .control (u, ok) :: rest → s.connectRequests u = false →
      Endpoint.Enabled Endpoint.server s.server .stop →
      Step s .serverReceive { s with
        up := rest, server := Endpoint.next Endpoint.server s.server .stop }
  | portMessage (u m rest) : s.up = .port u m :: rest →
      Endpoint.Enabled Endpoint.server s.server (.receive u m) →
      Step s .serverReceive { s with
        up := rest, server := Endpoint.next Endpoint.server s.server (.receive u m) }
  | serverSend (u m ok reached) : (s.server.port u).phase = .sending m →
      Endpoint.Enabled Endpoint.server s.server (.send u ok) →
      (reached = true → s.downIntact = true) → (ok = true → reached = true) →
      Step s (.serverSend u ok reached) { s with
        server := Endpoint.next Endpoint.server s.server (.send u ok)
        down := transmit s.down (.port u m) reached
        downIntact := s.downIntact && ok && reached }
  | server (e) : Local e → Endpoint.Enabled Endpoint.server s.server e →
      (e = .drop → ∀ u, (s.accept u).holds = false) →
      Step s (.server e) { s with server := Endpoint.next Endpoint.server s.server e }
  | portConnect (u rest) : s.down = .control u :: rest → s.dialing = none →
      Step s .npReceive { s with down := rest, dialing := some (u, .connecting) }
  | npMessage (u m rest) : s.down = .port u m :: rest → s.dialing = none →
      Endpoint.Enabled Endpoint.np s.np (.receive u m) →
      Step s .npReceive { s with
        down := rest, np := Endpoint.next Endpoint.np s.np (.receive u m) }
  | dialed (u) : s.dialing = some (u, .connecting) →
      Endpoint.Enabled Endpoint.np s.np (.register u) →
      Step s (.dial true) { s with
        np := Endpoint.next Endpoint.np s.np (.register u)
        dialing := some (u, .answering true) }
  | undialed (u) : s.dialing = some (u, .connecting) →
      Step s (.dial false) { s with dialing := some (u, .answering false) }
  | answer (u result ok reached) : s.dialing = some (u, .answering result) →
      (reached = true → s.upIntact = true) →
      Step s (.answer ok reached) { s with
        dialing := none
        up := transmit s.up (.control (u, result)) reached
        upIntact := s.upIntact && ok && reached }
  | npSend (u m ok reached) : (s.np.port u).phase = .sending m →
      Endpoint.Enabled Endpoint.np s.np (.send u ok) →
      (reached = true → s.upIntact = true) →
      (ok = true → reached = true ∨ s.np.running = false) →
      Step s (.npSend u ok reached) { s with
        np := Endpoint.next Endpoint.np s.np (.send u ok)
        up := transmit s.up (.port u m) reached
        upIntact := s.upIntact && ok && reached }
  | np (e) : Local e → Endpoint.Enabled Endpoint.np s.np e →
      (s.dialing ≠ none → e ≠ .stop ∧ e ≠ .clear ∧ e ≠ .drop) →
      Step s (.np e) { s with np := Endpoint.next Endpoint.np s.np e }

theorem next_step {s : State U} {e : Event U} (he : Enabled s e) : Step s e (next s e) := by
  cases e with
  | accept u => exact .accept u he.1 he.2
  | connect u ok reached => exact .connect u ok reached he.1 he.2.1 he.2.2
  | wake u =>
    obtain ⟨hw, hc⟩ := he
    obtain ⟨answer, hc⟩ := Option.ne_none_iff_exists'.mp hc
    simpa [next, hc] using Step.wake u answer hw hc
  | spawn u => exact .spawn u he.1 he.2
  | serverReceive =>
    obtain ⟨hd, hr, ha, hn⟩ := he
    simp only [next, serverReceive]
    split
    next hu => exact absurd hu hn
    next u ok rest hu =>
      split
      next hc => exact .connected u ok rest hu hc
      next hc => exact .noRequest u ok rest hu (by simpa using hc) ⟨hd, hr⟩
    next u m rest hu => exact .portMessage u m rest hu ⟨hd, hr, ha⟩
  | serverSend u ok reached =>
    obtain ⟨⟨m, hp⟩, hl, hr⟩ := he
    simpa [next, serverSend, hp] using Step.serverSend u m ok reached hp ⟨m, hp⟩ hl hr
  | server a => exact .server a he.1 he.2.1 he.2.2
  | npReceive =>
    obtain ⟨hd, hr, ha, hdial, hn⟩ := he
    simp only [next, npReceive]
    split
    next hw => exact absurd hw hn
    next u rest hw => exact .portConnect u rest hw hdial
    next u m rest hw => exact .npMessage u m rest hw hdial ⟨hd, hr, ha⟩
  | dial ok =>
    obtain ⟨u, hd, hreg⟩ := he
    cases ok with
    | true => simpa [next, dial, hd] using Step.dialed u hd (hreg rfl)
    | false => simpa [next, dial, hd] using Step.undialed u hd
  | answer ok reached =>
    obtain ⟨⟨u, result, hd⟩, hl, _⟩ := he
    simpa [next, answer, hd] using Step.answer u result ok reached hd hl
  | npSend u ok reached =>
    obtain ⟨⟨m, hp⟩, hl, hr⟩ := he
    simpa [next, npSend, hp] using Step.npSend u m ok reached hp ⟨m, hp⟩ hl hr
  | np a => exact .np a he.1 he.2.1 he.2.2

/-- What a step of the tunnel is at the server: nothing, or one step of its endpoint. -/
theorem Step.atServer {s t : State U} {e : Event U} (h : Step s e t) :
    t.server = s.server ∨ ∃ a, Endpoint.Enabled Endpoint.server s.server a ∧
      t.server = Endpoint.next Endpoint.server s.server a ∧
      (Local a → e = .server a ∨ (a = .stop ∧
        ∃ u ok rest, s.up = .control (u, ok) :: rest ∧ s.connectRequests u = false)) ∧
      ∀ u, a = .send u false → t.downIntact = false := by
  cases h with
  | spawn u _ hr => exact Or.inr ⟨_, hr, rfl, False.elim, by simp⟩
  | noRequest u ok rest hu hc hs =>
    exact Or.inr ⟨_, hs, rfl, fun _ => Or.inr ⟨rfl, u, ok, rest, hu, hc⟩, by simp⟩
  | portMessage u m rest _ hr => exact Or.inr ⟨_, hr, rfl, False.elim, by simp⟩
  | serverSend u m ok reached _ hs =>
    refine Or.inr ⟨_, hs, rfl, False.elim, ?_⟩
    intro v hv
    obtain ⟨rfl, rfl⟩ : u = v ∧ ok = false := by simpa using hv
    simp
  | server a hl ha =>
    exact Or.inr ⟨a, ha, rfl, fun _ => Or.inl rfl, fun u hu => absurd hu (hl.not_send u false)⟩
  | accept | connect | wake | connected | portConnect | npMessage | dialed | undialed
  | answer | npSend | np => exact Or.inl rfl

theorem Step.atNp {s t : State U} {e : Event U} (h : Step s e t) :
    t.np = s.np ∨ ∃ a, Endpoint.Enabled Endpoint.np s.np a ∧
      t.np = Endpoint.next Endpoint.np s.np a ∧
      (Local a → e = .np a) ∧ ∀ u, a = .send u false → t.upIntact = false := by
  cases h with
  | npMessage u m rest _ _ hr => exact Or.inr ⟨_, hr, rfl, False.elim, by simp⟩
  | dialed u _ hr => exact Or.inr ⟨_, hr, rfl, False.elim, by simp⟩
  | npSend u m ok reached _ hs =>
    refine Or.inr ⟨_, hs, rfl, False.elim, ?_⟩
    intro v hv
    obtain ⟨rfl, rfl⟩ : u = v ∧ ok = false := by simpa using hv
    simp
  | np a hl ha =>
    exact Or.inr ⟨a, ha, rfl, fun _ => rfl, fun u hu => absurd hu (hl.not_send u false)⟩
  | accept | connect | wake | spawn | connected | noRequest | portMessage | serverSend
  | server | portConnect | undialed | answer => exact Or.inl rfl

inductive AcceptStep (s : State U) (e : Event U) (u : U) : Accept → Prop where
  | kept : AcceptStep s e u (s.accept u)
  | accepted : s.accept u = .idle → e = .accept u → AcceptStep s e u .requested
  | connected (ok reached) : s.accept u = .requested → e = .connect u ok reached →
      AcceptStep s e u (if ok then .waiting else .failed)
  | woken (answer) : s.accept u = .waiting → s.connected u = some answer → e = .wake u →
      AcceptStep s e u (if answer then .registering else .failed)
  | spawned : s.accept u = .registering → e = .spawn u → AcceptStep s e u .spawned

theorem Step.acceptLoop {s t : State U} {e : Event U} (h : Step s e t) (u : U) :
    AcceptStep s e u (t.accept u) := by
  cases h with
  | accept v ha _ =>
    by_cases hv : u = v
    · subst hv; simpa using AcceptStep.accepted ha rfl
    · simpa [hv] using AcceptStep.kept
  | connect v ok reached ha _ _ =>
    by_cases hv : u = v
    · subst hv; simpa using AcceptStep.connected ok reached ha rfl
    · simpa [hv] using AcceptStep.kept
  | wake v answer ha hc =>
    by_cases hv : u = v
    · subst hv; simpa using AcceptStep.woken answer ha hc rfl
    · simpa [hv] using AcceptStep.kept
  | spawn v ha _ =>
    by_cases hv : u = v
    · subst hv; simpa using AcceptStep.spawned ha rfl
    · simpa [hv] using AcceptStep.kept
  | connected | noRequest | portMessage | serverSend | server | portConnect | npMessage
  | dialed | undialed | answer | npSend | np => exact .kept

def Spawned (s : State U) (u : U) : Prop := (s.np.port u).phase ≠ .absent

/-- How each stage of the handshake is backed: a task at the server, an answer on its way
and a frame for np all mean that np has started its own task. -/
structure Handshake (s : State U) : Prop where
  serving : ∀ u, (s.server.port u).phase ≠ .absent → s.accept u = .spawned
  accepted : ∀ u, s.accept u = .registering ∨ s.accept u = .spawned → Spawned s u
  oneshot : ∀ u, s.connected u = some true → Spawned s u
  answered : ∀ u, .control (u, true) ∈ s.up → Spawned s u
  dialed : ∀ u, s.dialing = some (u, .answering true) → Spawned s u
  framed : ∀ u m, .port u m ∈ s.down → Spawned s u
  looked : ∀ u m, s.np.dispatcher = .lookup u m → Spawned s u

/-- What each end maintains, both directions of the websocket, and the handshake. -/
structure Invariant (s : State U) : Prop where
  server : Endpoint.Invariant s.server
  np : Endpoint.Invariant s.np
  serverPorts : ∀ u, Sound s.server.alive (s.server.port u)
  npPorts : ∀ u, Sound s.np.alive (s.np.port u)
  upward : ∀ u, Carries s.np s.server s.up s.upIntact u
  downward : ∀ u, Carries s.server s.np s.down s.downIntact u
  handshake : Handshake s

theorem initial_invariant : Invariant (initial : State U) := by
  refine ⟨Endpoint.initial_invariant, Endpoint.initial_invariant, fun _ => fresh_sound _,
    fun _ => fresh_sound _, fun _ => initial_carries, fun _ => initial_carries, ?_⟩
  constructor <;> simp [initial, Endpoint.initial, Endpoint.Port.fresh]

variable {s t : State U} {e : Event U}

theorem spawned_step (h : Step s e t) {u : U} (hb : Spawned s u) : Spawned t u := by
  unfold Spawned at *
  rcases h.atNp with hn | ⟨a, ha, hn, _⟩
  · rw [hn]; exact hb
  · rw [hn]; exact Endpoint.born_step Endpoint.np ha hb

/-- An accept loop that has not spawned its task serves no port, so it may move on, as far
as np's task backs it. -/
theorem Handshake.move (h : Handshake s) {u : U} {a : Accept} (before : s.accept u ≠ .spawned)
    (after : a = .registering ∨ a = .spawned → Spawned s u) :
    (∀ v, (s.server.port v).phase ≠ .absent → Function.update s.accept u a v = .spawned) ∧
    ∀ v, Function.update s.accept u a v = .registering ∨
      Function.update s.accept u a v = .spawned → Spawned s v := by
  refine ⟨fun v hv => ?_, fun v hv => ?_⟩
  · have hne : v ≠ u := by
      rintro rfl
      exact before (h.serving v hv)
    simpa [hne] using h.serving v hv
  · by_cases hne : v = u
    · subst hne; exact after (by simpa using hv)
    · exact h.accepted v (by simpa [hne] using hv)

theorem handshake_step (hi : Invariant s) (h : Step s e t) : Handshake t := by
  have keep : ∀ u, Spawned s u → Spawned t u := fun u => spawned_step h
  obtain ⟨serving, accepted, oneshot, answered, dialed, framed, looked⟩ := hi.handshake
  cases h with
  | accept u ha _ =>
    obtain ⟨hserving, haccepted⟩ :=
      hi.handshake.move (u := u) (a := .requested) (by simp [ha]) (by simp)
    exact ⟨hserving, haccepted, oneshot, answered, dialed, framed, looked⟩
  | connect u ok reached ha _ _ =>
    obtain ⟨hserving, haccepted⟩ := hi.handshake.move
      (u := u) (a := if ok then .waiting else .failed) (by simp [ha]) (by cases ok <;> simp)
    refine ⟨hserving, haccepted, oneshot, answered, dialed, ?_, looked⟩
    intro v m hm
    rcases mem_transmit.mp hm with hm | ⟨_, heq⟩
    · exact framed v m hm
    · cases heq
  | wake u answer ha hc =>
    have after : (if answer then Accept.registering else .failed) = .registering ∨
        (if answer then Accept.registering else .failed) = .spawned → Spawned s u := by
      cases answer with
      | true => exact fun _ => oneshot u hc
      | false => simp
    obtain ⟨hserving, haccepted⟩ := hi.handshake.move (by simp [ha]) after
    exact ⟨hserving, haccepted, oneshot, answered, dialed, framed, looked⟩
  | spawn u ha hr =>
    refine ⟨?_, ?_, oneshot, answered, dialed, framed, looked⟩
    · intro v hv
      by_cases hne : v = u
      · simp [hne]
      · simpa [hne] using serving v (by simpa [Endpoint.next, hne] using hv)
    · intro v hv
      by_cases hne : v = u
      · subst hne; exact accepted v (Or.inl ha)
      · exact accepted v (by simpa [hne] using hv)
  | connected u ok rest hu _ =>
    refine ⟨serving, accepted, ?_, ?_, dialed, framed, looked⟩
    · intro v hv
      by_cases hne : v = u
      · subst hne
        obtain rfl : ok = true := by simpa using hv
        exact answered v (by simp [hu])
      · exact oneshot v (by simpa [hne] using hv)
    · exact fun v hv => answered v (by simp [hu, hv])
  | noRequest u ok rest hu _ hs =>
    exact ⟨serving, accepted, oneshot, fun v hv => answered v (by simp [hu, hv]), dialed,
      framed, looked⟩
  | portMessage u m rest hu hr =>
    exact ⟨serving, accepted, oneshot, fun v hv => answered v (by simp [hu, hv]), dialed,
      framed, looked⟩
  | serverSend u m ok reached hp hsend _ _ =>
    have hs : s.accept u = .spawned := serving u (by simp [hp])
    refine ⟨?_, accepted, oneshot, answered, dialed, ?_, looked⟩
    · intro v hv
      apply serving v
      exact fun hv' => hv (Endpoint.unborn_step Endpoint.server hsend (by simp) hv')
    · intro v k hk
      rcases mem_transmit.mp hk with hk | ⟨_, heq⟩
      · exact framed v k hk
      · cases heq
        exact accepted u (Or.inr hs)
  | server a hl ha _ =>
    refine ⟨?_, accepted, oneshot, answered, dialed, framed, looked⟩
    intro v hv
    apply serving v
    intro hv'
    refine hv (Endpoint.unborn_step Endpoint.server ha ?_ hv')
    rintro rfl
    exact hl
  | portConnect u rest hw _ =>
    refine ⟨serving, accepted, oneshot, answered, ?_, fun v m hm => framed v m (by simp [hw, hm]),
      looked⟩
    intro v hv
    simp at hv
  | npMessage u m rest hw hd hr =>
    refine ⟨serving, accepted, oneshot, answered, dialed,
      fun v k hk => framed v k (by simp [hw, hk]), ?_⟩
    intro v k hk
    obtain ⟨rfl, rfl⟩ : u = v ∧ m = k := by simpa [Endpoint.next] using hk
    exact framed u m (by simp [hw])
  | dialed u hd hr =>
    refine ⟨serving, fun v hv => keep v (accepted v hv), fun v hv => keep v (oneshot v hv),
      fun v hv => keep v (answered v hv), ?_, fun v m hm => keep v (framed v m hm),
      fun v m hm => keep v (looked v m hm)⟩
    intro v hv
    obtain rfl : u = v := by simpa using hv
    simp [Spawned, Endpoint.next]
  | undialed u hd =>
    refine ⟨serving, accepted, oneshot, answered, ?_, framed, looked⟩
    intro v hv
    simp at hv
  | answer u result ok reached hd _ =>
    refine ⟨serving, accepted, oneshot, ?_, ?_, framed, looked⟩
    · intro v hv
      rcases mem_transmit.mp hv with hv | ⟨_, heq⟩
      · exact answered v hv
      · cases heq
        exact dialed u hd
    · intro v hv
      simp at hv
  | npSend u m ok reached hp hsend _ _ =>
    refine ⟨serving, fun v hv => keep v (accepted v hv), fun v hv => keep v (oneshot v hv), ?_,
      fun v hv => keep v (dialed v hv), fun v m hm => keep v (framed v m hm), ?_⟩
    · intro v hv
      rcases mem_transmit.mp hv with hv | ⟨_, heq⟩
      · exact keep v (answered v hv)
      · cases heq
    · intro v k hk
      exact keep v (looked v k (Endpoint.lookup_before Endpoint.np hsend (by simp) hk))
  | np a hl ha _ =>
    refine ⟨serving, fun v hv => keep v (accepted v hv), fun v hv => keep v (oneshot v hv),
      fun v hv => keep v (answered v hv), fun v hv => keep v (dialed v hv),
      fun v m hm => keep v (framed v m hm), ?_⟩
    intro v k hk
    refine keep v (looked v k (Endpoint.lookup_before Endpoint.np ha ?_ hk))
    rintro rfl
    exact hl

theorem upward_step (hi : Invariant s) (h : Step s e t) (v : U) :
    Carries t.np t.server t.up t.upIntact v := by
  have hv := hi.upward v
  have known : Endpoint.server.stopsOnError = true ∨
    ∀ u m, s.server.dispatcher = .lookup u m → (s.server.port u).phase ≠ .absent := Or.inl rfl
  cases h with
  | spawn u _ hr => exact hv.receiver Endpoint.server hi.server hr (by simp) known
  | connected u ok rest hu _ =>
    rw [hu] at hv
    exact hv.skip
  | noRequest u ok rest hu _ hs =>
    rw [hu] at hv
    exact hv.skip.receiver Endpoint.server hi.server hs (by simp) known
  | portMessage u m rest hu hr =>
    rw [hu] at hv
    exact hv.take Endpoint.server hr
  | serverSend u m ok reached _ hs _ _ =>
    exact hv.receiver Endpoint.server hi.server hs (by simp) known
  | server a hl ha _ => exact hv.receiver Endpoint.server hi.server ha hl.not_receive known
  | npMessage u m rest _ _ hr => exact hv.sender Endpoint.np hr (by simp)
  | dialed u _ hr => exact hv.sender Endpoint.np hr (by simp)
  | answer u result ok reached _ _ => exact hv.control
  | npSend u m ok reached hp _ hl _ => exact hv.send Endpoint.np hp hl
  | np a hl ha _ => exact hv.sender Endpoint.np ha hl.not_send
  | accept | connect | wake | portConnect | undialed => exact hv

theorem downward_step (hi : Invariant s) (h : Step s e t) (v : U) :
    Carries t.server t.np t.down t.downIntact v := by
  have hv := hi.downward v
  have known : Endpoint.np.stopsOnError = true ∨
    ∀ u m, s.np.dispatcher = .lookup u m → (s.np.port u).phase ≠ .absent :=
    Or.inr hi.handshake.looked
  cases h with
  | connect u ok reached _ _ _ => exact hv.control
  | spawn u _ hr => exact hv.sender Endpoint.server hr (by simp)
  | noRequest u ok rest _ _ hs => exact hv.sender Endpoint.server hs (by simp)
  | portMessage u m rest _ hr => exact hv.sender Endpoint.server hr (by simp)
  | serverSend u m ok reached hp _ hl _ => exact hv.send Endpoint.server hp hl
  | server a hl ha _ => exact hv.sender Endpoint.server ha hl.not_send
  | portConnect u rest hw _ =>
    rw [hw] at hv
    exact hv.skip
  | npMessage u m rest hw _ hr =>
    rw [hw] at hv
    exact hv.take Endpoint.np hr
  | dialed u _ hr => exact hv.receiver Endpoint.np hi.np hr (by simp) known
  | npSend u m ok reached _ hs _ _ => exact hv.receiver Endpoint.np hi.np hs (by simp) known
  | np a hl ha _ => exact hv.receiver Endpoint.np hi.np ha hl.not_receive known
  | accept | wake | connected | undialed | answer => exact hv

theorem step_invariant (hi : Invariant s) (h : Step s e t) : Invariant t := by
  refine ⟨?_, ?_, ?_, ?_, upward_step hi h, downward_step hi h, handshake_step hi h⟩
  · rcases h.atServer with hs | ⟨a, ha, hs, _⟩
    · rw [hs]; exact hi.server
    · rw [hs]; exact Endpoint.step_invariant Endpoint.server hi.server ha
  · rcases h.atNp with hn | ⟨a, ha, hn, _⟩
    · rw [hn]; exact hi.np
    · rw [hn]; exact Endpoint.step_invariant Endpoint.np hi.np ha
  · rcases h.atServer with hs | ⟨a, ha, hs, _⟩
    · rw [hs]; exact hi.serverPorts
    · rw [hs]; exact step_sound Endpoint.server ha hi.serverPorts
  · rcases h.atNp with hn | ⟨a, ha, hn, _⟩
    · rw [hn]; exact hi.npPorts
    · rw [hn]; exact step_sound Endpoint.np ha hi.npPorts

theorem enabled_invariant {s : State U} {e : Event U} (hi : Invariant s) (he : Enabled s e) :
    Invariant (next s e) :=
  step_invariant hi (next_step he)

theorem reachable_invariant {s : State U} (h : Reachable tunnel s) : Invariant s :=
  Reachable.invariant (M := tunnel) initial_invariant (fun _ _ => enabled_invariant) h

end Tunnel
