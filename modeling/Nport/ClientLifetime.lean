import Nport.GuardedMachine
import Nport.SharedReference
import Mathlib.Logic.Function.Basic

/-! One client in the server and all that keeps it alive: handle_socket with the registry,
the accept loops of port_server::server, the tasks that serve_socket spawns, and HTTP
forward calls. The Client goes with its last strong reference, and only then go the closers
of its ports and the senders in connect_requests. -/
namespace ClientLifetime

open GuardedMachine
open SharedReference

/-- handle_socket, after the welcome message. -/
inductive Session (P : Type*) where
  | serving
  /-- server has returned the Port, register_port is still to come -/
  | opening (p : P)
  /-- the loop is left, deregister has not returned -/
  | leaving
  | returned
  deriving DecidableEq, Repr

/-- The websocket to the client, as send meets it. -/
inductive Sink where
  | ready
  /-- the peer takes nothing -/
  | stalled
  | broken
  deriving DecidableEq, Repr

/-- The task of server with its listener; serve_socket runs inside it. -/
inductive AcceptLoop (U : Type*) where
  | absent
  | select
  /-- before client.upgrade() -/
  | accepted (uuid : U)
  | connecting (uuid : U)
  /-- rx.await -/
  | waiting (uuid : U)
  | registering (uuid : U)
  | ended
  deriving DecidableEq, Repr

/-- The task serve_socket spawns for an established connection. -/
inductive Task where
  | absent
  | select
  | writing
  /-- client.send of PortReceive, or of the last message, PortClose -/
  | sending (last : Bool)
  | left
  | removing
  | ended
  deriving DecidableEq, Repr

inductive Forward where
  | idle
  | found
  | sending
  | finished
  deriving DecidableEq, Repr

/-- Who can hold an Arc<Client>; handle_socket counts with the registry. -/
inductive Holder (P U K : Type*) where
  | session
  | acceptLoop (p : P)
  | task (uuid : U)
  | forward (k : K)
  deriving DecidableEq, Repr

variable {P U K : Type*}

def Session.holds : Session P → Bool
  | .returned => false
  | _ => true

/-- The listener is moved into the task. -/
def AcceptLoop.listening : AcceptLoop U → Bool
  | .absent | .ended => false
  | _ => true

@[simp] theorem AcceptLoop.listening_eq_false {x : AcceptLoop U} :
    x.listening = false ↔ x = .absent ∨ x = .ended := by
  cases x <;> simp [listening]

def AcceptLoop.holds : AcceptLoop U → Bool
  | .connecting _ | .waiting _ | .registering _ => true
  | _ => false

def Task.holds : Task → Bool
  | .sending _ | .removing => true
  | _ => false

def Forward.holds : Forward → Bool
  | .found | .sending => true
  | _ => false

structure State (P U K : Type*) where
  session : Session P
  sink : Sink
  acceptLoop : P → AcceptLoop U
  openPorts : P → Bool
  connectRequests : U → Bool
  /-- what the oneshot of the uuid holds: whether PortConnected has no error -/
  connected : U → Option Bool
  drawn : U → Bool
  task : U → Task
  forward : K → Forward
  strong : Finset (Holder P U K)

inductive Event (P U K : Type*) where
  | bind (p : P)
  | registerPort (p : P)
  | portConnected (uuid : U) (ok : Bool)
  | leave
  | deregister
  | sink (becomes : Sink)
  | accept (p : P) (uuid : U)
  | upgrade (p : P) (uuid : U)
  | connect (p : P) (uuid : U) (ok : Bool)
  | wake (p : P) (uuid : U) (ok : Bool)
  | recvError (p : P) (uuid : U)
  | spawn (p : P) (uuid : U) (vacant : Bool)
  | close (p : P)
  | read (uuid : U) (last : Bool)
  | sent (uuid : U) (last : Bool)
  | tick (uuid : U)
  | write (uuid : U)
  | written (uuid : U) (ok : Bool)
  | stop (uuid : U)
  | remove (uuid : U)
  | removed (uuid : U)
  | lookup (k : K)
  | enqueue (k : K)
  | forwarded (k : K)
  | abort (k : K)

def holds (s : State P U K) : Holder P U K → Bool
  | .session => s.session.holds
  | .acceptLoop p => (s.acceptLoop p).holds
  | .task u => (s.task u).holds
  | .forward k => (s.forward k).holds

variable [DecidableEq P] [DecidableEq U] [DecidableEq K]

def initial : State P U K :=
  ⟨.serving, .ready, fun _ => .absent, fun _ => false, fun _ => false, fun _ => none,
    fun _ => false, fun _ => .absent, fun _ => .idle, {.session}⟩

/-! The Arc in scope at each point of the source goes with the phase. -/

def setSession (s : State P U K) (x : Session P) : State P U K :=
  { s with session := x, strong := own s.strong .session x.holds }

def setLoop (s : State P U K) (p : P) (x : AcceptLoop U) : State P U K :=
  { s with
    acceptLoop := Function.update s.acceptLoop p x
    strong := own s.strong (.acceptLoop p) x.holds }

def setTask (s : State P U K) (u : U) (x : Task) : State P U K :=
  { s with
    task := Function.update s.task u x
    strong := own s.strong (.task u) x.holds }

def setForward (s : State P U K) (k : K) (x : Forward) : State P U K :=
  { s with
    forward := Function.update s.forward k x
    strong := own s.strong (.forward k) x.holds }

def Enabled (s : State P U K) : Event P U K → Prop
  | .bind p => s.session = .serving ∧ s.acceptLoop p = .absent
  | .registerPort p => s.session = .opening p
  | .portConnected u _ => s.session = .serving ∧ s.connectRequests u = true
  | .leave => s.session = .serving
  | .deregister => s.session = .leaving
  | .sink _ => s.sink ≠ .broken
  | .accept p u => s.acceptLoop p = .select ∧ s.drawn u = false
  | .upgrade p u => s.acceptLoop p = .accepted u
  | .connect p u ok => s.acceptLoop p = .connecting u ∧
      s.sink = if ok then .ready else .broken
  | .wake p u ok => s.acceptLoop p = .waiting u ∧ s.connected u = some ok
  | .recvError p u => s.acceptLoop p = .waiting u ∧ s.connected u = none ∧
      (s.connectRequests u = false ∨ Dropped s.strong)
  | .spawn p u _ => s.acceptLoop p = .registering u
  | .close p => s.acceptLoop p = .select ∧ s.openPorts p = true ∧ Dropped s.strong
  | .read u _ | .tick u | .write u | .stop u => s.task u = .select
  | .sent u last => s.task u = .sending last ∧ s.sink ≠ .stalled
  | .written u _ => s.task u = .writing
  | .remove u => s.task u = .left
  | .removed u => s.task u = .removing
  | .lookup k => s.forward k = .idle ∧ s.session ≠ .returned
  | .enqueue k => s.forward k = .found
  | .forwarded k => s.forward k = .sending ∧ s.sink ≠ .stalled
  | .abort k => s.forward k = .found ∨ s.forward k = .sending

def next (s : State P U K) : Event P U K → State P U K
  | .bind p => setSession (setLoop s p .select) (.opening p)
  | .registerPort p => { setSession s .serving with
      openPorts := Function.update s.openPorts p true }
  | .portConnected u ok => { s with
      connectRequests := Function.update s.connectRequests u false
      connected := Function.update s.connected u (some ok) }
  | .leave => setSession s .leaving
  | .deregister => setSession s .returned
  | .sink becomes => { s with sink := becomes }
  | .accept p u => { setLoop s p (.accepted u) with
      drawn := Function.update s.drawn u true }
  | .upgrade p u =>
    if Dropped s.strong then setLoop s p .ended
    else { setLoop s p (.connecting u) with
      connectRequests := Function.update s.connectRequests u true }
  | .connect p u ok => setLoop s p (if ok then .waiting u else .ended)
  | .wake p u ok => setLoop s p (if ok then .registering u else .select)
  | .recvError p _ => setLoop s p .select
  | .spawn p u vacant =>
    let s := setLoop s p .select
    if vacant then setTask s u .select else s
  | .close p => setLoop s p .ended
  | .read u last => setTask s u (if Dropped s.strong then .left else .sending last)
  | .sent u last => setTask s u (if last then .left else .select)
  | .tick u => if Dropped s.strong then setTask s u .left else s
  | .write u => setTask s u .writing
  | .written u ok => setTask s u (if ok then .select else .left)
  | .stop u => setTask s u .left
  | .remove u => setTask s u (if Dropped s.strong then .ended else .removing)
  | .removed u => setTask s u .ended
  | .lookup k => setForward s k .found
  | .enqueue k => setForward s k .sending
  | .forwarded k | .abort k => setForward s k .finished

instance (s : State P U K) (e : Event P U K) : Decidable (Enabled s e) := by
  cases e <;> simp only [Enabled] <;> infer_instance

def lifetime : Machine (State P U K) (Event P U K) := ⟨initial, Enabled, next⟩

instance (s : State P U K) (e : Event P U K) : Decidable (lifetime.Enabled s e) :=
  inferInstanceAs (Decidable (Enabled s e))

structure Invariant (s : State P U K) : Prop where
  tracks : Tracks s.strong (holds s)
  awaited : ∀ p u, s.acceptLoop p = .connecting u ∨ s.acceptLoop p = .waiting u →
    s.connected u = none → s.connectRequests u = true
  opened : ∀ p, s.acceptLoop p ≠ .absent → s.openPorts p = true ∨ s.session = .opening p
  ended : ∀ p, s.acceptLoop p = .ended → s.sink = .broken ∨ Dropped s.strong

omit [DecidableEq P] [DecidableEq U] [DecidableEq K] in
theorem initial_invariant : Invariant (initial : State P U K) := by
  refine ⟨?_, by simp [initial], by simp [initial], by simp [initial]⟩
  intro h
  cases h <;> simp [initial, holds, Session.holds, AcceptLoop.holds, Task.holds, Forward.holds]

/-! Each setter keeps the references in step with the phases. -/

variable {s : State P U K}

theorem tracks_setSession (h : Tracks s.strong (holds s)) (x : Session P) :
    Tracks (setSession s x).strong (holds (setSession s x)) := by
  refine h.own rfl fun y hy => ?_
  cases y with
  | session => exact absurd rfl hy
  | acceptLoop | task | forward => rfl

theorem tracks_setLoop (h : Tracks s.strong (holds s)) (p : P) (x : AcceptLoop U) :
    Tracks (setLoop s p x).strong (holds (setLoop s p x)) := by
  refine h.own (by simp [holds, setLoop]) fun y hy => ?_
  cases y with
  | acceptLoop q =>
    have hq : q ≠ p := fun he => hy (by rw [he])
    simp [holds, setLoop, hq]
  | session | task | forward => rfl

theorem tracks_setTask (h : Tracks s.strong (holds s)) (u : U) (x : Task) :
    Tracks (setTask s u x).strong (holds (setTask s u x)) := by
  refine h.own (by simp [holds, setTask]) fun y hy => ?_
  cases y with
  | task v =>
    have hv : v ≠ u := fun he => hy (by rw [he])
    simp [holds, setTask, hv]
  | session | acceptLoop | forward => rfl

theorem tracks_setForward (h : Tracks s.strong (holds s)) (k : K) (x : Forward) :
    Tracks (setForward s k x).strong (holds (setForward s k x)) := by
  refine h.own (by simp [holds, setForward]) fun y hy => ?_
  cases y with
  | forward j =>
    have hj : j ≠ k := fun he => hy (by rw [he])
    simp [holds, setForward, hj]
  | session | acceptLoop | task => rfl

theorem step_tracks (h : Tracks s.strong (holds s)) (e : Event P U K) :
    Tracks (next s e).strong (holds (next s e)) := by
  cases e with
  | bind p => exact tracks_setSession (tracks_setLoop h p .select) (.opening p)
  | registerPort => exact tracks_setSession h .serving
  | leave => exact tracks_setSession h .leaving
  | deregister => exact tracks_setSession h .returned
  | portConnected | sink => exact h
  | accept p u => exact tracks_setLoop h p (.accepted u)
  | upgrade p u =>
    simp only [next]
    split
    · exact tracks_setLoop h p .ended
    · exact tracks_setLoop h p (.connecting u)
  | connect p | wake p | recvError p | close p => exact tracks_setLoop h p _
  | spawn p u vacant =>
    cases vacant with
    | false => exact tracks_setLoop h p .select
    | true => exact tracks_setTask (tracks_setLoop h p .select) u .select
  | read u | sent u | write u | written u | stop u | remove u | removed u =>
    exact tracks_setTask h u _
  | tick u =>
    simp only [next]
    split
    · exact tracks_setTask h u .left
    · exact h
  | lookup k | enqueue k | forwarded k | abort k => exact tracks_setForward h k _

variable {e : Event P U K}

theorem step_dropped (h : Tracks s.strong (holds s)) (he : Enabled s e)
    (hd : Dropped s.strong) : Dropped (next s e).strong := by
  have hsession : s.session.holds = false := by
    simpa [holds] using mt (h.not_dropped (x := .session)) (not_not_intro hd)
  have hloop : ∀ p, (s.acceptLoop p).holds = false := fun p => by
    simpa [holds] using mt (h.not_dropped (x := .acceptLoop p)) (not_not_intro hd)
  have hforward : ∀ k, (s.forward k).holds = false := fun k => by
    simpa [holds] using mt (h.not_dropped (x := .forward k)) (not_not_intro hd)
  cases e with
  | bind => simp [he.1, Session.holds] at hsession
  | registerPort => simp [show s.session = .opening _ from he, Session.holds] at hsession
  | leave => simp [show s.session = .serving from he, Session.holds] at hsession
  | deregister => exact own_dropped hd _
  | portConnected | sink => exact hd
  | accept => exact own_dropped hd _
  | upgrade p =>
    simp only [next, hd, if_true]
    exact own_dropped hd _
  | connect p =>
    have hp := hloop p
    simp [he.1, AcceptLoop.holds] at hp
  | wake p =>
    have hp := hloop p
    simp [he.1, AcceptLoop.holds] at hp
  | recvError | close => exact own_dropped hd _
  | spawn p =>
    have hp := hloop p
    simp [show s.acceptLoop p = .registering _ from he, AcceptLoop.holds] at hp
  | read =>
    simp only [next, hd, if_true]
    exact own_dropped hd _
  | sent u last => cases last <;> exact own_dropped hd _
  | tick =>
    simp only [next, hd, if_true]
    exact own_dropped hd _
  | write | stop | removed => exact own_dropped hd _
  | written u ok => cases ok <;> exact own_dropped hd _
  | remove =>
    simp only [next, hd, if_true]
    exact own_dropped hd _
  | lookup =>
    cases hs : s.session with
    | returned => exact absurd hs he.2
    | _ => simp [hs, Session.holds] at hsession
  | enqueue k =>
    have hk := hforward k
    simp [show s.forward k = .found from he, Forward.holds] at hk
  | forwarded | abort => exact own_dropped hd _

inductive LoopStep (s : State P U K) (e : Event P U K) (q : P) : AcceptLoop U → Prop where
  | kept : LoopStep s e q (s.acceptLoop q)
  | bound : s.acceptLoop q = .absent → e = .bind q → LoopStep s e q .select
  | accepted (u) : s.acceptLoop q = .select → LoopStep s e q (.accepted u)
  | upgraded (u) : s.acceptLoop q = .accepted u → e = .upgrade q u →
      ¬ Dropped s.strong → LoopStep s e q (.connecting u)
  | gone : s.acceptLoop q ≠ .absent → Dropped s.strong → LoopStep s e q .ended
  | sent (u) : s.acceptLoop q = .connecting u → e = .connect q u true →
      LoopStep s e q (.waiting u)
  | failed (u) : s.acceptLoop q = .connecting u → s.sink = .broken → e = .connect q u false →
      LoopStep s e q .ended
  | woken (u ok) : s.acceptLoop q = .waiting u → s.connected u = some ok →
      LoopStep s e q (if ok then .registering u else .select)
  | lost (u) : s.acceptLoop q = .waiting u → s.connected u = none →
      s.connectRequests u = false ∨ Dropped s.strong → LoopStep s e q .select
  | spawned (u) : s.acceptLoop q = .registering u → LoopStep s e q .select

theorem next_loop (he : Enabled s e) (q : P) : LoopStep s e q ((next s e).acceptLoop q) := by
  cases e with
  | bind p =>
    by_cases hq : q = p
    · subst hq; simpa [next, setLoop, setSession] using LoopStep.bound he.2 rfl
    · simpa [next, setLoop, setSession, hq] using LoopStep.kept
  | accept p u =>
    by_cases hq : q = p
    · subst hq; simpa [next, setLoop] using LoopStep.accepted u he.1
    · simpa [next, setLoop, hq] using LoopStep.kept
  | upgrade p u =>
    by_cases hq : q = p
    · subst hq
      by_cases hd : Dropped s.strong
      · have hp : s.acceptLoop q ≠ .absent := by simp [show s.acceptLoop q = .accepted u from he]
        simpa [next, hd, setLoop] using LoopStep.gone hp hd
      · simpa [next, hd, setLoop] using LoopStep.upgraded u he rfl hd
    · by_cases hd : Dropped s.strong <;> simpa [next, hd, setLoop, hq] using LoopStep.kept
  | connect p u ok =>
    by_cases hq : q = p
    · subst hq
      cases ok with
      | true => simpa [next, setLoop] using LoopStep.sent u he.1 rfl
      | false => simpa [next, setLoop] using LoopStep.failed u he.1 he.2 rfl
    · simpa [next, setLoop, hq] using LoopStep.kept
  | wake p u ok =>
    by_cases hq : q = p
    · subst hq; simpa [next, setLoop] using LoopStep.woken u ok he.1 he.2
    · simpa [next, setLoop, hq] using LoopStep.kept
  | recvError p u =>
    by_cases hq : q = p
    · subst hq; simpa [next, setLoop] using LoopStep.lost u he.1 he.2.1 he.2.2
    · simpa [next, setLoop, hq] using LoopStep.kept
  | spawn p u vacant =>
    by_cases hq : q = p
    · subst hq; cases vacant <;> simpa [next, setLoop, setTask] using LoopStep.spawned u he
    · cases vacant <;> simpa [next, setLoop, setTask, hq] using LoopStep.kept
  | close p =>
    by_cases hq : q = p
    · subst hq
      have hp : s.acceptLoop q ≠ .absent := by simp [he.1]
      simpa [next, setLoop] using LoopStep.gone hp he.2.2
    · simpa [next, setLoop, hq] using LoopStep.kept
  | tick u =>
    simp only [next]
    split <;> exact .kept
  | registerPort | portConnected | leave | deregister | sink | read | sent | write | written
  | stop | remove | removed | lookup | enqueue | forwarded | abort => exact .kept

theorem step_awaited (h : Invariant s) (he : Enabled s e) (p : P) (u : U)
    (hp : (next s e).acceptLoop p = .connecting u ∨ (next s e).acceptLoop p = .waiting u)
    (hn : (next s e).connected u = none) : (next s e).connectRequests u = true := by
  have stay : (s.acceptLoop p = .connecting u ∨ s.acceptLoop p = .waiting u) →
      (next s e).connectRequests u = true := by
    intro hs
    cases e with
    | portConnected v ok =>
      by_cases hv : u = v
      · subst hv; simp [next] at hn
      · simpa [next, hv] using h.awaited p u hs (by simpa [next, hv] using hn)
    | upgrade q v =>
      by_cases hd : Dropped s.strong
      · simpa [next, hd, setLoop] using h.awaited p u hs (by simpa [next, hd, setLoop] using hn)
      · have hreq := h.awaited p u hs (by simpa [next, hd, setLoop] using hn)
        by_cases hv : u = v
        · subst hv; simp [next, hd]
        · simpa [next, hd, setLoop, hv] using hreq
    | tick v =>
      by_cases hd : Dropped s.strong
      · simpa [next, hd, setTask] using h.awaited p u hs (by simpa [next, hd, setTask] using hn)
      · simpa [next, hd] using h.awaited p u hs (by simpa [next, hd] using hn)
    | spawn q v vacant => cases vacant <;> exact h.awaited p u hs hn
    | bind | registerPort | leave | deregister | sink | accept | connect | wake | recvError
    | close | read | sent | write | written | stop | remove | removed | lookup | enqueue
    | forwarded | abort => exact h.awaited p u hs hn
  generalize hl : (next s e).acceptLoop p = l at hp
  cases hl ▸ next_loop he p with
  | kept => exact stay hp
  | upgraded v _ hev hd =>
    obtain rfl : v = u := by simpa using hp
    subst hev
    simp [next, hd]
  | sent v hc _ =>
    obtain rfl : v = u := by simpa using hp
    exact stay (Or.inl hc)
  | woken v ok => cases ok <;> simp at hp
  | bound | accepted | gone | failed | lost | spawned => simp at hp

def ofTasks : Event P U K → Bool
  | .bind _ | .registerPort _ | .portConnected _ _ | .leave | .deregister | .sink _ => false
  | _ => true

theorem tasks_frame (h : ofTasks e = true) :
    (next s e).session = s.session ∧ (next s e).sink = s.sink ∧
      (next s e).openPorts = s.openPorts ∧ (next s e).connected = s.connected := by
  cases e with
  | upgrade p u =>
    simp only [next]
    split <;> exact ⟨rfl, rfl, rfl, rfl⟩
  | spawn p u vacant => cases vacant <;> exact ⟨rfl, rfl, rfl, rfl⟩
  | tick u =>
    simp only [next]
    split <;> exact ⟨rfl, rfl, rfl, rfl⟩
  | bind | registerPort | portConnected | leave | deregister | sink => cases h
  | accept | connect | wake | recvError | close | read | sent | write | written | stop | remove
  | removed | lookup | enqueue | forwarded | abort => exact ⟨rfl, rfl, rfl, rfl⟩

theorem openPorts_next (he : Enabled s e) (p : P)
    (h : s.openPorts p = true ∨ s.session = .opening p) :
    (next s e).openPorts p = true ∨ (next s e).session = .opening p := by
  by_cases ht : ofTasks e = true
  · obtain ⟨hsession, _, hports, _⟩ := tasks_frame (s := s) ht
    rwa [hsession, hports]
  cases e with
  | registerPort q =>
    by_cases hq : p = q
    · subst hq; left; simp [next]
    · have hs : s.session = .opening q := he
      left
      simpa [next, setSession, hq, hs, Ne.symm hq] using h
  | bind => left; simpa [next, setSession, setLoop, he.1] using h
  | leave => left; simpa [next, setSession, show s.session = .serving from he] using h
  | deregister => left; simpa [next, setSession, show s.session = .leaving from he] using h
  | portConnected | sink => exact h
  | _ => exact absurd rfl ht

theorem broken_next (he : Enabled s e) (h : s.sink = .broken) : (next s e).sink = .broken := by
  by_cases ht : ofTasks e = true
  · rw [(tasks_frame ht).2.1, h]
  cases e with
  | sink => exact absurd h he
  | bind | registerPort | portConnected | leave | deregister => exact h
  | _ => exact absurd rfl ht

theorem step_invariant (h : Invariant s) (he : Enabled s e) : Invariant (next s e) := by
  refine ⟨step_tracks h.tracks e, step_awaited h he, ?_, ?_⟩
  · intro p hp
    generalize hl : (next s e).acceptLoop p = l at hp
    cases hl ▸ next_loop he p with
    | kept => exact openPorts_next he p (h.opened p hp)
    | bound _ hev => subst hev; right; rfl
    | accepted _ hs | upgraded _ hs | sent _ hs | failed _ hs | woken _ _ hs | lost _ hs
    | spawned _ hs => exact openPorts_next he p (h.opened p (by simp [hs]))
    | gone hs _ => exact openPorts_next he p (h.opened p hs)
  · intro p hp
    generalize hl : (next s e).acceptLoop p = l at hp
    cases hl ▸ next_loop he p with
    | kept =>
      rcases h.ended p hp with hb | hd
      · exact Or.inl (broken_next he hb)
      · exact Or.inr (step_dropped h.tracks he hd)
    | gone _ hd => exact Or.inr (step_dropped h.tracks he hd)
    | failed _ _ hb _ => exact Or.inl (broken_next he hb)
    | woken _ ok => cases ok <;> simp at hp
    | bound | accepted | upgraded | sent | lost | spawned => simp at hp

theorem reachable_invariant (h : Reachable lifetime s) : Invariant s :=
  Reachable.invariant (M := lifetime) initial_invariant (fun _ _ hi he => step_invariant hi he) h

end ClientLifetime
