import Nport.EndpointDeadlock

/-! Both ends of a client's session with a bounded websocket between them, under load: every
connection is established, its sockets always take data and always have more. A port task that
waits for the websocket does not drain its queue, and a dispatcher that waits for a queue does
not drain the websocket. -/
namespace Backpressure

open GuardedMachine
open PortTask
open EndpointDeadlock (Waiting)

inductive Side where
  | server
  | np
  deriving DecidableEq, Repr

def Side.peer : Side → Side
  | .server => .np
  | .np => .server

def Side.program : Side → Endpoint.Program
  | .server => Endpoint.server
  | .np => Endpoint.np

structure State (U : Type*) where
  ends : Side → Endpoint.State U
  /-- what a side has sent and its peer has not received -/
  channel : Side → List (U × PortMessage)

variable {U : Type*}

def established : Endpoint.Port := { Endpoint.Port.fresh with registered := true, phase := .select }

def initial : State U :=
  ⟨fun _ => { Endpoint.initial with port := fun _ => established }, fun _ => []⟩

inductive Event (U : Type*) where
  /-- the dispatcher of a side takes the next message of the peer -/
  | receive (side : Side)
  | send (side : Side) (u : U)
  | inner (side : Side) (e : Endpoint.Event U)
  deriving DecidableEq

/-- What an end does for itself while its sockets take and give data. -/
def UnderLoad : Endpoint.Event U → Prop
  | .lookup | .enqueue | .pop _ | .write _ _ | .wrote _ => True
  | .read _ (.size bytes) => bytes ≠ []
  | _ => False

instance (e : Endpoint.Event U) : Decidable (UnderLoad e) :=
  match e with
  | .lookup | .enqueue | .pop _ | .write _ _ | .wrote _ => isTrue trivial
  | .read _ (.size bytes) => inferInstanceAs (Decidable (bytes ≠ []))
  | .read _ .error | .read _ .elapsed | .register _ | .receive _ _ | .refuse | .closed _
  | .writeFail _ | .send _ _ | .teardown _ | .remove _ | .stop | .clear | .drop => isFalse id

/-- capacity is how many messages the websocket holds on the way from each side. -/
def Enabled (capacity : Side → ℕ) (s : State U) : Event U → Prop
  | .receive side => s.channel side.peer ≠ [] ∧ (s.ends side).dispatcher = .idle ∧
      (s.ends side).running = true ∧ (s.ends side).alive = true
  | .send side u => Endpoint.Enabled side.program (s.ends side) (.send u true) ∧
      (s.channel side).length < capacity side
  | .inner side e => UnderLoad e ∧ Endpoint.Enabled side.program (s.ends side) e

def setEnd (s : State U) (side : Side) (e : Endpoint.State U) : State U :=
  { s with ends := Function.update s.ends side e }

def setChannel (s : State U) (side : Side) (l : List (U × PortMessage)) : State U :=
  { s with channel := Function.update s.channel side l }

@[simp] theorem setEnd_self (s : State U) (side : Side) (e : Endpoint.State U) :
    (setEnd s side e).ends side = e := by
  simp [setEnd]

@[simp] theorem setEnd_other (s : State U) {side k : Side} (e : Endpoint.State U) (h : k ≠ side) :
    (setEnd s side e).ends k = s.ends k := by
  simp [setEnd, h]

@[simp] theorem setEnd_channel (s : State U) (side : Side) (e : Endpoint.State U) :
    (setEnd s side e).channel = s.channel := rfl

@[simp] theorem setChannel_ends (s : State U) (side : Side) (l : List (U × PortMessage)) :
    (setChannel s side l).ends = s.ends := rfl

variable [DecidableEq U]

def next (s : State U) : Event U → State U
  | .receive side =>
    match s.channel side.peer with
    | (u, m) :: rest =>
      setChannel (setEnd s side (Endpoint.next side.program (s.ends side) (.receive u m)))
        side.peer rest
    | [] => s
  | .send side u =>
    match ((s.ends side).port u).phase with
    | .sending m =>
      setChannel (setEnd s side (Endpoint.next side.program (s.ends side) (.send u true)))
        side (s.channel side ++ [(u, m)])
    | _ => s
  | .inner side e => setEnd s side (Endpoint.next side.program (s.ends side) e)

def session (capacity : Side → ℕ) : Machine (State U) (Event U) :=
  ⟨initial, Enabled capacity, next⟩

instance [Fintype U] (capacity : Side → ℕ) (s : State U) (e : Event U) :
    Decidable (Enabled capacity s e) := by
  cases e <;> simp only [Enabled] <;> infer_instance

instance [Fintype U] (capacity : Side → ℕ) (s : State U) (e : Event U) :
    Decidable ((session capacity).Enabled s e) :=
  inferInstanceAs (Decidable (Enabled capacity s e))

def TaskBlocked (capacity : Side → ℕ) (s : State U) (side : Side) (u : U) : Prop :=
  (∃ m, ((s.ends side).port u).phase = .sending m) ∧ capacity side ≤ (s.channel side).length

def DispatcherBlocked (s : State U) (side : Side) : Prop :=
  ∃ u, Waiting side.program (s.ends side) u

structure Deadlocked (capacity : Side → ℕ) (s : State U) : Prop where
  dispatchers : ∀ side, DispatcherBlocked s side
  tasks : ∀ side u, TaskBlocked capacity s side u

/-- The steps that block the last one that was not blocked: a task reads a chunk for a full
websocket, or a dispatcher finds the writer of a full queue. -/
def Hazard (capacity : Side → ℕ) (s : State U) : Event U → Prop
  | .inner side (.read u _) => (∀ k, DispatcherBlocked s k) ∧
      capacity side ≤ (s.channel side).length ∧
      ∀ k v, (k, v) ≠ (side, u) → TaskBlocked capacity s k v
  | .inner side .lookup => (∃ u m, (s.ends side).dispatcher = .lookup u m ∧
      side.program.loop.capacity ≤ ((s.ends side).port u).queue.length) ∧
      DispatcherBlocked s side.peer ∧ ∀ k v, TaskBlocked capacity s k v
  | _ => False

structure Invariant (s : State U) : Prop where
  registered : ∀ side u, ((s.ends side).port u).registered = true
  alive : ∀ side, (s.ends side).alive = true

omit [DecidableEq U] in
theorem initial_invariant : Invariant (initial : State U) := ⟨fun _ _ => rfl, fun _ => rfl⟩

variable {capacity : Side → ℕ}

theorem setPort_registered {s : Endpoint.State U} {u v : U} {p : Endpoint.Port}
    (hp : p.registered = (s.port u).registered) (h : (s.port v).registered = true) :
    ((Endpoint.setPort s u p).port v).registered = true := by
  by_cases hv : v = u
  · subst hv
    rwa [Endpoint.setPort_self, hp]
  · rwa [Endpoint.setPort_other _ _ hv]

theorem underLoad_registered (P : Endpoint.Program) {s : Endpoint.State U}
    {e : Endpoint.Event U} (hload : UnderLoad e) {v : U} (h : (s.port v).registered = true) :
    ((Endpoint.next P s e).port v).registered = true := by
  cases e with
  | lookup =>
    simp only [Endpoint.next]
    split
    · split <;> exact h
    · exact h
  | enqueue =>
    simp only [Endpoint.next]
    split
    · exact setPort_registered rfl h
    · exact h
  | pop u =>
    refine setPort_registered ?_ h
    unfold Endpoint.Port.pop
    split <;> rfl
  | write u count =>
    refine setPort_registered ?_ h
    unfold Endpoint.Port.write
    split <;> rfl
  | wrote u => exact setPort_registered rfl h
  | read u result =>
    refine setPort_registered ?_ h
    unfold Endpoint.Port.receiveBytes
    split <;> rfl
  | register | receive | refuse | closed | writeFail | send | teardown | remove | stop | clear
  | drop => cases hload

theorem send_registered (P : Endpoint.Program) {s : Endpoint.State U} {u v : U} {ok : Bool}
    (h : (s.port v).registered = true) :
    ((Endpoint.next P s (.send u ok)).port v).registered = true := by
  refine setPort_registered ?_ h
  unfold Endpoint.Port.send
  split <;> rfl

omit [DecidableEq U] in
theorem forall_setEnd {Q : Side → Endpoint.State U → Prop} {s : State U} {side : Side}
    {e : Endpoint.State U} (h : ∀ k, Q k (s.ends k)) (he : Q side e) (k : Side) :
    Q k ((setEnd s side e).ends k) := by
  by_cases hk : k = side
  · subst hk
    rwa [setEnd_self]
  · rw [setEnd_other _ _ hk]
    exact h k

theorem step_invariant {s : State U} (hi : Invariant s) {e : Event U}
    (he : Enabled capacity s e) : Invariant (next s e) := by
  cases e with
  | receive side =>
    obtain ⟨⟨u, m⟩, rest, hl⟩ := List.exists_cons_of_ne_nil he.1
    simp only [next, hl]
    constructor
    · intro k v
      have hnext : ((Endpoint.next side.program (s.ends side) (.receive u m)).port v).registered =
          true := hi.registered side v
      exact forall_setEnd (Q := fun _ t => (t.port v).registered = true)
        (fun k => hi.registered k v) hnext k
    · exact forall_setEnd (Q := fun _ t => t.alive = true) hi.alive (hi.alive side)
  | send side u =>
    obtain ⟨⟨m, hm⟩, _⟩ := he
    simp only [next, hm]
    constructor
    · intro k v
      exact forall_setEnd (Q := fun _ t => (t.port v).registered = true)
        (fun k => hi.registered k v) (send_registered _ (hi.registered side v)) k
    · exact forall_setEnd (Q := fun _ t => t.alive = true) hi.alive (hi.alive side)
  | inner side e =>
    obtain ⟨hload, he⟩ := he
    constructor
    · intro k v
      exact forall_setEnd (Q := fun _ t => (t.port v).registered = true)
        (fun k => hi.registered k v) (underLoad_registered _ hload (hi.registered side v)) k
    · have hdrop : e ≠ .drop := by
        rintro rfl
        cases hload
      have halive := Endpoint.alive_next side.program (s := s.ends side) hdrop
      exact forall_setEnd (Q := fun _ t => t.alive = true) hi.alive
        (halive.trans (hi.alive side))

/-! The last step into a deadlock. -/

omit [DecidableEq U] in
theorem dispatcherBlocked_congr {s t : State U} {k : Side}
    (hd : (t.ends k).dispatcher = (s.ends k).dispatcher)
    (hq : ∀ u, ((t.ends k).port u).queue = ((s.ends k).port u).queue)
    (h : DispatcherBlocked t k) : DispatcherBlocked s k := by
  obtain ⟨u, ⟨m, hm⟩, hfull⟩ := h
  exact ⟨u, ⟨m, hd ▸ hm⟩, hq u ▸ hfull⟩

omit [DecidableEq U] in
theorem taskBlocked_congr {s t : State U} {k : Side} {u : U}
    (hp : ((t.ends k).port u).phase = ((s.ends k).port u).phase)
    (hc : t.channel k = s.channel k) (h : TaskBlocked capacity t k u) :
    TaskBlocked capacity s k u := by
  obtain ⟨⟨m, hm⟩, hfull⟩ := h
  exact ⟨⟨m, hp ▸ hm⟩, hc ▸ hfull⟩

theorem receiveBytes_queue (L : PortLoop) (alive : Bool) (p : Endpoint.Port) (r : Read) :
    (Endpoint.Port.receiveBytes L alive p r).queue = p.queue := by
  unfold Endpoint.Port.receiveBytes
  split <;> rfl

omit [DecidableEq U] in
theorem not_deadlocked_of_phase {s : State U} (side : Side) (u : U)
    (h : ∀ m, ((s.ends side).port u).phase ≠ .sending m) : ¬ Deadlocked capacity s := by
  intro hd
  obtain ⟨⟨m, hm⟩, _⟩ := hd.tasks side u
  exact h m hm

omit [DecidableEq U] in
theorem not_deadlocked_of_dispatcher {s : State U} (side : Side)
    (h : ∀ u m, (s.ends side).dispatcher ≠ .capacity u m) : ¬ Deadlocked capacity s := by
  intro hd
  obtain ⟨u, ⟨m, hm⟩, _⟩ := hd.dispatchers side
  exact h u m hm

theorem lookup_ports (s : State U) (side k : Side) :
    ((next s (.inner side .lookup)).ends k).port = (s.ends k).port := by
  by_cases hk : k = side
  · subst hk
    simp only [next, setEnd_self, Endpoint.next]
    split
    · split <;> rfl
    · rfl
  · simp [next, hk]

theorem read_ports (s : State U) {side k : Side} {u v : U} (r : Read) (h : (k, v) ≠ (side, u)) :
    ((next s (.inner side (.read u r))).ends k).port v = (s.ends k).port v := by
  by_cases hk : k = side
  · subst hk
    have hv : v ≠ u := by
      rintro rfl
      exact h rfl
    simp [next, Endpoint.next, hv]
  · simp [next, hk]

theorem read_queue (s : State U) (side k : Side) (u v : U) (r : Read) :
    (((next s (.inner side (.read u r))).ends k).port v).queue = ((s.ends k).port v).queue := by
  by_cases h : (k, v) = (side, u)
  · obtain ⟨rfl, rfl⟩ := Prod.mk.inj h
    simp [next, Endpoint.next, receiveBytes_queue]
  · rw [read_ports s r h]

theorem read_dispatcher (s : State U) (side k : Side) (u : U) (r : Read) :
    ((next s (.inner side (.read u r))).ends k).dispatcher = (s.ends k).dispatcher := by
  by_cases hk : k = side
  · subst hk
    simp [next, Endpoint.next]
  · simp [next, hk]

theorem hazard_of_deadlocked {s : State U} {e : Event U} (he : Enabled capacity s e)
    (h : Deadlocked capacity (next s e)) : Hazard capacity s e := by
  cases e with
  | receive side =>
    obtain ⟨⟨u, m⟩, rest, hl⟩ := List.exists_cons_of_ne_nil he.1
    refine absurd h (not_deadlocked_of_dispatcher side ?_)
    simp [next, hl, Endpoint.next]
  | send side u =>
    obtain ⟨⟨m, hm⟩, _⟩ := he
    refine absurd h (not_deadlocked_of_phase side u ?_)
    intro k hk
    have hafter : side.program.loop.afterSend m true = .sending k := by
      simpa [next, hm, Endpoint.next, Endpoint.Port.send] using hk
    cases m with
    | data bytes =>
      rcases side.program.loop.afterSend_data bytes true with ha | ⟨ha, _⟩ <;> simp [ha] at hafter
    | close =>
      rcases side.program.loop.afterSend_close true with ha | ⟨ha, _⟩ <;> simp [ha] at hafter
  | inner side e =>
    obtain ⟨hload, he⟩ := he
    cases e with
    | lookup =>
      obtain ⟨⟨u, m, hd⟩, _⟩ := he
      obtain ⟨v, ⟨k, hk⟩, hfull⟩ := h.dispatchers side
      have hpeer : side.peer ≠ side := by cases side <;> simp [Side.peer]
      refine ⟨?_, ?_, ?_⟩
      · refine ⟨u, m, hd, ?_⟩
        obtain rfl : u = v := by
          simp only [next, setEnd_self, Endpoint.next, hd] at hk
          split at hk
          · exact (Endpoint.Dispatcher.capacity.inj hk).1
          · cases hk
        rwa [lookup_ports] at hfull
      · refine dispatcherBlocked_congr ?_ (fun w => by rw [lookup_ports]) (h.dispatchers side.peer)
        simp [next, hpeer]
      · intro k w
        refine taskBlocked_congr (t := next s (.inner side .lookup)) ?_ rfl (h.tasks k w)
        rw [lookup_ports]
    | enqueue =>
      obtain ⟨u, m, hd, _⟩ := he
      refine absurd h (not_deadlocked_of_dispatcher side ?_)
      simp [next, Endpoint.next, hd]
    | pop u =>
      obtain ⟨m, rest, hq⟩ := List.exists_cons_of_ne_nil he.2
      refine absurd h (not_deadlocked_of_phase side u ?_)
      cases m <;> simp [next, Endpoint.next, Endpoint.Port.pop, hq, onMessage]
    | write u count =>
      obtain ⟨rest, hp, _⟩ := he
      refine absurd h (not_deadlocked_of_phase side u ?_)
      simp [next, Endpoint.next, Endpoint.Port.write, hp]
    | wrote u =>
      refine absurd h (not_deadlocked_of_phase side u ?_)
      simp [next, Endpoint.next, afterWrite]
    | read u result =>
      refine ⟨?_, (h.tasks side u).2, ?_⟩
      · intro k
        refine dispatcherBlocked_congr ?_ ?_ (h.dispatchers k)
        · rw [read_dispatcher]
        · exact fun v => read_queue s side k u v result
      · intro k v hkv
        refine taskBlocked_congr (t := next s (.inner side (.read u result))) ?_ rfl (h.tasks k v)
        rw [read_ports s result hkv]
    | register | receive | refuse | closed | writeFail | send | teardown | remove | stop | clear
    | drop => cases hload

theorem deadlocked_of_hazard {s : State U} (hi : Invariant s) {e : Event U}
    (he : Enabled capacity s e) (h : Hazard capacity s e) : Deadlocked capacity (next s e) := by
  cases e with
  | receive side => cases h
  | send side u => cases h
  | inner side e =>
    cases e with
    | lookup =>
      obtain ⟨⟨u, m, hd, hfull⟩, hpeer, htasks⟩ := h
      constructor
      · intro k
        by_cases hk : k = side
        · subst hk
          refine ⟨u, ⟨m, ?_⟩, ?_⟩
          · simp [next, Endpoint.next, hd, hi.registered k u]
          · rwa [lookup_ports]
        · have hother : k = side.peer := by
            cases k <;> cases side <;> simp [Side.peer] at hk ⊢
          subst hother
          refine dispatcherBlocked_congr ?_ (fun w => by rw [lookup_ports]) hpeer
          simp [next, hk]
      · intro k w
        refine taskBlocked_congr (t := s) ?_ rfl (htasks k w)
        rw [lookup_ports]
    | read u result =>
      obtain ⟨hdispatchers, hfull, htasks⟩ := h
      constructor
      · intro k
        refine dispatcherBlocked_congr ?_ ?_ (hdispatchers k)
        · rw [read_dispatcher]
        · exact fun v => (read_queue s side k u v result).symm
      · intro k v
        by_cases hkv : (k, v) = (side, u)
        · obtain ⟨rfl, rfl⟩ := Prod.mk.inj hkv
          cases result with
          | size bytes =>
            refine ⟨⟨outgoing bytes, ?_⟩, hfull⟩
            simp [next, Endpoint.next, Endpoint.Port.receiveBytes, PortLoop.onRead_size, hi.alive k]
          | error => cases he.1
          | elapsed => cases he.1
        · refine taskBlocked_congr (t := s) ?_ rfl (htasks k v hkv)
          rw [read_ports s result hkv]
    | register | receive | enqueue | refuse | pop | closed | write | wrote | writeFail | send
    | teardown | remove | stop | clear | drop => cases h

omit [DecidableEq U] in
/-- Where every dispatcher and every port task is blocked, nothing happens any more. -/
theorem deadlocked_stuck {s : State U} (h : Deadlocked capacity s) (e : Event U) :
    ¬ Enabled capacity s e := by
  intro he
  cases e with
  | receive side =>
    obtain ⟨u, ⟨m, hm⟩, _⟩ := h.dispatchers side
    rw [he.2.1] at hm
    cases hm
  | send side u =>
    obtain ⟨_, hfull⟩ := h.tasks side u
    have hroom := he.2
    omega
  | inner side e =>
    obtain ⟨hload, he⟩ := he
    obtain ⟨w, ⟨k, hk⟩, hfull⟩ := h.dispatchers side
    have sending (u : U) {p : Phase} (hp : ((s.ends side).port u).phase = p) :
        ∃ m, p = .sending m := hp ▸ (h.tasks side u).1
    cases e with
    | lookup =>
      obtain ⟨⟨u, m, hd⟩, _⟩ := he
      rw [hk] at hd
      cases hd
    | enqueue =>
      obtain ⟨u, m, hd, hroom, _⟩ := he
      obtain ⟨rfl, _⟩ := Endpoint.Dispatcher.capacity.inj (hk.symm.trans hd)
      omega
    | pop u =>
      obtain ⟨m, hm⟩ := sending u he.1
      cases hm
    | write u count =>
      obtain ⟨rest, hp, _⟩ := he
      obtain ⟨m, hm⟩ := sending u hp
      cases hm
    | wrote u =>
      obtain ⟨m, hm⟩ := sending u he
      cases hm
    | read u result =>
      obtain ⟨m, hm⟩ := sending u he.1
      cases hm
    | register | receive | refuse | closed | writeFail | send | teardown | remove | stop | clear
    | drop => cases hload

omit [DecidableEq U] in
theorem initial_not_deadlocked : ¬ Deadlocked capacity (initial : State U) := by
  intro h
  obtain ⟨u, ⟨m, hm⟩, _⟩ := h.dispatchers .server
  cases hm

/-- Not all of a run's dispatchers and port tasks are ever blocked at once, exactly when no step
blocks the last of them. -/
theorem never_deadlocked_iff (capacity : Side → ℕ) {s : State U} {tr : List (State U × Event U)}
    (hr : Run (session capacity) tr s) :
    (∀ t ∈ visited tr s, ¬ Deadlocked capacity t) ↔ ∀ p ∈ tr, ¬ Hazard capacity p.1 p.2 := by
  refine Path.forall_visited_iff (M := session capacity)
    (J := fun t => Invariant t ∧ ¬ Deadlocked capacity t)
    (C := fun t e => ¬ Hazard capacity t e) ?_ (fun t h => h.2) ?_ hr
    ⟨initial_invariant, initial_not_deadlocked⟩
  · intro t e h he hc
    exact ⟨step_invariant h.1 he, fun hd => hc (hazard_of_deadlocked he hd)⟩
  · intro t e h he hc hsafe
    exact hsafe (deadlocked_of_hazard h.1 he (not_not.mp hc))

end Backpressure
