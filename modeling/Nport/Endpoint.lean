import Nport.GuardedMachine
import Nport.PortTask
import Mathlib.Logic.Function.Basic
import Mathlib.Data.Fintype.Defs

/-! One end of a tunnel: the message loop that dispatches PortReceive and PortClose, the
map port_writers behind its read-write lock, and a port task with its queue for each uuid.
port_message holds the read lock from the lookup until its message is in the queue.
The receiver of a queue lives until the end of its task, not until the end of its loop. -/
namespace Endpoint

open GuardedMachine
open PortTask

/-- What one end runs: its port task, and whether an error of a message handler ends the
message loop (handle_socket leaves it, np only logs). -/
structure Program where
  loop : PortLoop
  stopsOnError : Bool

def server : Program := ⟨serveSocket, true⟩

def np : Program := ⟨clientPort, false⟩

/-- One uuid at one end. The last four fields are histories that no step reads. -/
structure Port where
  registered : Bool
  queue : List PortMessage
  phase : Phase
  /-- messages received from the queue -/
  taken : List PortMessage
  /-- bytes accepted by the socket -/
  written : Bytes
  /-- messages client.send was called with and has returned from -/
  emitted : List PortMessage
  /-- bytes obtained from the socket -/
  read : Bytes
  deriving DecidableEq, Repr

def Port.fresh : Port := ⟨false, [], .absent, [], [], [], []⟩

/-- Client::port_message of the message loop. -/
inductive Dispatcher (U : Type*) where
  | idle
  /-- waiting for port_writers.read() -/
  | lookup (u : U) (message : PortMessage)
  /-- in writer.send(msg), the read lock held -/
  | capacity (u : U) (message : PortMessage)
  deriving DecidableEq, Repr

structure State (U : Type*) where
  port : U → Port
  dispatcher : Dispatcher U
  /-- the message loop has not been left -/
  running : Bool
  /-- Arc<Client> still has a strong reference -/
  alive : Bool
  /-- port_writers was emptied as a whole -/
  cleared : Bool

variable {U : Type*}

def initial : State U := ⟨fun _ => .fresh, .idle, true, true, false⟩

inductive Event (U : Type*) where
  /-- port_writer_register and the spawn of the task -/
  | register (u : U)
  /-- the loop dispatches a PortReceive or PortClose -/
  | receive (u : U) (message : PortMessage)
  | lookup
  | enqueue
  /-- writer.send fails: the receiver is gone -/
  | refuse
  | pop (u : U)
  /-- messages.recv() is None: all senders are gone and the queue is empty -/
  | closed (u : U)
  | write (u : U) (count : ℕ)
  | wrote (u : U)
  | writeFail (u : U)
  | read (u : U) (result : Read)
  | send (u : U) (ok : Bool)
  /-- after the loop: client.upgrade() and the call of port_writer_remove -/
  | teardown (u : U)
  | remove (u : U)
  /-- the message loop ends on its own receive error -/
  | stop
  /-- np: port_writers.clear() in Client::disconnect -/
  | clear
  /-- the last strong reference to the Client is dropped -/
  | drop
  deriving DecidableEq, Repr

def Reading (s : State U) : Prop := ∃ u m, s.dispatcher = .capacity u m

/-- A waiting writer keeps new readers out, so the lookup needs every removal done. -/
def Enabled (P : Program) (s : State U) : Event U → Prop
  | .register u => (s.port u).phase = .absent ∧ (s.port u).registered = false ∧ ¬ Reading s ∧
      s.alive = true
  | .receive _ _ => s.dispatcher = .idle ∧ s.running = true ∧ s.alive = true
  | .lookup => (∃ u m, s.dispatcher = .lookup u m) ∧
      ∀ v, (s.port v).phase.isRemoving = false
  | .enqueue => ∃ u m, s.dispatcher = .capacity u m ∧
      (s.port u).queue.length < P.loop.capacity ∧ (s.port u).phase.present = true
  | .refuse => ∃ u m, s.dispatcher = .capacity u m ∧ (s.port u).phase.present = false
  | .pop u => (s.port u).phase = .select ∧ (s.port u).queue ≠ []
  | .closed u => (s.port u).phase = .select ∧ (s.port u).queue = [] ∧
      (s.port u).registered = false
  | .write u count => ∃ rest, (s.port u).phase = .writing rest ∧ 0 < count ∧ count ≤ rest.length
  | .wrote u => (s.port u).phase = .writing []
  | .writeFail u => ∃ b rest, (s.port u).phase = .writing (b :: rest)
  | .read u result => (s.port u).phase = .select ∧
      ∀ bytes, result = .size bytes → bytes.length ≤ bufferSize
  | .send u _ => ∃ m, (s.port u).phase = .sending m
  | .teardown u => ∃ why, (s.port u).phase = .left why
  | .remove u => (∃ why, (s.port u).phase = .removing why) ∧ ¬ Reading s
  | .stop => s.dispatcher = .idle ∧ s.running = true
  | .clear => s.dispatcher = .idle ∧ s.running = false
  | .drop => s.dispatcher = .idle ∧ s.running = false ∧
      ∀ v, (s.port v).phase.isSending = false ∧ (s.port v).phase.isRemoving = false

variable [DecidableEq U]

def setPort (s : State U) (u : U) (p : Port) : State U :=
  { s with port := Function.update s.port u p }

def clearWriters (s : State U) : State U :=
  { s with port := fun u => { s.port u with registered := false }, cleared := true }

/-- An error of the handler reaches the message loop. -/
def failDispatch (P : Program) (s : State U) : State U :=
  { s with dispatcher := .idle, running := s.running && !P.stopsOnError }

def Port.pop (p : Port) : Port :=
  match p.queue with
  | [] => p
  | m :: rest => { p with queue := rest, taken := p.taken ++ [m], phase := onMessage (some m) }

def Port.write (p : Port) (count : ℕ) : Port :=
  match p.phase with
  | .writing rest =>
    { p with written := p.written ++ rest.take count, phase := .writing (rest.drop count) }
  | _ => p

def Port.receiveBytes (L : PortLoop) (alive : Bool) (p : Port) (result : Read) : Port :=
  match result with
  | .size bytes => { p with read := p.read ++ bytes, phase := L.onRead alive result }
  | _ => { p with phase := L.onRead alive result }

def Port.send (L : PortLoop) (p : Port) (ok : Bool) : Port :=
  match p.phase with
  | .sending m => { p with emitted := p.emitted ++ [m], phase := L.afterSend m ok }
  | _ => p

def Port.teardown (alive : Bool) (p : Port) : Port :=
  match p.phase with
  | .left why => { p with phase := if alive then .removing why else .ended why }
  | _ => p

def Port.remove (p : Port) : Port :=
  match p.phase with
  | .removing why => { p with registered := false, phase := .ended why }
  | _ => p

def next (P : Program) (s : State U) : Event U → State U
  | .register u => setPort s u { s.port u with registered := true, phase := .select }
  | .receive u m => { s with dispatcher := .lookup u m }
  | .lookup =>
    match s.dispatcher with
    | .lookup u m =>
      if (s.port u).registered then { s with dispatcher := .capacity u m } else failDispatch P s
    | _ => s
  | .enqueue =>
    match s.dispatcher with
    | .capacity u m =>
      { setPort s u { s.port u with queue := (s.port u).queue ++ [m] } with dispatcher := .idle }
    | _ => s
  | .refuse => failDispatch P s
  | .pop u => setPort s u (s.port u).pop
  | .closed u => setPort s u { s.port u with phase := onMessage none }
  | .write u count => setPort s u ((s.port u).write count)
  | .wrote u => setPort s u { s.port u with phase := afterWrite true }
  | .writeFail u => setPort s u { s.port u with phase := afterWrite false }
  | .read u result => setPort s u (Port.receiveBytes P.loop s.alive (s.port u) result)
  | .send u ok => setPort s u (Port.send P.loop (s.port u) ok)
  | .teardown u => setPort s u ((s.port u).teardown s.alive)
  | .remove u => setPort s u (s.port u).remove
  | .stop => { s with running := false }
  | .clear => clearWriters s
  | .drop => { clearWriters s with alive := false }

def endpoint (P : Program) : Machine (State U) (Event U) := ⟨initial, Enabled P, next P⟩

instance Dispatcher.decidableLookup (d : Dispatcher U) : Decidable (∃ u m, d = .lookup u m) :=
  match d with
  | .idle => isFalse (by simp)
  | .lookup u m => isTrue ⟨u, m, rfl⟩
  | .capacity _ _ => isFalse (by simp)

instance Dispatcher.decidableCapacity (d : Dispatcher U) (Q : U → PortMessage → Prop)
    [∀ u m, Decidable (Q u m)] : Decidable (∃ u m, d = .capacity u m ∧ Q u m) :=
  match d with
  | .idle => isFalse (by simp)
  | .lookup _ _ => isFalse (by simp)
  | .capacity u m => decidable_of_iff (Q u m) (by simp)

instance (s : State U) : Decidable (Reading s) :=
  decidable_of_iff (∃ u m, s.dispatcher = .capacity u m ∧ True) (by simp [Reading])

instance (p : Phase) (count : ℕ) :
    Decidable (∃ rest, p = .writing rest ∧ 0 < count ∧ count ≤ rest.length) :=
  match p with
  | .writing rest => decidable_of_iff (0 < count ∧ count ≤ rest.length) (by simp)
  | .absent | .select | .sending _ | .left _ | .removing _ | .ended _ => isFalse (by simp)

instance (p : Phase) : Decidable (∃ b rest, p = .writing (b :: rest)) :=
  match p with
  | .writing (b :: rest) => isTrue ⟨b, rest, rfl⟩
  | .writing [] => isFalse (by simp)
  | .absent | .select | .sending _ | .left _ | .removing _ | .ended _ => isFalse (by simp)

instance (p : Phase) : Decidable (∃ m, p = .sending m) :=
  decidable_of_iff (p.isSending = true) (by cases p <;> simp [Phase.isSending])

instance (p : Phase) : Decidable (∃ why, p = .left why) :=
  match p with
  | .left why => isTrue ⟨why, rfl⟩
  | .absent | .select | .writing _ | .sending _ | .removing _ | .ended _ => isFalse (by simp)

instance (p : Phase) : Decidable (∃ why, p = .removing why) :=
  decidable_of_iff (p.isRemoving = true) (by cases p <;> simp [Phase.isRemoving])

instance (r : Read) : Decidable (∀ bytes, r = .size bytes → bytes.length ≤ bufferSize) :=
  match r with
  | .size bytes => decidable_of_iff (bytes.length ≤ bufferSize) (by simp)
  | .error | .elapsed => isTrue (by simp)

instance [Fintype U] (P : Program) (s : State U) (e : Event U) : Decidable (Enabled P s e) := by
  cases e <;> simp only [Enabled] <;> infer_instance

instance [Fintype U] (P : Program) (s : State U) (e : Event U) :
    Decidable ((endpoint P).Enabled s e) :=
  inferInstanceAs (Decidable (Enabled P s e))

@[simp] theorem setPort_self (s : State U) (u : U) (p : Port) : (setPort s u p).port u = p := by
  simp [setPort]

@[simp] theorem setPort_other (s : State U) {u v : U} (p : Port) (h : v ≠ u) :
    (setPort s u p).port v = s.port v := by
  simp [setPort, h]

@[simp] theorem setPort_dispatcher (s : State U) (u : U) (p : Port) :
    (setPort s u p).dispatcher = s.dispatcher := rfl

@[simp] theorem setPort_running (s : State U) (u : U) (p : Port) :
    (setPort s u p).running = s.running := rfl

@[simp] theorem setPort_alive (s : State U) (u : U) (p : Port) :
    (setPort s u p).alive = s.alive := rfl

@[simp] theorem setPort_cleared (s : State U) (u : U) (p : Port) :
    (setPort s u p).cleared = s.cleared := rfl

inductive PortStep (alive : Bool) : Port → Port → Prop where
  | register (p) : p.phase = .absent →
      PortStep alive p { p with registered := true, phase := .select }
  | push (p m) : p.phase.present = true → PortStep alive p { p with queue := p.queue ++ [m] }
  | pop (p m rest) : p.phase = .select → p.queue = m :: rest →
      PortStep alive p { p with
        queue := rest, taken := p.taken ++ [m], phase := onMessage (some m) }
  | write (p rest count) : p.phase = .writing rest →
      PortStep alive p { p with
        written := p.written ++ rest.take count, phase := .writing (rest.drop count) }
  | wrote (p) : p.phase = .writing [] → PortStep alive p { p with phase := .select }
  | writeFail (p rest) : p.phase = .writing rest →
      PortStep alive p { p with phase := .left .writeError }
  | readBytes (p bytes) : p.phase = .select → alive = true →
      PortStep alive p { p with read := p.read ++ bytes, phase := .sending (outgoing bytes) }
  | readLate (p bytes) : p.phase = .select → alive = false →
      PortStep alive p { p with read := p.read ++ bytes, phase := .left .released }
  | readError (p) : p.phase = .select → PortStep alive p { p with phase := .left .readError }
  | released (p) : p.phase = .select → alive = false →
      PortStep alive p { p with phase := .left .released }
  | sentData (p bytes) : p.phase = .sending (.data bytes) →
      PortStep alive p { p with emitted := p.emitted ++ [.data bytes], phase := .select }
  | sentClose (p) : p.phase = .sending .close →
      PortStep alive p { p with emitted := p.emitted ++ [.close], phase := .left .eof }
  | sendFail (p m) : p.phase = .sending m →
      PortStep alive p { p with emitted := p.emitted ++ [m], phase := .left .sendError }
  | teardown (p why) : p.phase = .left why → alive = true →
      PortStep alive p { p with phase := .removing why }
  | abandon (p why) : p.phase = .left why → alive = false →
      PortStep alive p { p with phase := .ended why }
  | remove (p why) : p.phase = .removing why →
      PortStep alive p { p with registered := false, phase := .ended why }
  | forget (p) : PortStep alive p { p with registered := false }

/-- The lock protocol and the life of the loop, for every uuid at once. -/
structure Invariant (s : State U) : Prop where
  held : ∀ u m, s.dispatcher = .capacity u m → (s.port u).registered = true
  started : ∀ u, (s.port u).registered = true → (s.port u).phase.present = true
  kept : s.cleared = false → ∀ u, (s.port u).phase.present = true → (s.port u).registered = true
  busy : s.dispatcher ≠ .idle → s.running = true
  lives : s.running = true → s.cleared = false
  owned : s.cleared = false → s.alive = true
  emptied : s.alive = false → ∀ u, (s.port u).registered = false

omit [DecidableEq U] in
theorem initial_invariant : Invariant (initial : State U) := by
  constructor <;> simp [initial, Port.fresh, Phase.present]

theorem receiveBytes_step (L : PortLoop) {alive : Bool} {p : Port} {r : Read}
    (h : p.phase = .select) :
    Port.receiveBytes L alive p r = p ∨ PortStep alive p (Port.receiveBytes L alive p r) := by
  by_cases hs : ∃ bytes, r = .size bytes
  · obtain ⟨bytes, rfl⟩ := hs
    right
    cases alive
    · simpa [Port.receiveBytes, L.onRead_size] using PortStep.readLate p bytes h rfl
    · simpa [Port.receiveBytes, L.onRead_size] using PortStep.readBytes p bytes h rfl
  · have hn : ∀ bytes, r ≠ .size bytes := fun bytes he => hs ⟨bytes, he⟩
    have hr : Port.receiveBytes L alive p r = { p with phase := L.onRead alive r } := by
      cases r with
      | size bytes => exact absurd rfl (hn bytes)
      | error => rfl
      | elapsed => rfl
    rw [hr]
    rcases L.onRead_other alive r hn with ho | ⟨ho, _⟩ | ⟨ho, ha⟩
    · left; rw [ho, ← h]
    · right; rw [ho]; exact .readError p h
    · right; rw [ho]; exact .released p h ha

theorem send_step (L : PortLoop) {alive : Bool} {p : Port} {m : PortMessage} {ok : Bool}
    (h : p.phase = .sending m) : PortStep alive p (Port.send L p ok) := by
  have hs : Port.send L p ok =
      { p with emitted := p.emitted ++ [m], phase := L.afterSend m ok } := by
    simp [Port.send, h]
  rw [hs]
  cases m with
  | data bytes =>
    rcases L.afterSend_data bytes ok with ho | ⟨ho, _⟩
    · rw [ho]; exact .sentData p bytes h
    · rw [ho]; exact .sendFail p _ h
  | close =>
    rcases L.afterSend_close ok with ho | ⟨ho, _⟩
    · rw [ho]; exact .sentClose p h
    · rw [ho]; exact .sendFail p _ h

theorem Port.pop_step {alive : Bool} {p : Port} (h : p.phase = .select) (hq : p.queue ≠ []) :
    PortStep alive p p.pop := by
  cases hp : p.queue with
  | nil => exact absurd hp hq
  | cons m rest => simpa [Port.pop, hp] using PortStep.pop p m rest h hp

theorem next_port (P : Program) {s : State U} {e : Event U}
    (he : Enabled P s e) (v : U) :
    (next P s e).port v = s.port v ∨ PortStep s.alive (s.port v) ((next P s e).port v) := by
  have at_ (u : U) (p : Port) (hp : p = s.port u ∨ PortStep s.alive (s.port u) p) :
      (setPort s u p).port v = s.port v ∨ PortStep s.alive (s.port v) ((setPort s u p).port v) := by
    by_cases hv : v = u
    · subst hv; simpa using hp
    · left; simp [hv]
  cases e with
  | register u => exact at_ u _ (Or.inr (.register _ he.1))
  | receive => exact Or.inl rfl
  | lookup =>
    obtain ⟨⟨u, m, hd⟩, _⟩ := he
    left
    simp only [next, hd]
    split <;> rfl
  | enqueue =>
    obtain ⟨u, m, hd, _, hpresent⟩ := he
    simp only [next, hd]
    exact at_ u _ (Or.inr (.push _ m hpresent))
  | refuse => exact Or.inl rfl
  | pop u => exact at_ u _ (Or.inr (Port.pop_step he.1 he.2))
  | closed u =>
    refine at_ u _ (Or.inl ?_)
    simp [onMessage, ← he.1]
  | write u count =>
    obtain ⟨rest, hp, _, _⟩ := he
    refine at_ u _ (Or.inr ?_)
    simpa [Port.write, hp] using PortStep.write (s.port u) rest count hp
  | wrote u => exact at_ u _ (Or.inr (.wrote _ he))
  | writeFail u =>
    obtain ⟨b, rest, hp⟩ := he
    exact at_ u _ (Or.inr (.writeFail _ _ hp))
  | read u r => exact at_ u _ (receiveBytes_step P.loop he.1)
  | send u ok =>
    obtain ⟨m, hp⟩ := he
    exact at_ u _ (Or.inr (send_step P.loop hp))
  | teardown u =>
    obtain ⟨why, hp⟩ := he
    refine at_ u _ (Or.inr ?_)
    cases ha : s.alive
    · simpa [Port.teardown, hp] using PortStep.abandon (s.port u) why hp rfl
    · simpa [Port.teardown, hp] using PortStep.teardown (s.port u) why hp rfl
  | remove u =>
    obtain ⟨⟨why, hp⟩, _⟩ := he
    refine at_ u _ (Or.inr ?_)
    simpa [Port.remove, hp] using @PortStep.remove s.alive (s.port u) why hp
  | stop => exact Or.inl rfl
  | clear => exact Or.inr (.forget _)
  | drop => exact Or.inr (.forget _)

theorem alive_next (P : Program) {s : State U} {e : Event U} (here : e ≠ .drop) :
    (next P s e).alive = s.alive := by
  cases e with
  | lookup =>
    simp only [next]
    split
    · split <;> rfl
    · rfl
  | enqueue =>
    simp only [next]
    split <;> rfl
  | drop => exact absurd rfl here
  | register | receive | refuse | pop | closed | write | wrote | writeFail | read | send
  | teardown | remove | stop | clear => rfl

theorem PortStep.born {alive : Bool} {p q : Port} (h : PortStep alive p q)
    (hp : p.phase ≠ .absent) : q.phase ≠ .absent := by
  cases h with
  | push | forget => exact hp
  | pop m rest => cases m <;> simp [onMessage]
  | register | write | wrote | writeFail | readBytes | readLate | readError | released
  | sentData | sentClose | sendFail | teardown | abandon | remove => simp

theorem born_step (P : Program) {s : State U} {e : Event U}
    (he : Enabled P s e) {u : U} (h : (s.port u).phase ≠ .absent) :
    ((next P s e).port u).phase ≠ .absent := by
  rcases next_port P he u with hp | hp
  · rw [hp]; exact h
  · exact hp.born h

theorem unborn_step (P : Program) {s : State U} {e : Event U}
    (he : Enabled P s e) {u : U} (here : e ≠ .register u)
    (h : (s.port u).phase = .absent) : ((next P s e).port u).phase = .absent := by
  have atPort (v : U) (p : Port) (hv : (s.port v).phase ≠ .absent) :
      ((setPort s v p).port u).phase = .absent := by
    have hne : u ≠ v := by
      rintro rfl
      exact hv h
    simpa [hne] using h
  cases e with
  | register v =>
    have hne : u ≠ v := by
      rintro rfl
      exact here rfl
    simpa [next, hne] using h
  | lookup =>
    obtain ⟨⟨v, m, hd⟩, _⟩ := he
    simp only [next, hd]
    split <;> exact h
  | enqueue =>
    obtain ⟨v, m, hd, _, hp⟩ := he
    simp only [next, hd]
    exact atPort v _ (by intro ha; simp [ha, Phase.present] at hp)
  | pop v => exact atPort v _ (by simp [he.1])
  | closed v => exact atPort v _ (by simp [he.1])
  | write v count =>
    obtain ⟨r, hp, _, _⟩ := he
    exact atPort v _ (by simp [hp])
  | wrote v =>
    have hp : (s.port v).phase = .writing [] := he
    exact atPort v _ (by simp [hp])
  | writeFail v =>
    obtain ⟨b, r, hp⟩ := he
    exact atPort v _ (by simp [hp])
  | read v r => exact atPort v _ (by simp [he.1])
  | send v ok =>
    obtain ⟨m, hp⟩ := he
    exact atPort v _ (by simp [hp])
  | teardown v =>
    obtain ⟨why, hp⟩ := he
    exact atPort v _ (by simp [hp])
  | remove v =>
    obtain ⟨⟨why, hp⟩, _⟩ := he
    exact atPort v _ (by simp [hp])
  | receive | refuse | stop | clear | drop => exact h

theorem lookup_before (P : Program) {s : State U} {e : Event U} (he : Enabled P s e)
    {u : U} {m : PortMessage} (here : e ≠ .receive u m)
    (h : (next P s e).dispatcher = .lookup u m) : s.dispatcher = .lookup u m := by
  cases e with
  | receive v k =>
    have hv : v = u ∧ k = m := by simpa [next] using h
    exact absurd (by rw [hv.1, hv.2]) here
  | lookup =>
    obtain ⟨⟨v, k, hd⟩, _⟩ := he
    by_cases hr : (s.port v).registered = true <;> simp [next, hd, hr, failDispatch] at h
  | enqueue =>
    obtain ⟨v, k, hd, _⟩ := he
    simp [next, hd] at h
  | refuse => simp [next, failDispatch] at h
  | register | pop | closed | write | wrote | writeFail | read | send | teardown | remove
  | stop | clear | drop => exact h

theorem Invariant.setPort {s : State U} (hi : Invariant s) {u : U} {p : Port}
    (same : p.registered = (s.port u).registered) (before : (s.port u).phase.present = true)
    (after : p.phase.present = true) : Invariant (setPort s u p) := by
  refine ⟨?_, ?_, ?_, hi.busy, hi.lives, hi.owned, ?_⟩
  · intro v m hd
    have hv := hi.held v m hd
    by_cases he : v = u
    · subst he; simpa [same] using hv
    · simpa [he] using hv
  · intro v hr
    by_cases he : v = u
    · subst he; simpa using after
    · simpa [he] using hi.started v (by simpa [he] using hr)
  · intro hc v hp
    by_cases he : v = u
    · subst he; simpa [same] using hi.kept hc v before
    · simpa [he] using hi.kept hc v (by simpa [he] using hp)
  · intro ha v
    by_cases he : v = u
    · subst he; simpa [same] using hi.emptied ha v
    · simpa [he] using hi.emptied ha v

theorem Invariant.endPort {s : State U} (hi : Invariant s) {u : U} {p : Port}
    (gone : p.registered = false) (ended : p.phase.present = false) (free : ¬ Reading s) :
    Invariant (Endpoint.setPort s u p) := by
  refine ⟨?_, ?_, ?_, hi.busy, hi.lives, hi.owned, ?_⟩
  · intro v m hd
    exact absurd ⟨v, m, hd⟩ free
  · intro v hr
    by_cases he : v = u
    · subst he; simp [gone] at hr
    · simpa [he] using hi.started v (by simpa [he] using hr)
  · intro hc v hp
    by_cases he : v = u
    · subst he; simp [ended] at hp
    · simpa [he] using hi.kept hc v (by simpa [he] using hp)
  · intro ha v
    by_cases he : v = u
    · subst he; simpa using gone
    · simpa [he] using hi.emptied ha v

omit [DecidableEq U] in
theorem Invariant.clearWriters {s : State U} (hi : Invariant s) (idle : s.dispatcher = .idle)
    (stopped : s.running = false) : Invariant (clearWriters s) := by
  refine ⟨?_, ?_, ?_, hi.busy, ?_, ?_, ?_⟩
  · intro u m hd
    rw [show s.dispatcher = .capacity u m from hd] at idle
    cases idle
  · intro u hr; simp [Endpoint.clearWriters] at hr
  · intro hc; simp [Endpoint.clearWriters] at hc
  · intro hr
    rw [show s.running = true from hr] at stopped
    cases stopped
  · intro hc; simp [Endpoint.clearWriters] at hc
  · intro _ u; rfl

theorem onMessage_present (m : Option PortMessage) : (onMessage m).present = true := by
  rcases m with _ | (_ | _) <;> rfl

theorem onRead_present (L : PortLoop) (alive : Bool) (r : Read) :
    (L.onRead alive r).present = true := by
  by_cases hs : ∃ bytes, r = .size bytes
  · obtain ⟨bytes, rfl⟩ := hs
    cases alive <;> simp [L.onRead_size, Phase.present]
  · rcases L.onRead_other alive r (fun bytes he => hs ⟨bytes, he⟩) with h | ⟨h, _⟩ | ⟨h, _⟩ <;>
      simp [h, Phase.present]

theorem afterSend_present (L : PortLoop) (m : PortMessage) (ok : Bool) :
    (L.afterSend m ok).present = true := by
  cases m with
  | data bytes =>
    rcases L.afterSend_data bytes ok with h | ⟨h, _⟩ <;> simp [h, Phase.present]
  | close =>
    rcases L.afterSend_close ok with h | ⟨h, _⟩ <;> simp [h, Phase.present]

theorem receiveBytes_phase (L : PortLoop) (alive : Bool) (p : Port) (r : Read) :
    (Port.receiveBytes L alive p r).registered = p.registered ∧
      (Port.receiveBytes L alive p r).phase = L.onRead alive r := by
  cases r <;> simp [Port.receiveBytes]

omit [DecidableEq U] in
theorem failDispatch_invariant (P : Program) {s : State U} (hi : Invariant s) :
    Invariant (failDispatch P s) := by
  refine ⟨?_, hi.started, hi.kept, ?_, ?_, hi.owned, hi.emptied⟩
  · intro u m hd; simp [failDispatch] at hd
  · intro hd; simp [failDispatch] at hd
  · intro hr
    simp only [failDispatch, Bool.and_eq_true] at hr
    exact hi.lives hr.1

theorem step_invariant (P : Program) {s : State U} (hi : Invariant s) {e : Event U}
    (he : Enabled P s e) : Invariant (next P s e) := by
  cases e with
  | register u =>
    obtain ⟨hp, _, hr, ha⟩ := he
    refine ⟨?_, ?_, ?_, hi.busy, hi.lives, hi.owned, ?_⟩
    · intro v m hd
      exact absurd ⟨v, m, hd⟩ hr
    · intro v hv
      by_cases he : v = u
      · subst he; simp [next, Phase.present]
      · simpa [next, he] using hi.started v (by simpa [next, he] using hv)
    · intro hc v hv
      by_cases he : v = u
      · subst he; simp [next]
      · simpa [next, he] using hi.kept hc v (by simpa [next, he] using hv)
    · intro hd
      simp [next, ha] at hd
  | receive u m =>
    refine ⟨?_, hi.started, hi.kept, fun _ => he.2.1, hi.lives, hi.owned, hi.emptied⟩
    intro v k hd; simp [next] at hd
  | lookup =>
    obtain ⟨⟨u, m, hd⟩, _⟩ := he
    simp only [next, hd]
    split
    next hr =>
      refine ⟨?_, hi.started, hi.kept, fun _ => hi.busy (by simp [hd]), hi.lives, hi.owned,
        hi.emptied⟩
      intro v k hc
      obtain ⟨rfl, _⟩ : u = v ∧ m = k := by simpa using hc
      exact hr
    next => exact failDispatch_invariant P hi
  | enqueue =>
    obtain ⟨u, m, hd, _, hp⟩ := he
    simp only [next, hd]
    have hset := hi.setPort (u := u) (p := { s.port u with queue := (s.port u).queue ++ [m] })
      rfl hp hp
    refine ⟨?_, hset.started, hset.kept, ?_, hset.lives, hset.owned, hset.emptied⟩
    · intro v k hc; simp at hc
    · intro hc; simp at hc
  | refuse => exact failDispatch_invariant P hi
  | pop u =>
    obtain ⟨hp, hq⟩ := he
    cases hqc : (s.port u).queue with
    | nil => exact absurd hqc hq
    | cons m rest =>
      refine hi.setPort ?_ (by simp [hp, Phase.present]) ?_
      · simp [Port.pop, hqc]
      · simpa [Port.pop, hqc] using onMessage_present (some m)
  | closed u => exact hi.setPort rfl (by simp [he.1, Phase.present]) (onMessage_present none)
  | write u count =>
    obtain ⟨rest, hp, _, _⟩ := he
    refine hi.setPort ?_ (by simp [hp, Phase.present]) ?_
    · simp [Port.write, hp]
    · simp [Port.write, hp, Phase.present]
  | wrote u =>
    have hp : (s.port u).phase = .writing [] := he
    exact hi.setPort rfl (by simp [hp, Phase.present]) (by simp [afterWrite, Phase.present])
  | writeFail u =>
    obtain ⟨b, rest, hp⟩ := he
    exact hi.setPort rfl (by simp [hp, Phase.present]) (by simp [afterWrite, Phase.present])
  | read u r =>
    obtain ⟨hr, hp⟩ := receiveBytes_phase P.loop s.alive (s.port u) r
    refine hi.setPort hr (by simp [he.1, Phase.present]) ?_
    rw [hp]
    exact onRead_present P.loop s.alive r
  | send u ok =>
    obtain ⟨m, hp⟩ := he
    refine hi.setPort ?_ (by simp [hp, Phase.present]) ?_
    · simp [Port.send, hp]
    · simpa [Port.send, hp] using afterSend_present P.loop m ok
  | teardown u =>
    obtain ⟨why, hp⟩ := he
    cases ha : s.alive with
    | true =>
      refine hi.setPort ?_ (by simp [hp, Phase.present]) ?_
      · simp [Port.teardown, hp]
      · simp [Port.teardown, hp, ha, Phase.present]
    | false =>
      refine hi.endPort ?_ ?_ ?_
      · simpa [Port.teardown, hp] using hi.emptied ha u
      · simp [Port.teardown, hp, ha, Phase.present]
      · rintro ⟨v, m, hd⟩
        have hr := hi.held v m hd
        simp [hi.emptied ha v] at hr
  | remove u =>
    obtain ⟨⟨why, hp⟩, hr⟩ := he
    exact hi.endPort (by simp [Port.remove, hp]) (by simp [Port.remove, hp, Phase.present]) hr
  | stop =>
    refine ⟨hi.held, hi.started, hi.kept, fun hd => absurd he.1 hd, ?_, hi.owned, hi.emptied⟩
    intro hr; simp [next] at hr
  | clear => exact hi.clearWriters he.1 he.2
  | drop =>
    have hc := hi.clearWriters he.1 he.2.1
    refine ⟨hc.held, hc.started, hc.kept, hc.busy, hc.lives, ?_, fun _ u => rfl⟩
    intro hf; simp [next, clearWriters] at hf

theorem reachable_invariant (P : Program) {s : State U} (h : Reachable (endpoint P) s) :
    Invariant s :=
  Reachable.invariant (M := endpoint P) initial_invariant
    (fun _ _ hi he => step_invariant P hi he) h

end Endpoint
