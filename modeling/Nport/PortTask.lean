import Mathlib.Data.List.Basic

/-! The two port tasks: the loop spawned by serve_socket in the server and the loop of
client_port in np. Each loop is given by what it does after every outcome its two select
branches can have; the two differ after a read error and after a failed send. -/
namespace PortTask

abbrev Bytes := List UInt8

inductive PortMessage where
  | data (bytes : Bytes)
  | close
  deriving DecidableEq, Repr

inductive Exit where
  | close
  | writeError
  | readError
  | eof
  | released
  | sendError
  deriving DecidableEq, Repr

/-- Where a port task stands. sending carries what client.send was called with:
data is a PortReceive and close a PortClose, both for the task's own uuid. -/
inductive Phase where
  | absent
  | select
  | writing (rest : Bytes)
  | sending (message : PortMessage)
  | left (why : Exit)
  | removing (why : Exit)
  | ended (why : Exit)
  deriving DecidableEq, Repr

/-- The result of timeout(time_step, port_reader.read(&mut buf)); bytes is buf[..size]. -/
inductive Read where
  | size (bytes : Bytes)
  | error
  | elapsed
  deriving DecidableEq, Repr

def bufferSize : ℕ := 512

/-- The branch of messages.recv(), the same in both loops. -/
def onMessage : Option PortMessage → Phase
  | some (.data bytes) => .writing bytes
  | some .close => .left .close
  | none => .select

/-- After port_writer.write_all(&data), the same in both loops. -/
def afterWrite (ok : Bool) : Phase := if ok then .select else .left .writeError

/-- What a read of size bytes is sent as: end of file becomes PortClose. -/
def outgoing (bytes : Bytes) : PortMessage := if bytes.length = 0 then .close else .data bytes

/-- One of the two loops with the capacity of its message queue. The fields after the
three functions bound what a loop may do, and are all that is used of it in general. -/
structure PortLoop where
  capacity : ℕ
  onRead : (alive : Bool) → Read → Phase
  afterSend : PortMessage → (ok : Bool) → Phase
  onRead_size : ∀ alive bytes,
    onRead alive (.size bytes) = if alive then .sending (outgoing bytes) else .left .released
  onRead_other : ∀ alive read, (∀ bytes, read ≠ .size bytes) →
    onRead alive read = .select ∨ (onRead alive read = .left .readError ∧ read = .error) ∨
      (onRead alive read = .left .released ∧ alive = false)
  afterSend_close : ∀ ok, afterSend .close ok = .left .eof ∨
    (afterSend .close ok = .left .sendError ∧ ok = false)
  afterSend_data : ∀ bytes ok, afterSend (.data bytes) ok = .select ∨
    (afterSend (.data bytes) ok = .left .sendError ∧ ok = false)

/-- nport-server, serve_socket: a read error ends the loop, a failed send does not. -/
def serveSocket : PortLoop where
  capacity := 4
  onRead := fun alive read =>
    match read with
    | .size bytes => if alive then .sending (outgoing bytes) else .left .released
    | .error => .left .readError
    | .elapsed => if alive then .select else .left .released
  afterSend := fun message _ => if message = .close then .left .eof else .select
  onRead_size := by simp
  onRead_other := by intro alive read h; cases read <;> cases alive <;> simp_all
  afterSend_close := by simp
  afterSend_data := by simp

/-- np, client_port: a read error is logged and the loop goes on, a failed send ends it. -/
def clientPort : PortLoop where
  capacity := 1
  onRead := fun alive read =>
    match read with
    | .size bytes => if alive then .sending (outgoing bytes) else .left .released
    | .error => .select
    | .elapsed => if alive then .select else .left .released
  afterSend := fun message ok =>
    if !ok then .left .sendError else if message = .close then .left .eof else .select
  onRead_size := by simp
  onRead_other := by intro alive read h; cases read <;> cases alive <;> simp_all
  afterSend_close := by simp
  afterSend_data := by intro bytes ok; cases ok <;> simp

def Phase.looping : Phase → Bool
  | .select | .writing _ | .sending _ => true
  | _ => false

/-- The task has left its loop, whatever it still does after it. -/
def Phase.out : Phase → Option Exit
  | .left why | .removing why | .ended why => some why
  | _ => none

def Phase.isSending : Phase → Bool
  | .sending _ => true
  | _ => false

def Phase.isRemoving : Phase → Bool
  | .removing _ => true
  | _ => false

/-- Spawned and not yet at its end, so the receiver of its queue exists. -/
def Phase.present : Phase → Bool
  | .absent | .ended _ => false
  | _ => true

theorem onRead_left (L : PortLoop) {alive : Bool} {r : Read}
    (h : (L.onRead alive r).looping = false) : ∃ why, L.onRead alive r = .left why := by
  by_cases hs : ∃ bytes, r = .size bytes
  · obtain ⟨bytes, rfl⟩ := hs
    cases alive <;> simp [L.onRead_size, Phase.looping] at h ⊢
  · rcases L.onRead_other alive r (fun bytes he => hs ⟨bytes, he⟩) with ho | ⟨ho, _⟩ | ⟨ho, _⟩
    · simp [ho, Phase.looping] at h
    · exact ⟨_, ho⟩
    · exact ⟨_, ho⟩

theorem afterSend_left (L : PortLoop) {m : PortMessage} {ok : Bool}
    (h : (L.afterSend m ok).looping = false) : ∃ why, L.afterSend m ok = .left why := by
  cases m with
  | data bytes =>
    rcases L.afterSend_data bytes ok with ho | ⟨ho, _⟩
    · simp [ho, Phase.looping] at h
    · exact ⟨_, ho⟩
  | close =>
    rcases L.afterSend_close ok with ho | ⟨ho, _⟩
    · exact ⟨_, ho⟩
    · exact ⟨_, ho⟩

theorem afterSend_exit (L : PortLoop) {m : PortMessage} {ok : Bool} {why : Exit}
    (h : L.afterSend m ok = .left why) : why = .eof ∨ (why = .sendError ∧ ok = false) := by
  cases m with
  | data bytes =>
    rcases L.afterSend_data bytes ok with ho | ⟨ho, hok⟩ <;> rw [ho] at h <;> cases h
    exact Or.inr ⟨rfl, hok⟩
  | close =>
    rcases L.afterSend_close ok with ho | ⟨ho, hok⟩ <;> rw [ho] at h <;> cases h
    · exact Or.inl rfl
    · exact Or.inr ⟨rfl, hok⟩

theorem onRead_exit (L : PortLoop) {alive : Bool} {r : Read} {why : Exit}
    (h : L.onRead alive r = .left why) : why = .released ∨ (why = .readError ∧ r = .error) := by
  by_cases hs : ∃ bytes, r = .size bytes
  · obtain ⟨bytes, rfl⟩ := hs
    rw [L.onRead_size] at h
    cases alive <;> simp at h
    exact Or.inl h.symm
  · rcases L.onRead_other alive r (fun bytes he => hs ⟨bytes, he⟩) with ho | ⟨ho, hr⟩ | ⟨ho, _⟩ <;>
      rw [ho] at h <;> cases h
    · exact Or.inr ⟨rfl, hr⟩
    · exact Or.inl rfl

def bytesOf : List PortMessage → Bytes
  | [] => []
  | .data bytes :: rest => bytes ++ bytesOf rest
  | .close :: rest => bytesOf rest

@[simp] theorem bytesOf_append (a b : List PortMessage) :
    bytesOf (a ++ b) = bytesOf a ++ bytesOf b := by
  induction a with
  | nil => rfl
  | cons m a ih => cases m <;> simp [bytesOf, ih]

theorem bytesOf_prefix {a b : List PortMessage} (h : a <+: b) : bytesOf a <+: bytesOf b := by
  obtain ⟨c, rfl⟩ := h
  rw [bytesOf_append]
  exact List.prefix_append _ _

theorem outgoing_bytes (bytes : Bytes) : bytesOf [outgoing bytes] = bytes := by
  unfold outgoing
  split
  next h => simp [bytesOf, List.length_eq_zero_iff.mp h]
  next => simp [bytesOf]

end PortTask
