import Nport.PortTask
import Nport.ReceiveLoop

/-! The receive paths of the two ends over the frames of their websocket: recv_data, recv,
msg and the loop of handle_socket in the server, recv and the read loop of run in np. The
decoder of protobuf and the message handlers are parameters. -/
namespace Frames

open PortTask (Bytes)
open ReceiveLoop

/-- ws::Message in the server, tungstenite::Message in np -/
inductive WsMessage where
  | text (text : String)
  | binary (data : Bytes)
  | ping (payload : Bytes)
  | pong (payload : Bytes)
  | close (frame : Option (UInt16 × String))
  deriving DecidableEq, Repr

/-- What receiver.next() comes back with. -/
inductive Received where
  | message (message : WsMessage)
  | failed
  | ended
  deriving DecidableEq, Repr

inductive Handled where
  | ok
  | error
  | panicked
  deriving DecidableEq, Repr

variable {σ M : Type*}

section Server

inductive ServerError where
  | unexpectedMessageType
  | disconnected
  | websocket
  | decode

def recvData : Received → Except ServerError Bytes
  | .message (.binary data) => .ok data
  | .message (.text _) | .message (.ping _) | .message (.pong _) | .message (.close _) =>
    .error .unexpectedMessageType
  | .failed => .error .websocket
  | .ended => .error .disconnected

/-- The decoded payload; its message is absent for a variant that is unknown or not set. -/
def serverRecv (decode : Bytes → Option (Option M)) (received : Received) :
    Except ServerError (Option M) :=
  match recvData received with
  | .error e => .error e
  | .ok data =>
    match decode data with
    | none => .error .decode
    | some payload => .ok payload

def msg (handle : σ → M → σ × Handled) (s : σ) (payload : Option M) : σ × Handled :=
  match payload with
  | none => (s, .ok)
  | some message => handle s message

/-- The loop of handle_socket: every error ends it. -/
def handleSocket (decode : Bytes → Option (Option M)) (handle : σ → M → σ × Handled) (s : σ) :
    List Received → Outcome M
  | [] => ⟨[], true⟩
  | received :: rest =>
    match serverRecv decode received with
    | .error _ => ⟨[], false⟩
    | .ok payload =>
      let (s', result) := msg handle s payload
      let after : Outcome M :=
        if result = .ok then handleSocket decode handle s' rest else ⟨[], false⟩
      ⟨payload.toList ++ after.dispatched, after.up⟩

def serverAction (decode : Bytes → Option (Option M)) (received : Received) : Action M :=
  match serverRecv decode received with
  | .error _ => .stop
  | .ok none => .skip
  | .ok (some message) => .dispatch message

def serverGoesOn (handle : σ → M → σ × Handled) (s : σ) (message : M) : σ × Bool :=
  ((handle s message).1, (handle s message).2 = .ok)

theorem handleSocket_eq_run (decode : Bytes → Option (Option M))
    (handle : σ → M → σ × Handled) (s : σ) (frames : List Received) :
    handleSocket decode handle s frames =
      run (serverAction decode) (serverGoesOn handle) s frames := by
  induction frames generalizing s with
  | nil => rfl
  | cons received rest ih =>
    rw [handleSocket]
    cases h : serverRecv decode received with
    | error e =>
      rw [run_stop (by rw [serverAction, h])]
    | ok payload =>
      cases payload with
      | none =>
        rw [run_skip (by rw [serverAction, h]), ← ih]
        rfl
      | some message =>
        have ha : serverAction decode received = .dispatch message := by rw [serverAction, h]
        by_cases hok : (handle s message).2 = .ok
        · rw [run_dispatch ha (by simp [serverGoesOn, hok])]
          simp [msg, hok, ih, Outcome.after, serverGoesOn]
        · rw [run_failed ha (by simp [serverGoesOn, hok])]
          simp [msg, hok]

end Server

section Np

inductive NpError where
  | disconnected
  | websocket
  | invalidMessageType
  | decode
  | malformedMessage

def npRecv (decode : Bytes → Option (Option M)) : Received → Except NpError M
  | .ended => .error .disconnected
  | .failed => .error .websocket
  | .message (.binary data) =>
    match decode data with
    | none => .error .decode
    | some none => .error .malformedMessage
    | some (some message) => .ok message
  | .message (.text _) | .message (.ping _) | .message (.pong _) | .message (.close _) =>
    .error .invalidMessageType

/-- The read loop of run: an error of dispatch::message is logged, one of recv ends it. -/
def readLoop (decode : Bytes → Option (Option M)) (handle : σ → M → σ × Handled) (s : σ) :
    List Received → Outcome M
  | [] => ⟨[], true⟩
  | received :: rest =>
    match npRecv decode received with
    | .error _ => ⟨[], false⟩
    | .ok message =>
      let (s', result) := handle s message
      let after : Outcome M :=
        if result = .panicked then ⟨[], false⟩ else readLoop decode handle s' rest
      ⟨message :: after.dispatched, after.up⟩

def npAction (decode : Bytes → Option (Option M)) (received : Received) : Action M :=
  match npRecv decode received with
  | .error _ => .stop
  | .ok message => .dispatch message

def npGoesOn (handle : σ → M → σ × Handled) (s : σ) (message : M) : σ × Bool :=
  ((handle s message).1, (handle s message).2 ≠ .panicked)

theorem readLoop_eq_run (decode : Bytes → Option (Option M)) (handle : σ → M → σ × Handled)
    (s : σ) (frames : List Received) :
    readLoop decode handle s frames = run (npAction decode) (npGoesOn handle) s frames := by
  induction frames generalizing s with
  | nil => rfl
  | cons received rest ih =>
    rw [readLoop]
    cases h : npRecv decode received with
    | error e =>
      rw [run_stop (by rw [npAction, h])]
    | ok message =>
      have ha : npAction decode received = .dispatch message := by rw [npAction, h]
      by_cases hp : (handle s message).2 = .panicked
      · rw [run_failed ha (by simp [npGoesOn, hp])]
        simp [hp]
      · rw [run_dispatch ha (by simp [npGoesOn, hp])]
        simp [hp, ih, Outcome.after, npGoesOn]

end Np

inductive Inert (decode : Bytes → Option (Option M)) : Received → Prop where
  | ping (payload : Bytes) : Inert decode (.message (.ping payload))
  | pong (payload : Bytes) : Inert decode (.message (.pong payload))
  | empty (data : Bytes) : decode data = some none → Inert decode (.message (.binary data))

variable {decode : Bytes → Option (Option M)} {received : Received}

/-- The server passes over an empty payload, but not over a Ping or a Pong. -/
theorem Inert.server (h : Inert decode received) :
    serverAction decode received = .skip ∧ (∃ data, received = .message (.binary data)) ∨
      serverAction decode received = .stop ∧
        (∃ payload, received = .message (.ping payload) ∨
          received = .message (.pong payload)) := by
  cases h with
  | ping payload => exact Or.inr ⟨rfl, payload, Or.inl rfl⟩
  | pong payload => exact Or.inr ⟨rfl, payload, Or.inr rfl⟩
  | empty data h => exact Or.inl ⟨by simp [serverAction, serverRecv, recvData, h], data, rfl⟩

theorem Inert.np (h : Inert decode received) : npAction decode received = .stop := by
  cases h with
  | ping | pong => rfl
  | empty data h => simp [npAction, npRecv, h]

theorem Inert.not_dispatched (h : Inert decode received) (m : M) :
    serverAction decode received ≠ .dispatch m ∧ npAction decode received ≠ .dispatch m := by
  constructor
  · rcases h.server with ⟨hs, _⟩ | ⟨hs, _⟩ <;> simp [hs]
  · simp [h.np]

/-- An inserted Ping or Pong reaches the server after its loop, or right before the frames
that are about to end it. -/
def PingsBelated (decode : Bytes → Option (Option M)) (handle : σ → M → σ × Handled) (s : σ)
    (frames : List (Received × Bool)) : Prop :=
  ∀ before received after, frames = before ++ (received, true) :: after →
    (∃ payload, received = .message (.ping payload) ∨ received = .message (.pong payload)) →
    (handleSocket decode handle s (kept before)).up = true →
      EndsFirst (serverAction decode) (kept after)

def InertBelated (decode : Bytes → Option (Option M)) (handle : σ → M → σ × Handled) (s : σ)
    (frames : List (Received × Bool)) : Prop :=
  ∀ before received after, frames = before ++ (received, true) :: after →
    (readLoop decode handle s (kept before)).up = true →
      EndsFirst (npAction decode) (kept after)

/-- Inserted frames without an actionable message change neither what is dispatched nor
whether the session is up exactly when none of them ends it before its own frames do: in
the server these are the Pings and Pongs, in np the empty payloads as well. -/
theorem inserted_frames_unnoticed_iff (decode : Bytes → Option (Option M))
    (handle : σ → M → σ × Handled) (s : σ) (frames : List (Received × Bool))
    (inserted : ∀ p ∈ frames, p.2 = true → Inert decode p.1) :
    (handleSocket decode handle s (all frames) = handleSocket decode handle s (kept frames) ↔
      PingsBelated decode handle s frames) ∧
    (readLoop decode handle s (all frames) = readLoop decode handle s (kept frames) ↔
      InertBelated decode handle s frames) := by
  simp only [PingsBelated, InertBelated, handleSocket_eq_run, readLoop_eq_run]
  have here (before after : List (Received × Bool)) (received : Received)
      (hl : frames = before ++ (received, true) :: after) : Inert decode received :=
    inserted (received, true) (by simp [hl]) rfl
  constructor
  · rw [run_all_eq_kept_iff s fun p hp hm m => ((inserted p hp hm).not_dispatched m).1]
    constructor
    · intro h before received after hl hc
      refine h before received after hl ?_
      rcases (here _ _ _ hl).server with ⟨_, data, hd⟩ | ⟨hs, _⟩
      · obtain ⟨payload, hc | hc⟩ := hc <;> rw [hd] at hc <;> cases hc
      · exact hs
    · intro h before received after hl hs
      refine h before received after hl ?_
      rcases (here _ _ _ hl).server with ⟨hskip, _⟩ | ⟨_, hc⟩
      · rw [hs] at hskip
        cases hskip
      · exact hc
  · rw [run_all_eq_kept_iff s fun p hp hm m => ((inserted p hp hm).not_dispatched m).2]
    constructor
    · intro h before received after hl
      exact h before received after hl (here _ _ _ hl).np
    · intro h before received after hl _
      exact h before received after hl

/-- Of the server alone: empty payloads may be inserted anywhere. -/
theorem empty_payloads_unnoticed (decode : Bytes → Option (Option M))
    (handle : σ → M → σ × Handled) (s : σ) (frames : List (Received × Bool))
    (inserted : ∀ p ∈ frames, p.2 = true →
      ∃ data, p.1 = .message (.binary data) ∧ decode data = some none) :
    handleSocket decode handle s (all frames) =
      handleSocket decode handle s (kept frames) := by
  have skipped : ∀ p ∈ frames, p.2 = true → serverAction decode p.1 = .skip := by
    intro p hp hm
    obtain ⟨data, hd, he⟩ := inserted p hp hm
    simp [hd, serverAction, serverRecv, recvData, he]
  rw [handleSocket_eq_run, handleSocket_eq_run,
    run_all_eq_kept_iff s fun p hp hm m => by simp [skipped p hp hm]]
  intro before received after hl hs
  have hskip := skipped (received, true) (by simp [hl]) rfl
  rw [hskip] at hs
  cases hs

def decodeUnit (data : Bytes) : Option (Option Unit) :=
  if data = [] then some none else some (some ())

def handleUnit (_ : Unit) (_ : Unit) : Unit × Handled := ((), .ok)

def atTheEnd : List (Received × Bool) :=
  [(.message (.binary [1]), false), (.message (.ping []), true),
    (.message (.binary []), true), (.ended, false)]

theorem unnoticed_at_the_end :
    PingsBelated decodeUnit handleUnit () atTheEnd ∧
      InertBelated decodeUnit handleUnit () atTheEnd := by
  have inserted : ∀ p ∈ atTheEnd, p.2 = true → Inert decodeUnit p.1 := by
    intro p hp hm
    simp only [atTheEnd, List.mem_cons, List.not_mem_nil, or_false] at hp
    rcases hp with rfl | rfl | rfl | rfl
    · cases hm
    · exact .ping _
    · exact .empty _ rfl
    · cases hm
  have hiff := inserted_frames_unnoticed_iff decodeUnit handleUnit () atTheEnd inserted
  exact ⟨hiff.1.mp (by decide), hiff.2.mp (by decide)⟩

/-- A Ping before a message ends both sessions, an empty payload that of np. -/
theorem keep_alive_ends_session :
    (Inert decodeUnit (.message (.ping [])) ∧
      let frames := [(.message (.ping []), true), (.message (.binary [1]), false)]
      handleSocket decodeUnit handleUnit () (all frames) ≠
        handleSocket decodeUnit handleUnit () (kept frames) ∧
      readLoop decodeUnit handleUnit () (all frames) ≠
        readLoop decodeUnit handleUnit () (kept frames)) ∧
    (Inert decodeUnit (.message (.binary [])) ∧
      let frames := [(.message (.binary []), true), (.message (.binary [1]), false)]
      readLoop decodeUnit handleUnit () (all frames) ≠
        readLoop decodeUnit handleUnit () (kept frames)) :=
  ⟨⟨.ping [], by decide, by decide⟩, .empty [] rfl, by decide⟩

end Frames
