import Nport.EndpointFlow

/-! One direction of the websocket between two endpoints. Frames are delivered in order.
A send may report an error although the frame still gets out; after a send that failed
or got nowhere, no later frame of this session gets out. -/
namespace Link

open PortTask
open Endpoint
open EndpointFlow
open FifoPipe

/-- A frame for a port task, or one of the connect handshake. -/
inductive Frame (U κ : Type*) where
  | control (content : κ)
  | port (u : U) (message : PortMessage)
  deriving DecidableEq, Repr

variable {U κ : Type*} [DecidableEq U]

def transmit (wire : List (Frame U κ)) (frame : Frame U κ) (reached : Bool) :
    List (Frame U κ) :=
  if reached then wire ++ [frame] else wire

omit [DecidableEq U] in
theorem mem_transmit {wire : List (Frame U κ)} {frame f : Frame U κ} {reached : Bool} :
    f ∈ transmit wire frame reached ↔ f ∈ wire ∨ (reached = true ∧ f = frame) := by
  cases reached <;> simp [transmit]

def onWire (u : U) : List (Frame U κ) → List PortMessage
  | [] => []
  | .control _ :: rest => onWire u rest
  | .port v m :: rest => (if v = u then [m] else []) ++ onWire u rest

@[simp] theorem onWire_append (u : U) (a b : List (Frame U κ)) :
    onWire u (a ++ b) = onWire u a ++ onWire u b := by
  induction a with
  | nil => rfl
  | cons f a ih => cases f <;> simp [onWire, ih]

theorem mem_onWire {u : U} {m : PortMessage} {wire : List (Frame U κ)} :
    m ∈ onWire u wire ↔ .port u m ∈ wire := by
  induction wire with
  | nil => simp [onWire]
  | cons f wire ih =>
    cases f with
    | control c => simp [onWire, ih]
    | port v k =>
      by_cases hv : v = u
      · simp [onWire, ih, hv]
      · simp [onWire, ih, hv, Ne.symm hv]

/-- Everything the tasks of src have emitted for u, followed to the queue at dst. -/
def Carries (src dst : Endpoint.State U) (wire : List (Frame U κ)) (intact : Bool) (u : U) :
    Prop :=
  Pipe (src.port u).emitted (arrived (dst.port u)) (hand dst u ++ onWire u wire)
    (intact = true) (Shut dst u)

variable {src dst : Endpoint.State U} {wire rest : List (Frame U κ)} {intact : Bool} {u : U}

theorem initial_carries : Carries (initial : Endpoint.State U) initial ([] : List (Frame U κ))
    intact u := by
  simpa [Carries, initial, Port.fresh, arrived, hand, onWire] using Pipe.empty

theorem Carries.send (h : Carries src dst wire intact u) (P : Program) {v : U}
    {m : PortMessage} {ok reached : Bool} (hp : (src.port v).phase = .sending m)
    (live : reached = true → intact = true) :
    Carries (next P src (.send v ok)) dst (transmit wire (.port v m) reached)
      (intact && ok && reached) u := by
  unfold Carries
  rw [send_emitted P hp u]
  by_cases hv : v = u
  · cases reached with
    | true =>
      simpa [transmit, onWire, hv] using Pipe.send h (live rfl) m
    | false =>
      have broken : ¬ ((intact && ok && false) = true) := by simp
      simpa [transmit, hv] using Pipe.lose h broken m
  · have hw : onWire u (transmit wire (.port v m) reached) = onWire u wire := by
      cases reached <;> simp [transmit, onWire, hv]
    have weaker : (intact && ok && reached) = true → intact = true := by simp_all
    rw [hw]
    simpa [hv] using Pipe.weaken h weaker

theorem Carries.control (h : Carries src dst wire intact u) {c : κ} {ok reached : Bool} :
    Carries src dst (transmit wire (.control c) reached) (intact && ok && reached) u := by
  have hw : onWire u (transmit wire (.control c) reached) = onWire u wire := by
    cases reached <;> simp [transmit, onWire]
  unfold Carries
  rw [hw]
  exact Pipe.weaken h (by simp_all)

theorem Carries.sender (h : Carries src dst wire intact u) (P : Program)
    {e : Endpoint.Event U} (he : Enabled P src e) (here : ∀ v ok, e ≠ .send v ok) :
    Carries (next P src e) dst wire intact u := by
  unfold Carries
  rw [next_emitted P he here u]
  exact h

theorem Carries.receiver (h : Carries src dst wire intact u) (P : Program)
    (hi : Endpoint.Invariant dst) {e : Endpoint.Event U} (he : Enabled P dst e)
    (here : ∀ v m, e ≠ .receive v m)
    (known : P.stopsOnError = true ∨
      ∀ v m, dst.dispatcher = .lookup v m → (dst.port v).phase ≠ .absent) :
    Carries src (next P dst e) wire intact u :=
  pipe_step P hi he here known h

theorem Carries.take {v : U} {m : PortMessage}
    (h : Carries src dst (.port v m :: rest) intact u) (P : Program)
    (he : Enabled P dst (.receive v m)) :
    Carries src (next P dst (.receive v m)) rest intact u :=
  pipe_receive P he h

theorem Carries.skip {c : κ} (h : Carries src dst (.control c :: rest) intact u) :
    Carries src dst rest intact u := h

end Link
