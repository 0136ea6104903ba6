import Nport.Backpressure
import Mathlib.Algebra.Group.Action.Defs
import Mathlib.Algebra.Order.BigOperators.Group.Finset

/-! However many connections there are and whatever the websocket holds, the deadlock under load
is within reach: it is enough that the tasks read and the dispatchers dispatch, and no task
turns to its queue. -/
namespace Saturation

open GuardedMachine
open PortTask
open Backpressure

variable {U : Type*} [Fintype U]

/-- An end whose tasks have only read and sent so far. -/
structure Filling (P : Endpoint.Program) (e : Endpoint.State U) : Prop where
  registered : ∀ u, (e.port u).registered = true
  running : e.running = true
  alive : e.alive = true
  phase : ∀ u, (e.port u).phase = .select ∨ ∃ bytes, (e.port u).phase = .sending (.data bytes)
  queue : ∀ u, (e.port u).queue.length ≤ P.loop.capacity

structure Filled (capacity : Side → ℕ) (s : State U) : Prop where
  ends : ∀ side, Filling side.program (s.ends side)
  channel : ∀ side, (s.channel side).length ≤ capacity side

/-! How far the messages have come: from the task that has read one (1) over the websocket (2)
and the dispatcher (3, and 4 with the writer found) into the queue (5). -/

def portStage (p : Endpoint.Port) : ℕ :=
  (if p.phase.isSending then 1 else 0) + 5 * p.queue.length

def handStage : Endpoint.Dispatcher U → ℕ
  | .idle => 0
  | .lookup _ _ => 3
  | .capacity _ _ => 4

def endStage (e : Endpoint.State U) : ℕ := ∑ u, portStage (e.port u) + handStage e.dispatcher

def stage (s : State U) : ℕ :=
  endStage (s.ends .server) + endStage (s.ends .np) +
    2 * ((s.channel .server).length + (s.channel .np).length)

theorem stage_eq (s : State U) (side : Side) :
    stage s = endStage (s.ends side) + endStage (s.ends side.peer) +
      2 * ((s.channel side).length + (s.channel side.peer).length) := by
  cases side with
  | server => rfl
  | np =>
    simp only [stage, Side.peer]
    omega

def stageBound (U : Type*) [Fintype U] (capacity : Side → ℕ) : ℕ :=
  (Fintype.card U * (1 + 5 * Side.server.program.loop.capacity) + 4) +
    (Fintype.card U * (1 + 5 * Side.np.program.loop.capacity) + 4) +
    2 * (capacity .server + capacity .np)

theorem Filling.endStage_le {P : Endpoint.Program} {e : Endpoint.State U} (h : Filling P e) :
    endStage e ≤ Fintype.card U * (1 + 5 * P.loop.capacity) + 4 := by
  have hport : ∀ u ∈ Finset.univ, portStage (e.port u) ≤ 1 + 5 * P.loop.capacity := by
    intro u _
    have hq := h.queue u
    unfold portStage
    split <;> omega
  have hports := Finset.sum_le_card_nsmul Finset.univ _ _ hport
  rw [Finset.card_univ, smul_eq_mul] at hports
  have hhand : handStage e.dispatcher ≤ 4 := by
    cases e.dispatcher <;> simp [handStage]
  unfold endStage
  omega

theorem Filled.stage_le {capacity : Side → ℕ} {s : State U} (h : Filled capacity s) :
    stage s ≤ stageBound U capacity := by
  have hserver := (h.ends .server).endStage_le
  have hnp := (h.ends .np).endStage_le
  have hdown := h.channel .server
  have hup := h.channel .np
  unfold stage stageBound
  omega

variable [DecidableEq U] {capacity : Side → ℕ}

theorem endStage_setPort (e : Endpoint.State U) (u : U) (p : Endpoint.Port) :
    endStage (Endpoint.setPort e u p) + portStage (e.port u) = endStage e + portStage p := by
  have hnew := Finset.add_sum_erase Finset.univ
    (fun v => portStage ((Endpoint.setPort e u p).port v)) (Finset.mem_univ u)
  have hold := Finset.add_sum_erase Finset.univ (fun v => portStage (e.port v)) (Finset.mem_univ u)
  have hrest : ∑ v ∈ Finset.univ.erase u, portStage ((Endpoint.setPort e u p).port v) =
      ∑ v ∈ Finset.univ.erase u, portStage (e.port v) := by
    apply Finset.sum_congr rfl
    intro v hv
    rw [Endpoint.setPort_other _ _ (Finset.ne_of_mem_erase hv)]
  simp only [Endpoint.setPort_self] at hnew
  unfold endStage
  rw [Endpoint.setPort_dispatcher]
  omega

omit [Fintype U] in
theorem Filling.setPort {P : Endpoint.Program} {e : Endpoint.State U} (h : Filling P e) {u : U}
    {p : Endpoint.Port} (registered : p.registered = true)
    (phase : p.phase = .select ∨ ∃ bytes, p.phase = .sending (.data bytes))
    (queue : p.queue.length ≤ P.loop.capacity) : Filling P (Endpoint.setPort e u p) := by
  have replaced (Q : Endpoint.Port → Prop) (hold : ∀ v, Q (e.port v)) (hnew : Q p) (v : U) :
      Q ((Endpoint.setPort e u p).port v) := by
    by_cases hv : v = u
    · subst hv
      rwa [Endpoint.setPort_self]
    · rw [Endpoint.setPort_other _ _ hv]
      exact hold v
  refine ⟨?_, h.running, h.alive, ?_, ?_⟩
  · exact replaced (fun q => q.registered = true) h.registered registered
  · exact replaced (fun q => q.phase = .select ∨ ∃ bytes, q.phase = .sending (.data bytes))
      h.phase phase
  · exact replaced (fun q => q.queue.length ≤ P.loop.capacity) h.queue queue

def Advances (capacity : Side → ℕ) (s : State U) (e : Event U) : Prop :=
  Enabled capacity s e ∧ Filled capacity (next s e) ∧ stage s < stage (next s e)

theorem advances_read {s : State U} (h : Filled capacity s) {side : Side} {u : U}
    (hp : ((s.ends side).port u).phase = .select) :
    Advances capacity s (.inner side (.read u (.size [0]))) := by
  have hf := h.ends side
  have hnext : Endpoint.next side.program (s.ends side) (.read u (.size [0])) =
      Endpoint.setPort (s.ends side) u { (s.ends side).port u with
        read := ((s.ends side).port u).read ++ [0], phase := .sending (.data [0]) } := by
    simp [Endpoint.next, Endpoint.Port.receiveBytes, PortLoop.onRead_size, hf.alive, outgoing]
  refine ⟨⟨by simp [UnderLoad], hp, by simp [bufferSize]⟩, ⟨?_, h.channel⟩, ?_⟩
  · refine forall_setEnd (Q := fun k t => Filling k.program t) h.ends ?_
    rw [hnext]
    exact hf.setPort (hf.registered u) (Or.inr ⟨_, rfl⟩) (hf.queue u)
  · have hcount := endStage_setPort (s.ends side) u { (s.ends side).port u with
        read := ((s.ends side).port u).read ++ [0], phase := .sending (.data [0]) }
    have hpeer : side.peer ≠ side := by cases side <;> simp [Side.peer]
    rw [stage_eq s side, stage_eq (next s (.inner side (.read u (.size [0])))) side]
    simp only [next, setEnd_self, setEnd_other _ _ hpeer, setEnd_channel, hnext]
    simp only [portStage, hp, Phase.isSending, if_true, Bool.false_eq_true, if_false] at hcount
    omega

theorem advances_send {s : State U} (h : Filled capacity s) {side : Side} {u : U}
    {bytes : Bytes} (hp : ((s.ends side).port u).phase = .sending (.data bytes))
    (hroom : (s.channel side).length < capacity side) : Advances capacity s (.send side u) := by
  have hf := h.ends side
  have hpeer : side.peer ≠ side := by cases side <;> simp [Side.peer]
  have hafter : side.program.loop.afterSend (.data bytes) true = .select := by
    rcases side.program.loop.afterSend_data bytes true with ha | ⟨_, ha⟩
    · exact ha
    · cases ha
  let p : Endpoint.Port := { (s.ends side).port u with
    emitted := ((s.ends side).port u).emitted ++ [.data bytes], phase := .select }
  have hnext : next s (.send side u) = setChannel (setEnd s side
      (Endpoint.setPort (s.ends side) u p)) side (s.channel side ++ [(u, .data bytes)]) := by
    simp [next, hp, Endpoint.next, Endpoint.Port.send, hafter, p]
  refine ⟨⟨⟨_, hp⟩, hroom⟩, ?_, ?_⟩
  · rw [hnext]
    constructor
    · exact forall_setEnd (Q := fun k t => Filling k.program t) h.ends
        (hf.setPort (hf.registered u) (Or.inl rfl) (hf.queue u))
    · intro k
      by_cases hk : k = side
      · subst hk
        simpa [setChannel] using Nat.succ_le_of_lt hroom
      · simpa [setChannel, hk] using h.channel k
  · have hcount := endStage_setPort (s.ends side) u p
    have hsent : portStage ((s.ends side).port u) = portStage p + 1 := by
      simp [portStage, hp, p, Phase.isSending]
      omega
    rw [hnext, stage_eq s side, stage_eq _ side]
    simp only [setChannel_ends, setEnd_self, setEnd_other _ _ hpeer]
    simp [setChannel, hpeer]
    omega

theorem advances_receive {s : State U} (h : Filled capacity s) {side : Side}
    (hc : s.channel side.peer ≠ []) (hd : (s.ends side).dispatcher = .idle) :
    Advances capacity s (.receive side) := by
  have hf := h.ends side
  have hpeer : side.peer ≠ side := by cases side <;> simp [Side.peer]
  obtain ⟨⟨u, m⟩, rest, hl⟩ := List.exists_cons_of_ne_nil hc
  have hnext : next s (.receive side) = setChannel (setEnd s side
      { s.ends side with dispatcher := .lookup u m }) side.peer rest := by
    simp [next, hl, Endpoint.next]
  refine ⟨⟨hc, hd, hf.running, hf.alive⟩, ?_, ?_⟩
  · rw [hnext]
    constructor
    · exact forall_setEnd (Q := fun k t => Filling k.program t) h.ends
        ⟨hf.registered, hf.running, hf.alive, hf.phase, hf.queue⟩
    · intro k
      have hold := h.channel k
      by_cases hk : k = side.peer
      · subst hk
        rw [hl, List.length_cons] at hold
        simp [setChannel]
        omega
      · simpa [setChannel, hk] using hold
  · rw [hnext, stage_eq s side, stage_eq _ side]
    simp only [setChannel_ends, setEnd_self, setEnd_other _ _ hpeer]
    simp [setChannel, hpeer.symm, hl, endStage, handStage, hd]
    omega

theorem advances_lookup {s : State U} (h : Filled capacity s) {side : Side} {u : U}
    {m : PortMessage} (hd : (s.ends side).dispatcher = .lookup u m) :
    Advances capacity s (.inner side .lookup) := by
  have hf := h.ends side
  have hpeer : side.peer ≠ side := by cases side <;> simp [Side.peer]
  have hnext : next s (.inner side .lookup) =
      setEnd s side { s.ends side with dispatcher := .capacity u m } := by
    simp [next, Endpoint.next, hd, hf.registered u]
  have hremoving (v : U) : ((s.ends side).port v).phase.isRemoving = false := by
    rcases hf.phase v with hv | ⟨bytes, hv⟩ <;> simp [hv, Phase.isRemoving]
  refine ⟨⟨trivial, ⟨u, m, hd⟩, hremoving⟩, ?_, ?_⟩
  · rw [hnext]
    exact ⟨forall_setEnd (Q := fun k t => Filling k.program t) h.ends
      ⟨hf.registered, hf.running, hf.alive, hf.phase, hf.queue⟩, h.channel⟩
  · rw [hnext, stage_eq s side, stage_eq _ side]
    simp only [setEnd_self, setEnd_other _ _ hpeer, setEnd_channel]
    simp only [endStage, handStage, hd]
    omega

theorem advances_enqueue {s : State U} (h : Filled capacity s) {side : Side} {u : U}
    {m : PortMessage} (hd : (s.ends side).dispatcher = .capacity u m)
    (hroom : ((s.ends side).port u).queue.length < side.program.loop.capacity) :
    Advances capacity s (.inner side .enqueue) := by
  have hf := h.ends side
  have hpeer : side.peer ≠ side := by cases side <;> simp [Side.peer]
  let p : Endpoint.Port := { (s.ends side).port u with
    queue := ((s.ends side).port u).queue ++ [m] }
  have hnext : next s (.inner side .enqueue) =
      setEnd s side { Endpoint.setPort (s.ends side) u p with dispatcher := .idle } := by
    simp [next, Endpoint.next, hd, p]
  have hpresent : ((s.ends side).port u).phase.present = true := by
    rcases hf.phase u with hp | ⟨bytes, hp⟩ <;> simp [hp, Phase.present]
  have hfilling : Filling side.program (Endpoint.setPort (s.ends side) u p) := by
    refine hf.setPort (hf.registered u) (hf.phase u) ?_
    simp only [p, List.length_append, List.length_singleton]
    omega
  refine ⟨⟨trivial, u, m, hd, hroom, hpresent⟩, ?_, ?_⟩
  · rw [hnext]
    exact ⟨forall_setEnd (Q := fun k t => Filling k.program t) h.ends
      ⟨hfilling.registered, hfilling.running, hfilling.alive, hfilling.phase, hfilling.queue⟩,
      h.channel⟩
  · have hcount := endStage_setPort (s.ends side) u p
    have hqueued : portStage p = portStage ((s.ends side).port u) + 5 := by
      simp only [portStage, p, List.length_append, List.length_singleton]
      omega
    rw [hnext, stage_eq s side, stage_eq _ side]
    simp only [setEnd_self, setEnd_other _ _ hpeer, setEnd_channel]
    simp only [endStage, Endpoint.setPort_dispatcher, hd, handStage] at hcount ⊢
    omega

/-- Short of the deadlock there is something to take further. -/
theorem exists_advance [Nonempty U] (hcapacity : ∀ side, 0 < capacity side) {s : State U}
    (h : Filled capacity s) (hd : ¬ Deadlocked capacity s) : ∃ e, Advances capacity s e := by
  by_contra hnone
  rw [not_exists] at hnone
  have hsending (side : Side) (u : U) :
      ∃ bytes, ((s.ends side).port u).phase = .sending (.data bytes) := by
    rcases (h.ends side).phase u with hp | hp
    · exact absurd (advances_read h hp) (hnone _)
    · exact hp
  have hfull (side : Side) : capacity side ≤ (s.channel side).length := by
    by_contra hroom
    obtain ⟨u⟩ := ‹Nonempty U›
    obtain ⟨bytes, hp⟩ := hsending side u
    exact hnone _ (advances_send h hp (by omega))
  apply hd
  constructor
  · intro side
    cases hdisp : (s.ends side).dispatcher with
    | idle =>
      have hne : s.channel side.peer ≠ [] := by
        have := hcapacity side.peer
        have := hfull side.peer
        apply List.ne_nil_of_length_pos
        omega
      exact absurd (advances_receive h hne hdisp) (hnone _)
    | lookup u m => exact absurd (advances_lookup h hdisp) (hnone _)
    | capacity u m =>
      refine ⟨u, ⟨m, hdisp⟩, ?_⟩
      by_contra hroom
      exact hnone _ (advances_enqueue h hdisp (by omega))
  · intro side u
    obtain ⟨bytes, hp⟩ := hsending side u
    exact ⟨⟨_, hp⟩, hfull side⟩

omit [DecidableEq U] [Fintype U] in
theorem initial_filled : Filled capacity (initial : State U) :=
  ⟨fun _ => ⟨fun _ => rfl, rfl, rfl, fun _ => Or.inl rfl, fun _ => Nat.zero_le _⟩,
    fun _ => Nat.zero_le _⟩

theorem deadlock_reachable (U : Type*) [Fintype U] [DecidableEq U] [Nonempty U]
    (hcapacity : ∀ side, 0 < capacity side) :
    ∃ s : State U, Reachable (session capacity) s ∧ Deadlocked capacity s := by
  obtain ⟨tr, s, hp, hs⟩ := exists_path_of_measure (M := session capacity)
    (I := Filled capacity) (G := Deadlocked capacity) stage (stageBound U capacity)
    (fun _ h => h.stage_le) (fun _ h hd => exists_advance hcapacity h hd)
    (s := initial) initial_filled
  exact ⟨s, ⟨tr, hp⟩, hs⟩

/-! A direction that holds nothing. -/

structure Bounded (capacity : Side → ℕ) (s : State U) : Prop where
  channel : ∀ side, (s.channel side).length ≤ capacity side
  unused : ∀ side, capacity side.peer = 0 → (s.ends side).dispatcher = .idle

omit [Fintype U] in
theorem step_bounded {s : State U} (h : Bounded capacity s) {e : Event U}
    (he : Enabled capacity s e) : Bounded capacity (next s e) := by
  cases e with
  | receive side =>
    obtain ⟨⟨u, m⟩, rest, hl⟩ := List.exists_cons_of_ne_nil he.1
    have hlength := h.channel side.peer
    rw [hl, List.length_cons] at hlength
    simp only [next, hl]
    constructor
    · intro k
      by_cases hk : k = side.peer
      · subst hk
        simp only [setChannel, Function.update_self]
        omega
      · simpa [setChannel, hk] using h.channel k
    · intro k hzero
      have hk : k ≠ side := by
        rintro rfl
        omega
      simpa [hk] using h.unused k hzero
  | send side u =>
    obtain ⟨⟨m, hm⟩, hroom⟩ := he
    simp only [next, hm]
    constructor
    · intro k
      by_cases hk : k = side
      · subst hk
        simpa [setChannel] using Nat.succ_le_of_lt hroom
      · simpa [setChannel, hk] using h.channel k
    · exact forall_setEnd (Q := fun k t => capacity k.peer = 0 → t.dispatcher = .idle) h.unused
        (h.unused side)
  | inner side e =>
    obtain ⟨hload, he⟩ := he
    refine ⟨h.channel, forall_setEnd
      (Q := fun k t => capacity k.peer = 0 → t.dispatcher = .idle) h.unused ?_⟩
    intro hzero
    have hidle := h.unused side hzero
    cases e with
    | lookup =>
      obtain ⟨⟨u, m, hd⟩, _⟩ := he
      rw [hidle] at hd
      cases hd
    | enqueue =>
      obtain ⟨u, m, hd, _⟩ := he
      rw [hidle] at hd
      cases hd
    | pop | write | wrote | read => exact hidle
    | register | receive | refuse | closed | writeFail | send | teardown | remove | stop | clear
    | drop => cases hload

omit [Fintype U] in
theorem bounded_of_reachable {s : State U} (hs : Reachable (session capacity) s) :
    Bounded capacity s := by
  refine Reachable.invariant (M := session capacity) ?_ (fun _ _ h he => step_bounded h he) hs
  exact ⟨fun _ => Nat.zero_le _, fun _ _ => rfl⟩

/-- Under load the session can come to a stop unless there is no connection, or a direction of
the websocket that holds nothing, where a dispatcher waits for ever and is not called blocked; and
it does exactly when a step blocks the last one. -/
theorem live_under_load_iff (U : Type*) [Fintype U] [DecidableEq U] (capacity : Side → ℕ) :
    ((∀ s : State U, Reachable (session capacity) s → ¬ Deadlocked capacity s) ↔
      IsEmpty U ∨ ∃ side, capacity side = 0) ∧
    ∀ (s : State U) (tr : List (State U × Event U)), Run (session capacity) tr s →
      ((∀ t ∈ visited tr s, ¬ Deadlocked capacity t) ↔ ∀ p ∈ tr, ¬ Hazard capacity p.1 p.2) := by
  refine ⟨?_, fun s tr hr => never_deadlocked_iff capacity hr⟩
  constructor
  · intro hlive
    by_contra hnot
    rw [not_or, not_isEmpty_iff, not_exists] at hnot
    obtain ⟨hconnection, hcapacity⟩ := hnot
    obtain ⟨s, hs, hd⟩ := deadlock_reachable U
      fun side => Nat.pos_of_ne_zero (hcapacity side)
    exact hlive s hs hd
  · rintro (hempty | ⟨side, hzero⟩) s hs hd
    · obtain ⟨u, _⟩ := hd.dispatchers .server
      exact hempty.false u
    · have hpeer : side.peer.peer = side := by cases side <;> rfl
      have hidle := (bounded_of_reachable hs).unused side.peer (by rwa [hpeer])
      obtain ⟨u, ⟨m, hm⟩, _⟩ := hd.dispatchers side.peer
      rw [hidle] at hm
      cases hm

/-- One chunk on its way from the task of a side into the queue of the other. -/
def deliver (side : Side) : List (Event Unit) :=
  [.inner side (.read () (.size [0])), .send side (), .receive side.peer,
    .inner side.peer .lookup, .inner side.peer .enqueue]

/-- The chunks that follow when the queue is full: one waits in port_message, one fills the
websocket, and one is in client.send. -/
def jam (side : Side) : List (Event Unit) :=
  [.inner side (.read () (.size [0])), .send side (), .receive side.peer,
    .inner side.peer .lookup, .inner side (.read () (.size [0])), .send side (),
    .inner side (.read () (.size [0]))]

def bothWays : List (Event Unit) :=
  deliver .np ++ deliver .np ++ deliver .np ++ deliver .np ++ jam .np ++
    deliver .server ++ jam .server

def single : Side → ℕ := fun _ => 1

theorem bothWays_accepted : Accepts (session single) initial bothWays := by decide

theorem bothWays_deadlocked : Deadlocked single (replay (session single) initial bothWays) := by
  constructor
  · intro side
    cases side
    · exact ⟨(), ⟨_, rfl⟩, by decide⟩
    · exact ⟨(), ⟨_, rfl⟩, by decide⟩
  · intro side u
    obtain rfl : u = () := rfl
    cases side
    · exact ⟨⟨_, rfl⟩, by decide⟩
    · exact ⟨⟨_, rfl⟩, by decide⟩

theorem live_under_load_iff_bothWays :
    ¬ ∀ p ∈ trace (session single) initial bothWays, ¬ Hazard single p.1 p.2 := by
  intro hc
  have hrun := (live_under_load_iff Unit single).2 _ _ (path_of_accepts bothWays_accepted)
  exact hrun.mpr hc _ (List.mem_append_right _ (List.mem_singleton_self _)) bothWays_deadlocked

/-- One connection that sends and receives can stop for ever. -/
theorem full_duplex_deadlocks :
    ∃ s : State Unit, Reachable (session single) s ∧ Deadlocked single s ∧
      ∀ e, ¬ Enabled single s e :=
  ⟨_, reachable_of_accepts bothWays_accepted, bothWays_deadlocked,
    deadlocked_stuck bothWays_deadlocked⟩

end Saturation
