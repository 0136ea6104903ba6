import Nport.ClientLifetime
import Mathlib.Data.Fintype.Basic

/-! What becomes of the ports of a client that has gone. serve_socket holds a strong
reference while it waits for PortConnected, and the sender it waits for belongs to the
Client: a request left without an answer keeps the Client, and with it every port. -/
namespace PortRelease

open GuardedMachine
open SharedReference
open ClientLifetime

variable {P U K : Type*} [DecidableEq P] [DecidableEq U] [DecidableEq K]
variable {s : State P U K} {e : Event P U K}

/-- The steps the server takes without new input. What a port task takes from its channel is
left out: the fewer steps are counted, the more states have none left. -/
def internal : Event P U K → Bool
  | .registerPort _ | .deregister | .upgrade _ _ | .connect _ _ _ | .wake _ _ _
  | .recvError _ _ | .spawn _ _ _ | .close _ | .tick _ | .sent _ _ | .remove _ | .removed _
  | .enqueue _ | .forwarded _ => true
  | _ => false

/-- No step is left but the polling of a port task that changes nothing. -/
def Quiescent (s : State P U K) : Prop :=
  ∀ e, internal e = true → Enabled s e → next s e = s

def Freed (s : State P U K) : Prop := ∀ p, (s.acceptLoop p).listening = false

/-- The loop of handle_socket is left, no message of the client is read any more. -/
def Departed (s : State P U K) : Prop := s.session = .leaving ∨ s.session = .returned

def Answered (s : State P U K) : Prop :=
  Departed s → ∀ p u, s.acceptLoop p = .waiting u → s.connected u ≠ none

/-- Leaving the loop, or sending PortConnect after that, leaves no one to wait for
PortConnected. -/
def Unawaited (s : State P U K) : Event P U K → Prop
  | .leave => ∀ p u, s.acceptLoop p = .waiting u → s.connected u ≠ none
  | .connect _ u true => Departed s → s.connected u ≠ none
  | _ => True

/-- A send of one of the client's tasks is held up by the websocket. -/
def Blocked (s : State P U K) : Prop :=
  s.sink = .stalled ∧ ((∃ p u, s.acceptLoop p = .connecting u) ∨
    (∃ u last, s.task u = .sending last) ∨ ∃ k, s.forward k = .sending)

theorem departed_next (he : Enabled s e) :
    Departed (next s e) ↔ Departed s ∨ e = .leave := by
  by_cases ht : ofTasks e = true
  · have hne : e ≠ .leave := by rintro rfl; cases ht
    simp [Departed, (tasks_frame (s := s) ht).1, hne]
  cases e with
  | bind p => simp [Departed, next, setSession, he.1]
  | registerPort p =>
    simp [Departed, next, setSession, show s.session = .opening p from he]
  | leave => simp [Departed, next, setSession]
  | deregister => simp [Departed, next, setSession, show s.session = .leaving from he]
  | portConnected | sink => simp [Departed, next]
  | _ => exact absurd rfl ht

theorem connected_next (he : Enabled s e) (u : U) :
    (s.connected u ≠ none → (next s e).connected u ≠ none) ∧
      (Departed s → (next s e).connected u = s.connected u) := by
  by_cases ht : ofTasks e = true
  · simp [(tasks_frame (s := s) ht).2.2.2]
  cases e with
  | portConnected v ok =>
    refine ⟨fun hn => ?_, fun hd => ?_⟩
    · by_cases hv : u = v
      · subst hv; simp [next]
      · simpa [next, hv] using hn
    · simp [Departed, he.1] at hd
  | bind | registerPort | leave | deregister | sink => exact ⟨id, fun _ => rfl⟩
  | _ => exact absurd rfl ht

/-- An accept loop that waits for an answer which cannot come any more waits for ever: it
holds the Client whose drop alone would wake it. -/
theorem waiting_next (h : Invariant s) (he : Enabled s e) (hd : Departed s) {p : P} {u : U}
    (hw : s.acceptLoop p = .waiting u) (hn : s.connected u = none) :
    (next s e).acceptLoop p = .waiting u ∧ (next s e).connected u = none := by
  refine ⟨?_, by rw [(connected_next he u).2 hd, hn]⟩
  have alive : ¬ Dropped s.strong :=
    h.tracks.not_dropped (x := .acceptLoop p) (by simp [holds, hw, AcceptLoop.holds])
  generalize hl : (next s e).acceptLoop p = l
  cases hl ▸ next_loop he p with
  | kept => exact hw
  | gone _ hdrop => exact absurd hdrop alive
  | woken v ok hv hc =>
    obtain rfl : u = v := by simpa [hw] using hv
    simp [hn] at hc
  | lost v hv _ hlost =>
    obtain rfl : u = v := by simpa [hw] using hv
    rcases hlost with hr | hdrop
    · simp [h.awaited p u (Or.inr hw) hn] at hr
    · exact absurd hdrop alive
  | bound hv | accepted _ hv | upgraded _ hv | sent _ hv | failed _ hv | spawned _ hv =>
    simp [hw] at hv

theorem answered_next (h : Invariant s) (he : Enabled s e) :
    Answered (next s e) ↔ Answered s ∧ Unawaited s e := by
  constructor
  · intro ht
    refine ⟨?_, ?_⟩
    · intro hd p u hw hn
      obtain ⟨hw', hn'⟩ := waiting_next h he hd hw hn
      exact ht ((departed_next he).mpr (Or.inl hd)) p u hw' hn'
    · cases e with
      | leave => exact ht (Or.inl rfl)
      | connect p u ok =>
        cases ok with
        | true => exact fun hd => ht hd p u (by simp [next, setLoop])
        | false => trivial
      | _ => trivial
  · rintro ⟨hs, hc⟩ hd p u hw
    generalize hl : (next s e).acceptLoop p = l at hw
    cases hl ▸ next_loop he p with
    | kept =>
      apply (connected_next he u).1
      rcases (departed_next he).mp hd with hd | rfl
      · exact hs hd p u hw
      · exact hc p u hw
    | sent v _ hev =>
      obtain rfl : v = u := by simpa using hw
      subst hev
      exact hc hd
    | woken _ ok => cases ok <;> simp at hw
    | bound | accepted | upgraded | gone | failed | lost | spawned => simp at hw

theorem Quiescent.acceptLoop (hq : Quiescent s) (hi : internal e = true) (he : Enabled s e)
    (p : P) : (next s e).acceptLoop p = s.acceptLoop p := by
  rw [hq e hi he]

theorem Quiescent.task (hq : Quiescent s) (hi : internal e = true) (he : Enabled s e) (u : U) :
    (next s e).task u = s.task u := by
  rw [hq e hi he]

theorem Quiescent.forward (hq : Quiescent s) (hi : internal e = true) (he : Enabled s e)
    (k : K) : (next s e).forward k = s.forward k := by
  rw [hq e hi he]

/-- With nothing left to do, only a wait for PortConnected or a blocked send keeps the
Client. -/
theorem quiescent_dropped (h : Invariant s) (hr : s.session = .returned) (hq : Quiescent s)
    (ha : Answered s) (hb : ¬ Blocked s) : Dropped s.strong := by
  apply h.tracks.dropped
  intro x
  by_contra hx
  have hx : holds s x = true := by simpa using hx
  cases x with
  | session => simp [holds, hr, Session.holds] at hx
  | acceptLoop p =>
    cases hl : s.acceptLoop p with
    | connecting u =>
      cases hsink : s.sink with
      | stalled => exact hb ⟨hsink, Or.inl ⟨p, u, hl⟩⟩
      | ready =>
        have hsame := hq.acceptLoop (e := .connect p u true) rfl ⟨hl, by simp [hsink]⟩ p
        simp [next, setLoop, hl] at hsame
      | broken =>
        have hsame := hq.acceptLoop (e := .connect p u false) rfl ⟨hl, by simp [hsink]⟩ p
        simp [next, setLoop, hl] at hsame
    | waiting u =>
      obtain ⟨ok, hc⟩ := Option.ne_none_iff_exists'.mp (ha (Or.inr hr) p u hl)
      have hsame := hq.acceptLoop (e := .wake p u ok) rfl ⟨hl, hc⟩ p
      cases ok <;> simp [next, setLoop, hl] at hsame
    | registering u =>
      have hsame := hq.acceptLoop (e := .spawn p u false) rfl hl p
      simp [next, setLoop, hl] at hsame
    | absent | select | accepted | ended => simp [holds, hl, AcceptLoop.holds] at hx
  | task u =>
    cases ht : s.task u with
    | sending last =>
      by_cases hsink : s.sink = .stalled
      · exact hb ⟨hsink, Or.inr (Or.inl ⟨u, last, ht⟩)⟩
      · have hsame := hq.task (e := .sent u last) rfl ⟨ht, hsink⟩ u
        cases last <;> simp [next, setTask, ht] at hsame
    | removing =>
      have hsame := hq.task (e := .removed u) rfl ht u
      simp [next, setTask, ht] at hsame
    | absent | select | writing | left | ended => simp [holds, ht, Task.holds] at hx
  | forward k =>
    cases hf : s.forward k with
    | found =>
      have hsame := hq.forward (e := .enqueue k) rfl hf k
      simp [next, setForward, hf] at hsame
    | sending =>
      by_cases hsink : s.sink = .stalled
      · exact hb ⟨hsink, Or.inr (Or.inr ⟨k, hf⟩)⟩
      · have hsame := hq.forward (e := .forwarded k) rfl ⟨hf, hsink⟩ k
        simp [next, setForward, hf] at hsame
    | idle | finished => simp [holds, hf, Forward.holds] at hx

/-- Dropping the Client closes the ports. -/
theorem dropped_freed (h : Invariant s) (hr : s.session = .returned) (hq : Quiescent s)
    (hd : Dropped s.strong) : Freed s := by
  intro p
  have loose : (s.acceptLoop p).holds = false := by
    by_contra hx
    exact h.tracks.not_dropped (x := .acceptLoop p) (by simpa [holds] using hx) hd
  cases hl : s.acceptLoop p with
  | absent | ended => rfl
  | select =>
    have hopen : s.openPorts p = true := by simpa [hr] using h.opened p (by simp [hl])
    have hsame := hq.acceptLoop (e := .close p) rfl ⟨hl, hopen, hd⟩ p
    simp [next, setLoop, hl] at hsame
  | accepted u =>
    have hsame := hq.acceptLoop (e := .upgrade p u) rfl hl p
    simp [next, hd, setLoop, hl] at hsame
  | connecting | waiting | registering => simp [hl, AcceptLoop.holds] at loose

omit [DecidableEq P] [DecidableEq U] [DecidableEq K] in
theorem freed_not_blocked (h : Invariant s) {p : P} (hp : s.acceptLoop p ≠ .absent)
    (hf : Freed s) : ¬ Blocked s := by
  rintro ⟨hstalled, hsends⟩
  have ended : s.acceptLoop p = .ended :=
    (AcceptLoop.listening_eq_false.mp (hf p)).resolve_left hp
  rcases h.ended p ended with hb | hd
  · simp [hstalled] at hb
  · rcases hsends with ⟨q, u, hq⟩ | ⟨u, last, hu⟩ | ⟨k, hk⟩
    · exact h.tracks.not_dropped (x := .acceptLoop q) (by simp [holds, hq, AcceptLoop.holds]) hd
    · exact h.tracks.not_dropped (x := .task u) (by simp [holds, hu, Task.holds]) hd
    · exact h.tracks.not_dropped (x := .forward k) (by simp [holds, hk, Forward.holds]) hd

/-- The ports of a departed client are freed exactly when no accept loop was left to wait
for PortConnected, and no send to the client is blocked. -/
theorem ports_freed_iff {tr : List (State P U K × Event P U K)} (h : Run lifetime tr s)
    (hr : s.session = .returned) (hq : Quiescent s)
    (started : ∃ p, s.acceptLoop p ≠ .absent) :
    Freed s ↔ (∀ q ∈ tr, Unawaited q.1 q.2) ∧ ¬ Blocked s := by
  have hi : Invariant s := reachable_invariant ⟨tr, h⟩
  have answered : Answered s ↔ ∀ q ∈ tr, Unawaited q.1 q.2 :=
    Path.last_iff (M := lifetime) (I := Invariant) (fun _ _ hi he => step_invariant hi he)
      (fun _ _ hi he => answered_next hi he) h initial_invariant
      (by simp [Answered, Departed, lifetime, initial])
  rw [← answered]
  constructor
  · intro hf
    obtain ⟨p, hp⟩ := started
    refine ⟨fun _ q u hw => ?_, freed_not_blocked hi hp hf⟩
    have hl := hf q
    simp [hw, AcceptLoop.listening] at hl
  · rintro ⟨ha, hb⟩
    exact dropped_freed hi hr hq (quiescent_dropped hi hr hq ha hb)

def AtRest (s : State P U K) : Prop :=
  ((∀ p, ¬ Enabled s (.registerPort p) ∧ ¬ Enabled s (.close p)) ∧ ¬ Enabled s .deregister) ∧
  (∀ p u, ¬ Enabled s (.upgrade p u) ∧ ¬ Enabled s (.recvError p u) ∧
    ∀ b, ¬ Enabled s (.connect p u b) ∧ ¬ Enabled s (.wake p u b) ∧
      ¬ Enabled s (.spawn p u b)) ∧
  (∀ u, ¬ Enabled s (.tick u) ∧ ¬ Enabled s (.remove u) ∧ ¬ Enabled s (.removed u) ∧
    ∀ last, ¬ Enabled s (.sent u last)) ∧
  ∀ k, ¬ Enabled s (.enqueue k) ∧ ¬ Enabled s (.forwarded k)

instance [Fintype P] [Fintype U] [Fintype K] (s : State P U K) : Decidable (AtRest s) := by
  unfold AtRest
  infer_instance

theorem AtRest.quiescent (h : AtRest s) : Quiescent s := by
  obtain ⟨⟨hport, hsession⟩, hloop, htask, hforward⟩ := h
  intro e hi he
  cases e with
  | registerPort p => exact absurd he (hport p).1
  | close p => exact absurd he (hport p).2
  | deregister => exact absurd he hsession
  | upgrade p u => exact absurd he (hloop p u).1
  | recvError p u => exact absurd he (hloop p u).2.1
  | connect p u ok => exact absurd he ((hloop p u).2.2 ok).1
  | wake p u ok => exact absurd he ((hloop p u).2.2 ok).2.1
  | spawn p u vacant => exact absurd he ((hloop p u).2.2 vacant).2.2
  | tick u => exact absurd he (htask u).1
  | remove u => exact absurd he (htask u).2.1
  | removed u => exact absurd he (htask u).2.2.1
  | sent u last => exact absurd he ((htask u).2.2.2 last)
  | enqueue k => exact absurd he (hforward k).1
  | forwarded k => exact absurd he (hforward k).2
  | _ => simp [internal] at hi

instance (s : State P U K) : Decidable (Departed s) :=
  inferInstanceAs (Decidable (_ ∨ _))

instance [Fintype P] [Fintype U] (s : State P U K) : (e : Event P U K) → Decidable (Unawaited s e)
  | .leave => inferInstanceAs
      (Decidable (∀ p u, s.acceptLoop p = .waiting u → s.connected u ≠ none))
  | .connect _ u true => inferInstanceAs (Decidable (Departed s → s.connected u ≠ none))
  | .connect _ _ false | .bind _ | .registerPort _ | .portConnected _ _ | .deregister | .sink _
  | .accept _ _ | .upgrade _ _ | .wake _ _ _ | .recvError _ _ | .spawn _ _ _ | .close _
  | .read _ _ | .sent _ _ | .tick _ | .write _ | .written _ _ | .stop _ | .remove _ | .removed _
  | .lookup _ | .enqueue _ | .forwarded _ | .abort _ => isTrue trivial

/-- A client that disconnects while its PortConnect is being sent, which then fails. -/
def requestFails : List (Event Bool Unit Empty) :=
  [.bind false, .registerPort false, .bind true, .registerPort true, .accept false (),
    .upgrade false (), .leave, .sink .broken, .deregister, .connect false () false, .close true]

theorem request_fails_freed : Freed (replay lifetime initial requestFails) := by
  have accepted : Accepts lifetime initial requestFails := by decide
  have rest : AtRest (replay lifetime initial requestFails) := by decide
  refine (ports_freed_iff (path_of_accepts accepted) rfl rest.quiescent ⟨true, by decide⟩).mpr
    ⟨by decide, fun hb => absurd hb.1 (by decide)⟩

def unanswered : List (Event Bool Unit Empty) :=
  [.bind false, .registerPort false, .bind true, .registerPort true, .accept false (),
    .upgrade false (), .connect false () true, .leave, .deregister, .sink .broken]

/-- The session ends on a bad message while the peer takes nothing from the websocket. -/
def heldUp : List (Event Bool Unit Empty) :=
  [.bind false, .registerPort false, .bind true, .registerPort true, .accept false (),
    .upgrade false (), .sink .stalled, .leave, .deregister]

theorem departed_client_keeps_ports :
    (∃ s : State Bool Unit Empty, Reachable lifetime s ∧ s.session = .returned ∧
      Quiescent s ∧ s.sink = .broken ∧ s.acceptLoop false = .waiting () ∧
      s.acceptLoop true = .select ∧ ¬ Freed s) ∧
    ∃ s : State Bool Unit Empty, Reachable lifetime s ∧ s.session = .returned ∧
      Quiescent s ∧ s.acceptLoop false = .connecting () ∧ s.acceptLoop true = .select ∧
      ¬ Freed s := by
  have waits : Accepts lifetime initial unanswered := by decide
  have rest : AtRest (replay lifetime initial unanswered) := by decide
  have blocks : Accepts lifetime initial heldUp := by decide
  have rest' : AtRest (replay lifetime initial heldUp) := by decide
  refine ⟨⟨_, reachable_of_accepts waits, rfl, rest.quiescent, rfl, rfl, rfl, fun hf => ?_⟩,
    ⟨_, reachable_of_accepts blocks, rfl, rest'.quiescent, rfl, rfl, fun hf => ?_⟩⟩
  · exact absurd (hf true) (by decide)
  · exact absurd (hf true) (by decide)

end PortRelease
