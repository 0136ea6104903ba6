import Nport.Endpoint
import Mathlib.Data.Fintype.Basic

/-! port_message against port_writer_remove. The dispatcher keeps the read lock while it
waits for room in a queue; the task that should make the room may have left its loop and
then waits for the write lock. Nothing but the task drains a queue, so neither ever moves. -/
namespace EndpointDeadlock

open GuardedMachine
open PortTask
open Endpoint

variable {U : Type*}

/-- The dispatcher is in writer.send(msg) for the full queue of u. -/
def Waiting (P : Program) (s : State U) (u : U) : Prop :=
  (∃ m, s.dispatcher = .capacity u m) ∧ P.loop.capacity ≤ (s.port u).queue.length

/-- The task is past its loop: what is left to it is port_writer_remove. -/
def AtRemoval (p : Port) : Prop := ∃ why, p.phase = .left why ∨ p.phase = .removing why

def Deadlocked (P : Program) (s : State U) : Prop := ∃ u, Waiting P s u ∧ AtRemoval (s.port u)

/-- The steps that put a removal against the read lock: a loop is left by a write error, a
read error or end of file while the dispatcher waits for its queue, or the dispatcher
looks up a writer whose task has left its loop with the queue full. -/
def Hazard (P : Program) (s : State U) : Event U → Prop
  | .writeFail u => Waiting P s u
  | .read u result => Waiting P s u ∧ (P.loop.onRead s.alive result).looping = false
  | .send u ok => Waiting P s u ∧
      ∃ m, (s.port u).phase = .sending m ∧ (P.loop.afterSend m ok).looping = false
  | .lookup => ∃ u m, s.dispatcher = .lookup u m ∧ (s.port u).registered = true ∧
      (s.port u).phase.looping = false ∧ P.loop.capacity ≤ (s.port u).queue.length
  | _ => False

structure Draining (P : Program) (s : State U) : Prop where
  locks : Endpoint.Invariant s
  bounded : ∀ u, (s.port u).queue.length ≤ P.loop.capacity
  drained : ∀ u m, s.dispatcher = .capacity u m →
    (s.port u).phase.looping = true ∨ (s.port u).queue.length < P.loop.capacity

theorem AtRemoval.not_looping {p : Port} (h : AtRemoval p) : p.phase.looping = false := by
  obtain ⟨why, h | h⟩ := h <;> simp [h, Phase.looping]

theorem atRemoval_of_present {p : Port} (h : p.phase.present = true)
    (hl : p.phase.looping = false) : AtRemoval p := by
  cases hp : p.phase <;> simp [hp, Phase.present, Phase.looping] at h hl
  case left why => exact ⟨why, Or.inl hp⟩
  case removing why => exact ⟨why, Or.inr hp⟩

theorem initial_draining (P : Program) : Draining P (initial : State U) :=
  ⟨initial_invariant, by simp [initial, Port.fresh], by simp [initial]⟩

theorem Draining.not_deadlocked {P : Program} {s : State U} (h : Draining P s) :
    ¬ Deadlocked P s := by
  rintro ⟨u, ⟨⟨m, hd⟩, hfull⟩, hgone⟩
  rcases h.drained u m hd with hl | hroom
  · rw [hgone.not_looping] at hl
    cases hl
  · omega

variable [DecidableEq U]

theorem Draining.setPort {P : Program} {s : State U} (h : Draining P s) {u : U} {p : Port}
    (locks : Endpoint.Invariant (setPort s u p)) (bound : p.queue.length ≤ P.loop.capacity)
    (room : ∀ m, s.dispatcher = .capacity u m →
      p.phase.looping = true ∨ p.queue.length < P.loop.capacity) :
    Draining P (setPort s u p) := by
  refine ⟨locks, ?_, ?_⟩
  · intro v
    by_cases hv : v = u
    · subst hv; simpa using bound
    · simpa [hv] using h.bounded v
  · intro v m hd
    by_cases hv : v = u
    · subst hv; simpa using room m hd
    · simpa [hv] using h.drained v m hd

theorem Draining.movePhase {P : Program} {s : State U} (h : Draining P s) {u : U} {p : Port}
    (locks : Endpoint.Invariant (Endpoint.setPort s u p)) (same : p.queue = (s.port u).queue)
    (stays : ¬ Waiting P s u ∨ p.phase.looping = true) :
    Draining P (Endpoint.setPort s u p) := by
  refine h.setPort locks (by rw [same]; exact h.bounded u) ?_
  intro m hd
  rcases stays with hn | hl
  · right
    rw [same]
    by_contra hfull
    exact hn ⟨⟨m, hd⟩, by omega⟩
  · exact Or.inl hl

theorem step_draining (P : Program) {s : State U} (h : Draining P s) {e : Event U}
    (he : Enabled P s e) (hsafe : ¬ Hazard P s e) : Draining P (next P s e) := by
  have locks := step_invariant P h.locks he
  have alone (hs : (next P s e).port = s.port)
      (hd : ∀ u m, (next P s e).dispatcher ≠ .capacity u m) : Draining P (next P s e) := by
    refine ⟨locks, ?_, fun u m hc => absurd hc (hd u m)⟩
    rw [hs]
    exact h.bounded
  cases e with
  | register u =>
    refine h.setPort locks (h.bounded u) ?_
    intro m hd
    exact absurd ⟨u, m, hd⟩ he.2.2.1
  | receive u m => exact alone rfl (by simp [next])
  | lookup =>
    obtain ⟨⟨u, m, hd⟩, _⟩ := he
    by_cases hr : (s.port u).registered = true
    · refine ⟨locks, by simpa [next, hd, hr] using h.bounded, ?_⟩
      intro v k hc
      obtain ⟨rfl, rfl⟩ : u = v ∧ m = k := by simpa [next, hd, hr] using hc
      by_contra hcon
      have hcon : ¬ ((s.port u).phase.looping = true ∨
          (s.port u).queue.length < P.loop.capacity) := by simpa [next, hd, hr] using hcon
      apply hsafe
      exact ⟨u, m, hd, hr, by simpa using fun hl => hcon (Or.inl hl), by omega⟩
    · refine alone ?_ ?_ <;> simp [next, hd, hr, failDispatch]
  | enqueue =>
    obtain ⟨u, m, hd, hroom, _⟩ := he
    simp only [next, hd] at locks ⊢
    refine ⟨locks, ?_, by simp⟩
    intro v
    by_cases hv : v = u
    · subst hv
      simp
      omega
    · simpa [hv] using h.bounded v
  | refuse => exact alone rfl (by simp [next, failDispatch])
  | pop u =>
    cases hq : (s.port u).queue with
    | nil => exact absurd hq he.2
    | cons m rest =>
      have hb := h.bounded u
      rw [hq, List.length_cons] at hb
      have hlen : (s.port u).pop.queue = rest := by simp [Port.pop, hq]
      refine h.setPort locks (by rw [hlen]; omega) ?_
      intro k _
      right
      rw [hlen]
      omega
  | closed u => exact h.movePhase locks rfl (Or.inr rfl)
  | write u count =>
    obtain ⟨rest, hp, _, _⟩ := he
    refine h.movePhase locks (by simp [Port.write, hp]) (Or.inr ?_)
    simp [Port.write, hp, Phase.looping]
  | wrote u => exact h.movePhase locks rfl (Or.inr rfl)
  | writeFail u => exact h.movePhase locks rfl (Or.inl hsafe)
  | read u r =>
    refine h.movePhase locks (by cases r <;> rfl) ?_
    rw [(receiveBytes_phase P.loop s.alive (s.port u) r).2]
    by_cases hl : (P.loop.onRead s.alive r).looping = true
    · exact Or.inr hl
    · left
      intro hw
      exact hsafe ⟨hw, by simpa using hl⟩
  | send u ok =>
    obtain ⟨m, hp⟩ := he
    refine h.movePhase locks (by simp [Port.send, hp]) ?_
    by_cases hl : (P.loop.afterSend m ok).looping = true
    · right; simpa [Port.send, hp] using hl
    · left
      intro hw
      exact hsafe ⟨hw, m, hp, by simpa using hl⟩
  | teardown u =>
    obtain ⟨why, hp⟩ := he
    refine h.movePhase locks (by simp [Port.teardown, hp]) (Or.inl ?_)
    intro hw
    exact h.not_deadlocked ⟨u, hw, why, Or.inl hp⟩
  | remove u =>
    obtain ⟨⟨why, hp⟩, hfree⟩ := he
    refine h.movePhase locks (by simp [Port.remove, hp]) (Or.inl ?_)
    rintro ⟨⟨m, hd⟩, _⟩
    exact hfree ⟨u, m, hd⟩
  | stop => exact alone rfl (by simp [next, he.1])
  | clear => exact ⟨locks, h.bounded, by simp [next, clearWriters, he.1]⟩
  | drop => exact ⟨locks, h.bounded, by simp [next, clearWriters, he.1]⟩

/-- A hazardous step is one into the deadlock. -/
theorem hazard_deadlocks (P : Program) {s : State U} (hi : Endpoint.Invariant s) {e : Event U}
    (he : Enabled P s e) (hz : Hazard P s e) : Deadlocked P (next P s e) := by
  have leave (u : U) (p : Port) (hw : Waiting P s u) (hq : p.queue = (s.port u).queue)
      (hl : ∃ why, p.phase = .left why) : Deadlocked P (setPort s u p) := by
    obtain ⟨why, hl⟩ := hl
    exact ⟨u, ⟨hw.1, by simpa [hq] using hw.2⟩, why, Or.inl (by simpa using hl)⟩
  cases e with
  | writeFail u => exact leave u _ hz rfl ⟨.writeError, rfl⟩
  | read u r =>
    refine leave u _ hz.1 (by cases r <;> rfl) ?_
    rw [(receiveBytes_phase P.loop s.alive (s.port u) r).2]
    exact onRead_left P.loop hz.2
  | send u ok =>
    obtain ⟨hw, m, hp, hl⟩ := hz
    obtain ⟨why, ho⟩ := afterSend_left P.loop hl
    exact leave u _ hw (by simp [Port.send, hp]) ⟨why, by simp [Port.send, hp, ho]⟩
  | lookup =>
    obtain ⟨u, m, hd, hr, hl, hfull⟩ := hz
    refine ⟨u, ⟨⟨m, by simp [next, hd, hr]⟩, by simpa [next, hd, hr] using hfull⟩, ?_⟩
    simpa [next, hd, hr] using atRemoval_of_present (hi.started u hr) hl
  | register | receive | enqueue | refuse | pop | closed | write | wrote | teardown | remove
  | stop | clear | drop => exact absurd hz id

/-- No run meets the deadlock exactly when none of its steps is hazardous. -/
theorem deadlock_free_iff (P : Program) {tr : List (State U × Event U)} {s : State U}
    (h : Run (endpoint P) tr s) :
    (∀ t ∈ visited tr s, ¬ Deadlocked P t) ↔ ∀ p ∈ tr, ¬ Hazard P p.1 p.2 :=
  Path.forall_visited_iff (J := Draining P)
    (fun _ _ hj he hc => step_draining P hj he hc)
    (fun _ hj => hj.not_deadlocked)
    (fun _ _ hj he hc hn => hn (hazard_deadlocks P hj.locks he (not_not.mp hc)))
    h (initial_draining P)

/-- Once in, never out: no step of any task or of the dispatcher ends the deadlock. -/
theorem deadlock_permanent (P : Program) {s : State U} (hi : Endpoint.Invariant s)
    (h : Deadlocked P s) {e : Event U} (he : Enabled P s e) : Deadlocked P (next P s e) := by
  obtain ⟨u, ⟨⟨m, hd⟩, hfull⟩, hgone⟩ := h
  have still (v : U) (p : Port) (hv : v ≠ u) : Deadlocked P (setPort s v p) :=
    ⟨u, ⟨⟨m, hd⟩, by simpa [hv.symm] using hfull⟩, by simpa [hv.symm] using hgone⟩
  have other (v : U) (hv : (s.port v).phase.looping = true) : v ≠ u := by
    rintro rfl
    rw [hgone.not_looping] at hv
    cases hv
  have busy : s.dispatcher ≠ .idle := by simp [hd]
  have ha : s.alive = true := hi.owned (hi.lives (hi.busy busy))
  cases e with
  | register v => exact absurd ⟨u, m, hd⟩ he.2.2.1
  | receive v k => exact absurd he.1 busy
  | lookup =>
    obtain ⟨⟨v, k, hl⟩, _⟩ := he
    rw [hd] at hl
    cases hl
  | enqueue =>
    obtain ⟨v, k, hc, hroom, _⟩ := he
    rw [hd] at hc
    cases hc
    omega
  | refuse =>
    obtain ⟨v, k, hc, hp⟩ := he
    rw [hd] at hc
    cases hc
    obtain ⟨why, hg | hg⟩ := hgone <;> simp [hg, Phase.present] at hp
  | pop v => exact still v _ (other v (by simp [he.1, Phase.looping]))
  | closed v => exact still v _ (other v (by simp [he.1, Phase.looping]))
  | write v count =>
    obtain ⟨rest, hp, _, _⟩ := he
    exact still v _ (other v (by simp [hp, Phase.looping]))
  | wrote v =>
    have hp : (s.port v).phase = .writing [] := he
    exact still v _ (other v (by simp [hp, Phase.looping]))
  | writeFail v =>
    obtain ⟨b, rest, hp⟩ := he
    exact still v _ (other v (by simp [hp, Phase.looping]))
  | read v r => exact still v _ (other v (by simp [he.1, Phase.looping]))
  | send v ok =>
    obtain ⟨k, hp⟩ := he
    exact still v _ (other v (by simp [hp, Phase.looping]))
  | teardown v =>
    by_cases hv : v = u
    · subst hv
      obtain ⟨why, hp⟩ := he
      refine ⟨v, ⟨⟨m, hd⟩, by simpa [next, Port.teardown, hp] using hfull⟩, why, ?_⟩
      simp [next, Port.teardown, hp, ha]
    · exact still v _ hv
  | remove v => exact absurd ⟨u, m, hd⟩ he.2
  | stop => exact absurd he.1 busy
  | clear => exact absurd he.1 busy
  | drop => exact absurd he.1 busy

def burst (u : U) (n : ℕ) : List (Event U) :=
  (List.replicate n [.receive u (.data [0]), .lookup, .enqueue]).flatten

/-- A burst fills the queue while the task is in write_all, and the write then fails. -/
def resetDuringBurst (P : Program) : List (Event Unit) :=
  .register () :: burst () 1 ++ [.pop ()] ++ burst () P.loop.capacity ++
    [.receive () (.data [0]), .lookup, .writeFail (), .teardown ()]

theorem resetDuringBurst_accepted {P : Program} (hp : P = server ∨ P = np) :
    Accepts (endpoint P) initial (resetDuringBurst P) := by
  rcases hp with rfl | rfl <;> decide

theorem reset_during_burst_deadlocks :
    (∃ s : State Unit, Reachable (endpoint server) s ∧ Waiting server s () ∧
      (s.port ()).phase = .removing .writeError) ∧
    (∃ s : State Unit, Reachable (endpoint np) s ∧ Waiting np s () ∧
      (s.port ()).phase = .removing .writeError) := by
  constructor
  · have ha := resetDuringBurst_accepted (Or.inl rfl)
    exact ⟨_, reachable_of_accepts ha, ⟨⟨.data [0], by decide⟩, by decide⟩, by decide⟩
  · have ha := resetDuringBurst_accepted (Or.inr rfl)
    exact ⟨_, reachable_of_accepts ha, ⟨⟨.data [0], by decide⟩, by decide⟩, by decide⟩

theorem reset_during_burst_has_hazard :
    ¬ ∀ p ∈ trace (endpoint server) initial (resetDuringBurst server),
      ¬ Hazard server p.1 p.2 := by
  intro hsafe
  have hrun := path_of_accepts (resetDuringBurst_accepted (Or.inl rfl))
  have hfree := (deadlock_free_iff server hrun).mpr hsafe
  refine hfree _ (List.mem_append_right _ (List.mem_singleton.mpr rfl)) ?_
  exact ⟨(), ⟨⟨.data [0], by decide⟩, by decide⟩, .writeError, Or.inr (by decide)⟩

end EndpointDeadlock
