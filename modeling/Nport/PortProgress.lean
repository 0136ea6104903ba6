import Nport.Endpoint
import Mathlib.Data.Fintype.Basic

/-! The select loop of a port task against the clock. The head of every iteration starts a
fresh read timeout of 50 ms. A closed and drained queue makes messages.recv() ready at once,
and both loops then do nothing and go round: the timeout never gets to elapse. -/
namespace PortProgress

open GuardedMachine
open PortTask
open Endpoint

variable {U : Type*}

def timeStep : ℕ := 50

/-- An end with a clock. since is when the task of u last came to the head of its loop. -/
structure Timed (U : Type*) where
  ends : State U
  now : ℕ
  since : U → ℕ

inductive Move (U : Type*) where
  | tick
  | step (e : Event U)
  deriving DecidableEq, Repr

def task : Event U → Option U
  | .register u | .pop u | .closed u | .write u _ | .wrote u | .writeFail u | .read u _
  | .send u _ | .teardown u | .remove u => some u
  | .receive _ _ | .lookup | .enqueue | .refuse | .stop | .clear | .drop => none

/-- The timer of timeout(time_step, ..) fires only once its time has passed. -/
def TimerAllows (s : Timed U) : Event U → Prop
  | .read u .elapsed => s.since u + timeStep ≤ s.now
  | _ => True

def Enabled (P : Program) (s : Timed U) : Move U → Prop
  | .tick => True
  | .step e => Endpoint.Enabled P s.ends e ∧ TimerAllows s e

variable [DecidableEq U]

def next (P : Program) (s : Timed U) : Move U → Timed U
  | .tick => { s with now := s.now + 1 }
  | .step e =>
    let ends := Endpoint.next P s.ends e
    { s with
      ends := ends
      since := fun u =>
        if task e = some u ∧ (ends.port u).phase = .select then s.now else s.since u }

def timed (P : Program) : Machine (Timed U) (Move U) :=
  ⟨⟨initial, 0, fun _ => 0⟩, Enabled P, next P⟩

instance (s : Timed U) (e : Event U) : Decidable (TimerAllows s e) :=
  match e with
  | .read u .elapsed => inferInstanceAs (Decidable (s.since u + timeStep ≤ s.now))
  | .read _ (.size _) | .read _ .error | .register _ | .pop _ | .closed _ | .write _ _
  | .wrote _ | .writeFail _ | .send _ _ | .teardown _ | .remove _ | .receive _ _ | .lookup
  | .enqueue | .refuse | .stop | .clear | .drop => isTrue trivial

instance [Fintype U] (P : Program) (s : Timed U) (e : Move U) :
    Decidable ((timed P).Enabled s e) :=
  match e with
  | .tick => isTrue trivial
  | .step e => inferInstanceAs (Decidable (Endpoint.Enabled P s.ends e ∧ TimerAllows s e))

/-- What the select of the task of u can go on with. -/
def Branch (u : U) (e : Event U) : Prop := e = .pop u ∨ e = .closed u ∨ ∃ r, e = .read u r

/-- What an iteration that begins with the branch e does. -/
def Advances (P : Program) (s : Timed U) (u : U) (e : Event U) : Prop :=
  (∃ m, (s.ends.port u).queue = m :: ((next P s (.step e)).ends.port u).queue) ∨
    (∃ r, e = .read u r ∧ r ≠ .elapsed) ∨
    s.since u + timeStep ≤ s.now ∨
    ((next P s (.step e)).ends.port u).phase.looping = false

def Drained (s : Timed U) (u : U) : Prop :=
  (s.ends.port u).registered = false ∧ (s.ends.port u).queue = []

structure Progress (P : Program) (s : Timed U) : Prop where
  advances : ∀ u e, Branch u e → Enabled P s (.step e) → Advances P s u e
  leaves : ∀ u, Drained s u → (s.ends.port u).phase.looping = true → ∀ e, task e = some u →
    Enabled P s (.step e) → ((next P s (.step e)).ends.port u).phase.looping = false

def dropsSenders : Move U → Bool
  | .step .clear | .step .drop => true
  | _ => false

/-- Progress in this state and in all that follow it while the senders are kept. -/
def Progresses (P : Program) (s : Timed U) : Prop :=
  ∀ tr t, Path (timed P) s tr t → (∀ p ∈ tr, dropsSenders p.2 = false) → Progress P t

def Closing (p : Port) : Prop := .close ∈ p.queue ∨ p.phase = .sending .close

/-- Senders are dropped only when each task in its loop is about to close anyway. -/
def Tidy (s : Timed U) (e : Move U) : Prop :=
  dropsSenders e = true → ∀ u, (s.ends.port u).phase.looping = true → Closing (s.ends.port u)

/-- A task in its loop that has lost its sender is about to close. -/
structure Attended (s : State U) : Prop where
  locks : Endpoint.Invariant s
  closing : ∀ u, (s.port u).registered = false → (s.port u).phase.looping = true →
    Closing (s.port u)

omit [DecidableEq U] in
theorem initial_attended : Attended (initial : State U) :=
  ⟨initial_invariant, by simp [initial, Port.fresh, Phase.looping]⟩

theorem Attended.setPort {s : State U} (h : Attended s) {u : U} {p : Port}
    (locks : Endpoint.Invariant (setPort s u p))
    (closing : p.registered = false → p.phase.looping = true → Closing p) :
    Attended (setPort s u p) := by
  refine ⟨locks, ?_⟩
  intro v
  by_cases hv : v = u
  · subst hv
    simpa using closing
  · simpa [hv] using h.closing v

omit [DecidableEq U] in
/-- A task without a sender that is not sending its PortClose has one in its queue. -/
theorem Attended.close_queued {s : State U} (h : Attended s) {u : U}
    (hr : (s.port u).registered = false) (hp : (s.port u).phase.looping = true)
    (hs : (s.port u).phase ≠ .sending .close) : .close ∈ (s.port u).queue := by
  rcases h.closing u hr hp with hq | hc
  · exact hq
  · exact absurd hc hs

theorem step_attended (P : Program) {s : State U} (h : Attended s) {e : Event U}
    (he : Endpoint.Enabled P s e) (hkeep : dropsSenders (.step e) = false) :
    Attended (Endpoint.next P s e) := by
  have locks := step_invariant P h.locks he
  -- the steps that leave the queue of a task and its sender as they are
  have quiet (u : U) (p : Port) (hi : Endpoint.Invariant (setPort s u p))
      (hq : p.queue = (s.port u).queue) (hr : p.registered = (s.port u).registered)
      (hl : (s.port u).phase.looping = true) (hs : (s.port u).phase ≠ .sending .close) :
      Attended (setPort s u p) := by
    refine h.setPort hi ?_
    intro hg _
    left
    rw [hq]
    exact h.close_queued (hr ▸ hg) hl hs
  cases e with
  | register u => exact h.setPort locks (by simp)
  | lookup =>
    refine ⟨locks, ?_⟩
    obtain ⟨⟨u, m, hd⟩, _⟩ := he
    by_cases hr : (s.port u).registered = true <;>
      simpa [Endpoint.next, hd, hr, failDispatch] using h.closing
  | enqueue =>
    obtain ⟨u, m, hd, _, _⟩ := he
    have hreg := h.locks.held u m hd
    simp only [Endpoint.next, hd] at locks ⊢
    refine ⟨locks, ?_⟩
    intro v hr
    by_cases hv : v = u
    · subst hv
      simp [hreg] at hr
    · simpa [hv] using h.closing v (by simpa [hv] using hr)
  | pop u =>
    obtain ⟨hp, hne⟩ := he
    have hl : (s.port u).phase.looping = true := by simp [hp, Phase.looping]
    cases hq : (s.port u).queue with
    | nil => exact absurd hq hne
    | cons m rest =>
      refine h.setPort locks ?_
      intro hr hgo
      have hc := h.close_queued (by simpa [Port.pop, hq] using hr) hl (by simp [hp])
      cases m with
      | close => simp [Port.pop, hq, onMessage, Phase.looping] at hgo
      | data bytes =>
        left
        simpa [Port.pop, hq] using hc
  | closed u =>
    have hp : (s.port u).phase = .select := he.1
    exact quiet u _ locks rfl rfl (by simp [hp, Phase.looping]) (by simp [hp])
  | write u count =>
    obtain ⟨rest, hp, _⟩ := he
    refine quiet u _ locks ?_ ?_ (by simp [hp, Phase.looping]) (by simp [hp])
    · simp [Port.write, hp]
    · simp [Port.write, hp]
  | wrote u =>
    have hp : (s.port u).phase = .writing [] := he
    exact quiet u _ locks rfl rfl (by simp [hp, Phase.looping]) (by simp [hp])
  | writeFail u =>
    obtain ⟨b, rest, hp⟩ := he
    exact quiet u _ locks rfl rfl (by simp [hp, Phase.looping]) (by simp [hp])
  | read u r =>
    have hp : (s.port u).phase = .select := he.1
    refine quiet u _ locks ?_ ?_ (by simp [hp, Phase.looping]) (by simp [hp])
    · cases r <;> rfl
    · cases r <;> rfl
  | send u ok =>
    obtain ⟨m, hp⟩ := he
    have hl : (s.port u).phase.looping = true := by simp [hp, Phase.looping]
    cases m with
    | data bytes =>
      refine quiet u _ locks ?_ ?_ hl (by simp [hp])
      · simp [Port.send, hp]
      · simp [Port.send, hp]
    | close =>
      refine h.setPort locks ?_
      intro _ hgo
      rcases P.loop.afterSend_close ok with ho | ⟨ho, _⟩ <;>
        simp [Port.send, hp, ho, Phase.looping] at hgo
  | teardown u =>
    obtain ⟨why, hp⟩ := he
    refine h.setPort locks ?_
    intro _ hgo
    cases ha : s.alive <;> simp [Port.teardown, hp, ha, Phase.looping] at hgo
  | remove u =>
    obtain ⟨⟨why, hp⟩, _⟩ := he
    refine h.setPort locks ?_
    intro _ hgo
    simp [Port.remove, hp, Phase.looping] at hgo
  | receive | refuse | stop => exact ⟨locks, h.closing⟩
  | clear | drop => simp [dropsSenders] at hkeep

/-- Dropping the senders of tasks that are about to close. -/
theorem tidy_attended (P : Program) {s : Timed U} (h : Attended s.ends) {e : Move U}
    (he : Enabled P s e) (ht : Tidy s e) : Attended (next P s e).ends := by
  cases e with
  | tick => exact h
  | step e =>
    cases hd : dropsSenders (.step e) with
    | false => exact step_attended P h he.1 hd
    | true =>
      have locks := step_invariant P h.locks he.1
      have hc := ht hd
      cases e with
      | clear | drop => exact ⟨locks, fun u _ hl => hc u hl⟩
      | register | receive | lookup | enqueue | refuse | pop | closed | write | wrote
      | writeFail | read | send | teardown | remove | stop => simp [dropsSenders] at hd

omit [DecidableEq U] in
theorem Attended.sending_close {s : Timed U} (h : Attended s.ends) {u : U} (hd : Drained s u)
    (hl : (s.ends.port u).phase.looping = true) :
    (s.ends.port u).phase = .sending .close := by
  rcases h.closing u hd.1 hl with hq | hs
  · rw [hd.2] at hq
    cases hq
  · exact hs

theorem Attended.progress (P : Program) {s : Timed U} (h : Attended s.ends) :
    Progress P s := by
  constructor
  · intro u e hb he
    rcases hb with rfl | rfl | ⟨r, rfl⟩
    · left
      obtain ⟨hp, hne⟩ := he.1
      cases hq : (s.ends.port u).queue with
      | nil => exact absurd hq hne
      | cons m rest => exact ⟨m, by simp [next, Endpoint.next, Port.pop, hq]⟩
    · obtain ⟨hp, hq, hr⟩ := he.1
      have hs := h.sending_close ⟨hr, hq⟩ (by simp [hp, Phase.looping])
      rw [hp] at hs
      cases hs
    · by_cases hr : r = .elapsed
      · subst hr
        exact Or.inr (Or.inr (Or.inl he.2))
      · exact Or.inr (Or.inl ⟨r, rfl, hr⟩)
  · intro u hd hl e hu he
    have hs := h.sending_close hd hl
    have hends := he.1
    cases e with
    | send v ok =>
      obtain rfl : v = u := by simpa [task] using hu
      rcases P.loop.afterSend_close ok with ho | ⟨ho, _⟩ <;>
        simp [next, Endpoint.next, Port.send, hs, ho, Phase.looping]
    | register v | pop v | closed v | write v | wrote v | writeFail v | read v | teardown v
    | remove v =>
      obtain rfl : v = u := by simpa [task] using hu
      simp [Endpoint.Enabled, hs] at hends
    | receive | lookup | enqueue | refuse | stop | clear | drop => simp [task] at hu

theorem Attended.progresses (P : Program) {s : Timed U} (h : Attended s.ends) :
    Progresses P s := by
  intro tr t hpath hkeep
  refine Attended.progress P (hpath.invariant_where (I := fun s => Attended s.ends)
    (C := fun _ e => dropsSenders e = false) ?_ h hkeep)
  intro s e hs he hk
  exact tidy_attended P hs he fun hd => by simp [hk] at hd

/-! A task that loses its sender without a PortClose ends up going round in circles. -/

theorem step_path (P : Program) {s : Timed U} {e : Event U}
    (he : Endpoint.Enabled P s.ends e) (ht : TimerAllows s e) :
    Path (timed P) s [(s, .step e)] (next P s (.step e)) := by
  have hboth : (timed P).Enabled s (.step e) := ⟨he, ht⟩
  exact .tail .refl hboth

def Spins (s : Timed U) (u : U) : Prop := (s.ends.port u).phase = .select ∧ Drained s u

omit [DecidableEq U] in
theorem Spins.enabled (P : Program) {s : Timed U} {u : U} (h : Spins s u) :
    Enabled P s (.step (.closed u)) :=
  ⟨⟨h.1, h.2.2, h.2.1⟩, trivial⟩

theorem closed_same (P : Program) {s : State U} {u : U} (h : (s.port u).phase = .select) :
    Endpoint.next P s (.closed u) = s := by
  have hp : { s.port u with phase := onMessage none } = s.port u := by
    simp [onMessage, ← h]
  simp only [Endpoint.next, hp, Endpoint.setPort, Function.update_eq_self]

theorem Spins.next_closed (P : Program) {s : Timed U} {u : U} (h : Spins s u) :
    next P s (.step (.closed u)) = { s with since := Function.update s.since u s.now } := by
  simp only [next, closed_same P h.1]
  congr 1
  funext v
  by_cases hv : v = u
  · subst hv
    simp [task, h.1]
  · simp [task, hv, Ne.symm hv]

/-- Any number of iterations, all without waiting, return to the same state. -/
theorem Spins.forever (P : Program) {s : Timed U} {u : U} (h : Spins s u)
    (hs : s.since u = s.now) (n : ℕ) :
    Path (timed P) s (List.replicate n (s, .step (.closed u))) s := by
  induction n with
  | zero => exact .refl
  | succ n ih =>
    have hstart : Function.update s.since u s.now = s.since := by
      rw [← hs, Function.update_eq_self]
    have hsame : next P s (.step (.closed u)) = s := by
      rw [h.next_closed P, hstart]
    have hstep := step_path P (h.enabled P).1 trivial
    rw [hsame] at hstep
    rw [List.replicate_succ']
    exact ih.trans hstep

theorem Spins.not_progress (P : Program) {s : Timed U} {u : U} (h : Spins s u)
    (hs : s.since u = s.now) : ¬ Progress P s := by
  intro hp
  rcases hp.advances u (.closed u) (Or.inr (Or.inl rfl)) (h.enabled P) with
    ⟨m, hm⟩ | ⟨r, hr, _⟩ | hw | hl
  · rw [h.2.2] at hm
    cases hm
  · cases hr
  · simp only [hs, timeStep] at hw
    omega
  · rw [h.next_closed P] at hl
    simp [h.1, Phase.looping] at hl

/-- A task in its loop with neither a sender nor a PortClose to come. -/
structure Orphaned (p : Port) : Prop where
  unregistered : p.registered = false
  looping : p.phase.looping = true
  open_ : ¬ Closing p

def remaining (p : Port) : ℕ := 2 * p.queue.length + if p.phase = .select then 0 else 1

theorem Orphaned.back {p : Port} (h : Orphaned p) {q : Port} (hr : q.registered = false)
    (hq : q.queue = p.queue) (hs : q.phase = .select) : Orphaned q := by
  refine ⟨hr, by simp [hs, Phase.looping], ?_⟩
  rintro (hc | hc)
  · exact h.open_ (Or.inl (hq ▸ hc))
  · simp [hs] at hc

/-- An orphaned task that writes comes to its select with the queue it had. -/
theorem writing_path (P : Program) {s : Timed U} {u : U} {rest : Bytes}
    (hp : (s.ends.port u).phase = .writing rest) : ∃ tr t, Path (timed P) s tr t ∧
      (∀ p ∈ tr, dropsSenders p.2 = false) ∧ (t.ends.port u).phase = .select ∧
      (t.ends.port u).registered = (s.ends.port u).registered ∧
      (t.ends.port u).queue = (s.ends.port u).queue := by
  cases rest with
  | nil =>
    refine ⟨_, _, step_path P (e := .wrote u) hp trivial, ?_, ?_⟩
    · simp [dropsSenders]
    · simp [next, Endpoint.next, afterWrite]
  | cons b rest =>
    have hw : Endpoint.Enabled P s.ends (.write u (b :: rest).length) :=
      ⟨b :: rest, hp, by simp, by simp⟩
    have hd : ((next P s (.step (.write u (b :: rest).length))).ends.port u).phase =
        .writing [] := by
      simp [next, Endpoint.next, Port.write, hp]
    have hend := step_path P (s := next P s (.step (.write u (b :: rest).length)))
      (e := .wrote u) hd trivial
    refine ⟨_, _, (step_path P hw trivial).trans hend, ?_, ?_⟩
    · simp [dropsSenders]
    · simp [next, Endpoint.next, afterWrite, Port.write, hp]

theorem Orphaned.nearer (P : Program) {s : Timed U} {u : U} (h : Orphaned (s.ends.port u))
    (hn : ¬ Spins s u) : ∃ tr t, Path (timed P) s tr t ∧
      (∀ p ∈ tr, dropsSenders p.2 = false) ∧ Orphaned (t.ends.port u) ∧
      remaining (t.ends.port u) < remaining (s.ends.port u) := by
  have hr := h.unregistered
  have hl := h.looping
  cases hp : (s.ends.port u).phase with
  | select =>
    cases hq : (s.ends.port u).queue with
    | nil => exact absurd ⟨hp, hr, hq⟩ hn
    | cons m rest =>
      cases m with
      | close => exact absurd (Or.inl (by simp [hq])) h.open_
      | data bytes =>
        refine ⟨_, _, step_path P (e := .pop u) ⟨hp, by simp [hq]⟩ trivial,
          by simp [dropsSenders], ⟨?_, ?_, ?_⟩, ?_⟩
        · simp [next, Endpoint.next, Port.pop, hq, hr]
        · simp [next, Endpoint.next, Port.pop, hq, onMessage, Phase.looping]
        · rintro (hc | hc)
          · apply h.open_
            left
            simpa [next, Endpoint.next, Port.pop, hq] using hc
          · simp [next, Endpoint.next, Port.pop, hq, onMessage] at hc
        · simp [remaining, next, Endpoint.next, Port.pop, hq, onMessage, hp]
          omega
  | writing rest =>
    obtain ⟨tr, t, hpath, hkeep, hs, hr', hq'⟩ := writing_path P hp
    refine ⟨tr, t, hpath, hkeep, h.back (by rw [hr', hr]) hq' hs, ?_⟩
    simp [remaining, hs, hp, hq']
  | sending m =>
    cases m with
    | close => exact absurd (Or.inr hp) h.open_
    | data bytes =>
      have hs : P.loop.afterSend (.data bytes) true = .select := by
        rcases P.loop.afterSend_data bytes true with ho | ⟨_, ho⟩
        · exact ho
        · cases ho
      refine ⟨_, _, step_path P (e := .send u true) ⟨_, hp⟩ trivial,
        by simp [dropsSenders], h.back ?_ ?_ ?_, ?_⟩
      · simp [next, Endpoint.next, Port.send, hp, hr]
      · simp [next, Endpoint.next, Port.send, hp]
      · simp [next, Endpoint.next, Port.send, hp, hs]
      · simp [remaining, next, Endpoint.next, Port.send, hp, hs]
  | absent | left | removing | ended => simp [hp, Phase.looping] at hl

theorem Orphaned.reaches_spin (P : Program) {s : Timed U} {u : U}
    (h : Orphaned (s.ends.port u)) : ∃ tr t, Path (timed P) s tr t ∧
      (∀ p ∈ tr, dropsSenders p.2 = false) ∧ Spins t u := by
  induction hn : remaining (s.ends.port u) using Nat.strongRecOn generalizing s with
  | _ n ih =>
    by_cases hs : Spins s u
    · exact ⟨[], s, .refl, by simp, hs⟩
    · obtain ⟨tr, t, hp, hk, ho, hlt⟩ := h.nearer P hs
      obtain ⟨tr', t', hp', hk', hs'⟩ := ih _ (hn ▸ hlt) ho rfl
      exact ⟨tr ++ tr', t', hp.trans hp', List.forall_mem_append.mpr ⟨hk, hk'⟩, hs'⟩

/-- One more iteration starts the timeout anew, and from there no time passes. -/
theorem Orphaned.not_progresses (P : Program) {s : Timed U} {u : U}
    (h : Orphaned (s.ends.port u)) : ¬ Progresses P s := by
  intro hall
  obtain ⟨tr, t, hp, hk, hs⟩ := h.reaches_spin P
  have hnext := hs.next_closed P
  have hagain : Spins (next P t (.step (.closed u))) u := by
    rw [hnext]
    exact hs
  have hpath := hp.trans (step_path P (hs.enabled P).1 trivial)
  have hkeep : ∀ p ∈ [(t, (.step (.closed u) : Move U))], dropsSenders p.2 = false := by
    simp [dropsSenders]
  exact hagain.not_progress P (by simp [hnext])
    (hall _ _ hpath (List.forall_mem_append.mpr ⟨hk, hkeep⟩))

theorem untidy_orphans (P : Program) {s : Timed U} {e : Move U} (h : ¬ Tidy s e) :
    ∃ u, Orphaned ((next P s e).ends.port u) := by
  simp only [Tidy, Classical.not_imp, not_forall] at h
  obtain ⟨hd, u, hl, hc⟩ := h
  refine ⟨u, ?_⟩
  cases e with
  | tick => simp [dropsSenders] at hd
  | step e =>
    cases e with
    | clear | drop => exact ⟨rfl, hl, hc⟩
    | register | receive | lookup | enqueue | refuse | pop | closed | write | wrote
    | writeFail | read | send | teardown | remove | stop => simp [dropsSenders] at hd

/-- In every run, of the server and of np: the port tasks make progress in every state, and
in all that can follow it before senders are dropped again, exactly when senders are
dropped only while each task in its loop is about to close by itself. -/
theorem progress_iff (P : Program) {tr : List (Timed U × Move U)} {s : Timed U}
    (h : Run (timed P) tr s) :
    (∀ t ∈ visited tr s, Progresses P t) ↔ ∀ p ∈ tr, Tidy p.1 p.2 := by
  refine Path.forall_visited_iff (J := fun t => Attended t.ends)
    (fun _ _ ht he hc => tidy_attended P ht he hc) (fun _ ht => ht.progresses P) ?_ h
    initial_attended
  intro t e _ _ hn
  obtain ⟨u, ho⟩ := untidy_orphans P hn
  exact ho.not_progresses P

instance (p : Port) : Decidable (Closing p) :=
  inferInstanceAs (Decidable (_ ∨ _))

instance [Fintype U] (s : Timed U) (e : Move U) : Decidable (Tidy s e) :=
  inferInstanceAs (Decidable (_ → _))

/-- np disconnects with the PortClose of the server in the queue of the only task. -/
def closedBefore : List (Move Unit) :=
  [.step (.register ()), .step (.receive () .close), .step .lookup, .step .enqueue,
    .step .stop, .step .clear]

theorem progress_closed_before :
    Progresses np (replay (timed np) (timed np).initial closedBefore) := by
  have haccepts : Accepts (timed np) (timed np).initial closedBefore := by decide
  exact (progress_iff np (path_of_accepts haccepts)).mpr (by decide) _ (by simp [visited])

def idleAt (e : Event Unit) : List (Move Unit) :=
  [.step (.register ()), .step .stop, .step e]

theorem idle_task_spins :
    (∃ s : Timed Unit, Reachable (timed np) s ∧ ¬ Progress np s ∧
      ∀ n, Path (timed np) s (List.replicate n (s, .step (.closed ()))) s) ∧
    (∃ s : Timed Unit, Reachable (timed server) s ∧ ¬ Progress server s ∧
      ∀ n, Path (timed server) s (List.replicate n (s, .step (.closed ()))) s) := by
  have hnp : Spins (replay (timed np) (timed np).initial (idleAt .clear)) () :=
    ⟨rfl, rfl, rfl⟩
  have hserver : Spins (replay (timed server) (timed server).initial (idleAt .drop)) () :=
    ⟨rfl, rfl, rfl⟩
  exact ⟨⟨_, reachable_of_accepts (by decide), hnp.not_progress np rfl, hnp.forever np rfl⟩,
    ⟨_, reachable_of_accepts (by decide), hserver.not_progress server rfl,
      hserver.forever server rfl⟩⟩

end PortProgress
