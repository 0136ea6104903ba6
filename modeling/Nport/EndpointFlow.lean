import Nport.Endpoint
import Nport.FifoPipe

/-! An endpoint as the receiving side of a channel for each uuid. The dispatcher carries
one message between the websocket and the queue. A port is shut when its task has left
the map, or when the message loop has ended. -/
namespace EndpointFlow

open PortTask
open Endpoint
open FifoPipe

variable {U : Type*}

def arrived (p : Port) : List PortMessage := p.taken ++ p.queue

def Shut (s : State U) (u : U) : Prop :=
  ((s.port u).registered = false ∧ (s.port u).phase.out ≠ none) ∨
    (s.running = false ∧ s.dispatcher = .idle)

variable [DecidableEq U]

/-- What the dispatcher carries for u. -/
def hand (s : State U) (u : U) : List PortMessage :=
  match s.dispatcher with
  | .idle => []
  | .lookup v m | .capacity v m => if v = u then [m] else []

theorem PortStep.stays_out {alive : Bool} {p q : Port} (h : PortStep alive p q)
    (ho : p.phase.out ≠ none) : q.phase.out ≠ none ∧ q.taken = p.taken ∧
      q.emitted = p.emitted ∧ (p.registered = false → q.registered = false) := by
  cases h with
  | push | forget => exact ⟨ho, rfl, rfl, by simp⟩
  | teardown why hp _ | abandon why hp _ | remove why hp =>
    exact ⟨by simp [Phase.out], rfl, rfl, by simp⟩
  | register hp | pop m rest hp | write rest count hp | wrote hp | writeFail rest hp
  | readBytes bytes hp | readLate bytes hp | readError hp | released hp | sentData bytes hp
  | sentClose hp | sendFail m hp => simp [hp, Phase.out] at ho

theorem shut_step (P : Program) {s : State U} {e : Event U} (he : Enabled P s e)
    {u : U} (h : Shut s u) : Shut (next P s e) u := by
  rcases h with ⟨hr, ho⟩ | ⟨hr, hd⟩
  · left
    rcases next_port P he u with hp | hp
    · rw [hp]; exact ⟨hr, ho⟩
    · obtain ⟨ho', _, _, hr'⟩ := PortStep.stays_out hp ho
      exact ⟨hr' hr, ho'⟩
  · right
    cases e with
    | receive v m => rw [he.2.1] at hr; cases hr
    | lookup =>
      obtain ⟨⟨v, m, hl⟩, _⟩ := he
      rw [hd] at hl; cases hl
    | enqueue =>
      obtain ⟨v, m, hl, _⟩ := he
      rw [hd] at hl; cases hl
    | refuse =>
      obtain ⟨v, m, hl, _⟩ := he
      rw [hd] at hl; cases hl
    | stop => exact ⟨rfl, hd⟩
    | register | pop | closed | write | wrote | writeFail | read | send | teardown | remove
    | clear | drop => exact ⟨hr, hd⟩

omit [DecidableEq U] in
theorem unregistered_shut {s : State U} (hi : Endpoint.Invariant s) {u : U}
    (busy : s.dispatcher ≠ .idle) (born : (s.port u).phase ≠ .absent)
    (gone : (s.port u).registered = false) : (s.port u).phase.out ≠ none := by
  intro ho
  have hp : (s.port u).phase.present = true := by
    cases hph : (s.port u).phase <;> simp_all [Phase.present, Phase.out]
  have hr := hi.kept (hi.lives (hi.busy busy)) u hp
  rw [gone] at hr
  cases hr

/-- A step of the receiving end, other than taking a frame from the websocket. A lookup
that fails drops its message, so it has to be one after which nothing more arrives. -/
theorem pipe_step (P : Program) {s : State U} (hi : Endpoint.Invariant s) {e : Event U}
    (he : Enabled P s e) (here : ∀ v m, e ≠ .receive v m)
    (known : P.stopsOnError = true ∨
      ∀ v m, s.dispatcher = .lookup v m → (s.port v).phase ≠ .absent)
    {sent rest : List PortMessage} {intact : Prop} {u : U}
    (h : Pipe sent (arrived (s.port u)) (hand s u ++ rest) intact (Shut s u)) :
    Pipe sent (arrived ((next P s e).port u)) (hand (next P s e) u ++ rest) intact
      (Shut (next P s e) u) := by
  have mono := shut_step (u := u) P he
  have unmoved (ha : arrived ((next P s e).port u) = arrived (s.port u))
      (hh : hand (next P s e) u = hand s u) :
      Pipe sent (arrived ((next P s e).port u)) (hand (next P s e) u ++ rest) intact
        (Shut (next P s e) u) :=
    h.move (by rw [ha, hh]) (fun _ => ha) mono
  have atPort (v : U) (p : Port) (hs : next P s e = setPort s v p)
      (ha : arrived p = arrived (s.port v)) :
      Pipe sent (arrived ((next P s e).port u)) (hand (next P s e) u ++ rest) intact
        (Shut (next P s e) u) := by
    refine unmoved ?_ (by rw [hs]; rfl)
    by_cases hv : u = v
    · subst hv; simpa [hs] using ha
    · simp [hs, hv]
  cases e with
  | receive v m => exact absurd rfl (here v m)
  | lookup =>
    obtain ⟨⟨v, m, hd⟩, _⟩ := he
    by_cases hr : (s.port v).registered = true
    · exact unmoved (by simp [next, hd, hr]) (by simp [next, hd, hr, hand])
    · have hr : (s.port v).registered = false := by simpa using hr
      by_cases hv : v = u
      · subst hv
        have ha : arrived ((next P s .lookup).port v) = arrived (s.port v) := by
          simp [next, hd, hr, failDispatch]
        have hshut : Shut (next P s .lookup) v := by
          rcases known with hp | hp
          · right; simp [next, hd, hr, failDispatch, hp]
          · left
            have ho := unregistered_shut hi (by simp [hd]) (hp v m hd) hr
            simpa [next, hd, hr, failDispatch] using ho
        rw [ha]
        exact h.close hshut
      · exact unmoved (by simp [next, hd, hr, failDispatch])
          (by simp [next, hd, hr, failDispatch, hand, hv])
  | enqueue =>
    obtain ⟨v, m, hd, _, _⟩ := he
    have hopen : ¬ Shut s v := by
      rintro (⟨hr, _⟩ | ⟨_, hidle⟩)
      · rw [hi.held v m hd] at hr; cases hr
      · rw [hd] at hidle; cases hidle
    by_cases hv : u = v
    · subst hv
      refine h.move ?_ (fun hs => absurd hs hopen) mono
      simp [next, hd, hand, arrived]
    · refine unmoved ?_ ?_
      · simp [next, hd, hv]
      · simp [next, hd, hand, Ne.symm hv]
  | refuse =>
    obtain ⟨v, m, hd, hp⟩ := he
    rw [hi.started v (hi.held v m hd)] at hp
    cases hp
  | register v => exact atPort v _ rfl rfl
  | pop v =>
    refine atPort v _ rfl ?_
    cases hq : (s.port v).queue <;> simp [arrived, Port.pop, hq]
  | closed v => exact atPort v _ rfl rfl
  | write v count =>
    obtain ⟨r, hp, _, _⟩ := he
    exact atPort v _ rfl (by simp [arrived, Port.write, hp])
  | wrote v => exact atPort v _ rfl rfl
  | writeFail v => exact atPort v _ rfl rfl
  | read v r => exact atPort v _ rfl (by cases r <;> rfl)
  | send v ok =>
    obtain ⟨m, hp⟩ := he
    exact atPort v _ rfl (by simp [arrived, Port.send, hp])
  | teardown v =>
    obtain ⟨why, hp⟩ := he
    exact atPort v _ rfl (by simp [arrived, Port.teardown, hp])
  | remove v =>
    obtain ⟨⟨why, hp⟩, _⟩ := he
    exact atPort v _ rfl (by simp [arrived, Port.remove, hp])
  | stop | clear | drop => exact unmoved rfl rfl

theorem pipe_receive (P : Program) {s : State U} {v : U} {m : PortMessage}
    (he : Enabled P s (.receive v m)) {sent rest : List PortMessage} {intact : Prop} {u : U}
    (h : Pipe sent (arrived (s.port u)) (hand s u ++ ((if v = u then [m] else []) ++ rest))
      intact (Shut s u)) :
    Pipe sent (arrived ((next P s (.receive v m)).port u))
      (hand (next P s (.receive v m)) u ++ rest) intact (Shut (next P s (.receive v m)) u) := by
  have hd : s.dispatcher = .idle := he.1
  refine h.move ?_ (fun _ => rfl) ?_
  · simp [next, hand, hd]
  · rintro (hs | ⟨hr, _⟩)
    · exact Or.inl hs
    · rw [he.2.1] at hr; cases hr

theorem next_emitted (P : Program) {s : State U} {e : Event U} (he : Enabled P s e)
    (here : ∀ v ok, e ≠ .send v ok) (u : U) :
    ((next P s e).port u).emitted = (s.port u).emitted := by
  have atPort (v : U) (p : Port) (hp : p.emitted = (s.port v).emitted) :
      ((setPort s v p).port u).emitted = (s.port u).emitted := by
    by_cases hv : u = v
    · subst hv; simpa using hp
    · simp [hv]
  cases e with
  | send v ok => exact absurd rfl (here v ok)
  | lookup =>
    obtain ⟨⟨v, m, hd⟩, _⟩ := he
    simp only [next, hd]
    split <;> rfl
  | enqueue =>
    obtain ⟨v, m, hd, _, _⟩ := he
    simp only [next, hd]
    exact atPort v _ rfl
  | pop v => exact atPort v _ (by cases hq : (s.port v).queue <;> simp [Port.pop, hq])
  | write v count =>
    obtain ⟨r, hp, _, _⟩ := he
    exact atPort v _ (by simp [Port.write, hp])
  | read v r => exact atPort v _ (by cases r <;> rfl)
  | teardown v =>
    obtain ⟨why, hp⟩ := he
    exact atPort v _ (by simp [Port.teardown, hp])
  | remove v =>
    obtain ⟨⟨why, hp⟩, _⟩ := he
    exact atPort v _ (by simp [Port.remove, hp])
  | register v | closed v | wrote v | writeFail v => exact atPort v _ rfl
  | receive | refuse | stop | clear | drop => rfl

theorem send_emitted (P : Program) {s : State U} {v : U} {m : PortMessage} {ok : Bool}
    (hp : (s.port v).phase = .sending m) (u : U) :
    ((next P s (.send v ok)).port u).emitted =
      (s.port u).emitted ++ if v = u then [m] else [] := by
  by_cases hv : u = v
  · subst hv; simp [next, Port.send, hp]
  · simp [next, hv, Ne.symm hv]

end EndpointFlow
