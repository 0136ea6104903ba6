import Nport.EndpointFlow

/-! How a port task comes to leave its loop, and what cannot be taken back once it has. -/
namespace PortExit

open PortTask
open Endpoint
open EndpointFlow

def Done (p : Port) : Prop := p.phase.out ≠ none ∨ .close ∈ p.emitted

/-- The exits that send nothing although the websocket is there. -/
def Broke (p : Port) : Prop :=
  p.phase.out = some .writeError ∨ p.phase.out = some .readError

variable {U : Type*} [DecidableEq U]

theorem PortStep.done {alive : Bool} {p q : Port} (h : PortStep alive p q) (hd : Done p) :
    Done q := by
  rcases hd with ho | hm
  · exact Or.inl (PortStep.stays_out h ho).1
  · right
    cases h with
    | sentData | sentClose | sendFail => exact List.mem_append_left _ hm
    | register | push | pop | write | wrote | writeFail | readBytes | readLate | readError
    | released | teardown | abandon | remove | forget => exact hm

theorem done_step (P : Program) {s : State U} {e : Event U} (he : Enabled P s e)
    {u : U} (hd : Done (s.port u)) : Done ((next P s e).port u) := by
  rcases next_port P he u with h | h
  · rw [h]; exact hd
  · exact PortStep.done h hd

theorem next_running (P : Program) {s : State U} {e : Event U} (he : Enabled P s e)
    (h : (next P s e).running = true) : s.running = true := by
  cases e with
  | lookup =>
    obtain ⟨⟨v, m, hd⟩, _⟩ := he
    by_cases hr : (s.port v).registered = true
    · simpa [next, hd, hr] using h
    · have hb : s.running = true ∧ P.stopsOnError = false := by
        simpa [next, hd, hr, failDispatch] using h
      exact hb.1
  | enqueue =>
    obtain ⟨v, m, hd, _⟩ := he
    simpa [next, hd] using h
  | refuse =>
    have hb : s.running = true ∧ P.stopsOnError = false := by
      simpa [next, failDispatch] using h
    exact hb.1
  | stop => simp [next] at h
  | register | receive | pop | closed | write | wrote | writeFail | read | send | teardown
  | remove | clear | drop => exact h

theorem loop_exit (P : Program) {s : State U} {e : Event U} (he : Enabled P s e)
    {u : U} {why : Exit} (before : (s.port u).phase.out ≠ some why)
    (after : ((next P s e).port u).phase.out = some why) :
    (e = .pop u ∧ why = .close) ∨ (e = .writeFail u ∧ why = .writeError) ∨
      (∃ r, e = .read u r ∧ P.loop.onRead s.alive r = .left why) ∨
      ∃ m ok, e = .send u ok ∧ P.loop.afterSend m ok = .left why := by
  have atPort (v : U) (p : Port) (hs : ((setPort s v p).port u).phase.out = some why) :
      v = u ∧ p.phase.out = some why := by
    by_cases hv : u = v
    · subst hv; exact ⟨rfl, by simpa using hs⟩
    · exact absurd (by simpa [hv] using hs) before
  cases e with
  | register v => simpa [Phase.out] using (atPort v _ after).2
  | receive | refuse | stop | clear | drop => exact absurd after before
  | lookup =>
    obtain ⟨⟨v, m, hd⟩, _⟩ := he
    refine absurd ?_ before
    simp only [next, hd] at after
    split at after <;> exact after
  | enqueue =>
    obtain ⟨v, m, hd, _⟩ := he
    simp only [next, hd] at after
    obtain ⟨rfl, hp⟩ := atPort v _ after
    exact absurd hp before
  | pop v =>
    obtain ⟨rfl, hp⟩ := atPort v _ after
    cases hq : (s.port v).queue with
    | nil => exact absurd hq he.2
    | cons m rest => cases m <;> simp_all [Port.pop, onMessage, Phase.out]
  | closed v => simpa [onMessage, Phase.out] using (atPort v _ after).2
  | write v count =>
    obtain ⟨r, hr, _⟩ := he
    simpa [Port.write, hr, Phase.out] using (atPort v _ after).2
  | wrote v => simpa [afterWrite, Phase.out] using (atPort v _ after).2
  | writeFail v =>
    obtain ⟨rfl, hp⟩ := atPort v _ after
    simp_all [afterWrite, Phase.out]
  | read v r =>
    obtain ⟨rfl, hp⟩ := atPort v _ after
    rw [(receiveBytes_phase P.loop s.alive (s.port v) r).2] at hp
    right; right; left
    refine ⟨r, rfl, ?_⟩
    by_cases hl : (P.loop.onRead s.alive r).looping = true
    · cases ho : P.loop.onRead s.alive r <;> simp [ho, Phase.looping, Phase.out] at hl hp
    · obtain ⟨w, ho⟩ := onRead_left P.loop (by simpa using hl)
      simpa [ho, Phase.out] using hp
  | send v ok =>
    obtain ⟨m, hm⟩ := he
    obtain ⟨rfl, hp⟩ := atPort v _ after
    have hp : (P.loop.afterSend m ok).out = some why := by simpa [Port.send, hm] using hp
    right; right; right
    refine ⟨m, ok, rfl, ?_⟩
    by_cases hl : (P.loop.afterSend m ok).looping = true
    · cases ho : P.loop.afterSend m ok <;> simp [ho, Phase.looping, Phase.out] at hl hp
    · obtain ⟨w, ho⟩ := afterSend_left P.loop (by simpa using hl)
      simpa [ho, Phase.out] using hp
  | teardown v =>
    obtain ⟨w, hw⟩ := he
    obtain ⟨rfl, hp⟩ := atPort v _ after
    refine absurd ?_ before
    cases ha : s.alive <;> simpa [Port.teardown, hw, ha, Phase.out] using hp
  | remove v =>
    obtain ⟨⟨w, hw⟩, _⟩ := he
    obtain ⟨rfl, hp⟩ := atPort v _ after
    exact absurd (by simpa [Port.remove, hw, Phase.out] using hp) before

theorem broke_step (P : Program) {s : State U} {e : Event U} (he : Enabled P s e)
    {u : U} (h : Broke ((next P s e).port u)) :
    Broke (s.port u) ∨ e = .writeFail u ∨
      (e = .read u .error ∧ P.loop.onRead s.alive .error = .left .readError) := by
  by_cases hb : Broke (s.port u)
  · exact Or.inl hb
  right
  have exit (why : Exit) (hw : why = .writeError ∨ why = .readError)
      (before : (s.port u).phase.out ≠ some why)
      (after : ((next P s e).port u).phase.out = some why) : e = .writeFail u ∨
      (e = .read u .error ∧ P.loop.onRead s.alive .error = .left .readError) := by
    rcases loop_exit P he before after with ⟨_, rfl⟩ | ⟨hx, _⟩ | ⟨r, hx, ho⟩ | ⟨m, ok, _, ho⟩
    · simp at hw
    · exact Or.inl hx
    · rcases onRead_exit P.loop ho with rfl | ⟨rfl, rfl⟩
      · simp at hw
      · exact Or.inr ⟨hx, ho⟩
    · rcases afterSend_exit P.loop ho with rfl | ⟨rfl, _⟩ <;> simp at hw
  rcases h with h | h
  · exact exit _ (Or.inl rfl) (fun k => hb (Or.inl k)) h
  · exact exit _ (Or.inr rfl) (fun k => hb (Or.inr k)) h

theorem sendError_step (P : Program) {s : State U} {e : Event U} (he : Enabled P s e)
    {u : U} (h : ((next P s e).port u).phase.out = some .sendError) :
    (s.port u).phase.out = some .sendError ∨ e = .send u false := by
  by_cases hb : (s.port u).phase.out = some .sendError
  · exact Or.inl hb
  right
  rcases loop_exit P he hb h with ⟨_, hx⟩ | ⟨_, hx⟩ | ⟨r, _, ho⟩ | ⟨m, ok, hx, ho⟩
  · cases hx
  · cases hx
  · rcases onRead_exit P.loop ho with hx | ⟨hx, _⟩ <;> cases hx
  · rcases afterSend_exit P.loop ho with hx' | ⟨_, rfl⟩
    · cases hx'
    · exact hx

end PortExit
