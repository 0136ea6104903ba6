import Nport.Tunnel
import Mathlib.Data.List.Count

/-! The connect request of a uuid as a single token: PortConnect on its way to np, np busy
with it, or PortConnected on its way back. As long as it exists, connect_requests has the
entry that the answer will look for. -/
namespace ConnectRequest

open GuardedMachine
open Link
open Tunnel

variable {U : Type*} [DecidableEq U]

def isControl {κ : Type*} (select : κ → Bool) : Frame U κ → Bool
  | .control content => select content
  | .port _ _ => false

def connects (u : U) (wire : List (Frame U U)) : ℕ := wire.countP (isControl (· = u))

def answers (u : U) (wire : List (Frame U (U × Bool))) : ℕ :=
  wire.countP (isControl (·.1 = u))

def dials (u : U) (dialing : Option (U × Dial)) : ℕ :=
  match dialing with
  | some (v, _) => if v = u then 1 else 0
  | none => 0

def tokens (s : State U) (u : U) : ℕ := connects u s.down + dials u s.dialing + answers u s.up

structure Pending (s : State U) : Prop where
  unique : ∀ u, tokens s u ≤ 1
  awaited : ∀ u, tokens s u = 1 → s.connectRequests u = true
  asked : ∀ u, s.accept u = .requested → s.connectRequests u = true
  fresh : ∀ u, s.accept u = .idle ∨ s.accept u = .requested →
    tokens s u = 0 ∧ s.connected u = none
  answered : ∀ u, s.connected u ≠ none → tokens s u = 0

theorem initial_pending : Pending (initial : State U) := by
  constructor <;> simp [initial, tokens, connects, answers, dials]

omit [DecidableEq U] in
theorem countP_transmit {κ : Type*} (p : Frame U κ → Bool) (wire : List (Frame U κ))
    (f : Frame U κ) (reached : Bool) :
    (transmit wire f reached).countP p = wire.countP p + if reached && p f then 1 else 0 := by
  cases reached <;> simp [transmit, List.countP_append, List.countP_singleton]

variable {s t : State U} {e : Event U}

theorem tokens_step (h : Step s e t) (u : U) :
    (tokens t u ≤ tokens s u) ∨
      (s.accept u = .requested ∧ tokens t u ≤ tokens s u + 1 ∧ t.accept u ≠ .requested ∧
        t.accept u ≠ .idle) := by
  cases h with
  | connect v ok reached ha _ _ =>
    by_cases hv : v = u
    · subst hv
      right
      refine ⟨ha, ?_, by cases ok <;> simp, by cases ok <;> simp⟩
      simp only [tokens, connects, countP_transmit]
      split <;> omega
    · left
      simp [tokens, connects, countP_transmit, isControl, hv]
  | connected v ok rest hu _ => left; simp [tokens, answers, hu, List.countP_cons]
  | noRequest v ok rest hu _ _ => left; simp [tokens, answers, hu, List.countP_cons]
  | portMessage v m rest hu _ => left; simp [tokens, answers, hu, isControl]
  | serverSend v m ok reached _ _ _ _ =>
    left; simp [tokens, connects, countP_transmit, isControl]
  | portConnect v rest hw hd =>
    left
    simp only [tokens, connects, hw, hd, dials, isControl, List.countP_cons, decide_eq_true_eq]
    omega
  | npMessage v m rest hw _ _ => left; simp [tokens, connects, hw, isControl]
  | dialed v hd _ => left; simp [tokens, dials, hd]
  | undialed v hd => left; simp [tokens, dials, hd]
  | answer v result ok reached hd _ =>
    left
    by_cases hv : v = u
    · subst hv
      have hbusy : dials v (some (v, Dial.answering result)) = 1 := by simp [dials]
      have hnone : dials v none = 0 := rfl
      simp only [tokens, answers, countP_transmit, hd, hbusy, hnone]
      split <;> omega
    · simp [tokens, answers, countP_transmit, isControl, hd, dials, hv]
  | npSend v m ok reached _ _ _ _ =>
    left; simp [tokens, answers, countP_transmit, isControl]
  | accept | wake | spawn | server | np => left; exact Nat.le_refl _

theorem answer_consumed {v : U} {ok : Bool} {rest : List (Frame U (U × Bool))}
    (hu : s.up = .control (v, ok) :: rest) (same : t.down = s.down ∧ t.dialing = s.dialing)
    (taken : t.up = rest) : tokens t v + 1 = tokens s v := by
  simp [tokens, answers, same.1, same.2, taken, hu, isControl]
  omega

theorem connected_step (h : Step s e t) (u : U) :
    (t.connected u = s.connected u ∧ t.connectRequests u = s.connectRequests u) ∨
      (e = .accept u ∧ t.connected u = s.connected u ∧ t.connectRequests u = true) ∨
      tokens t u + 1 = tokens s u := by
  cases h with
  | accept v _ _ =>
    by_cases hv : u = v
    · subst hv; right; left; simp
    · left; simp [hv]
  | connected v ok rest hu _ =>
    by_cases hv : u = v
    · subst hv
      exact Or.inr (Or.inr (answer_consumed hu ⟨rfl, rfl⟩ rfl))
    · left; simp [hv]
  | connect | wake | spawn | noRequest | portMessage | serverSend | server | portConnect
  | npMessage | dialed | undialed | answer | npSend | np => exact Or.inl ⟨rfl, rfl⟩

theorem accept_step (h : Step s e t) {u : U}
    (ht : t.accept u = .idle ∨ t.accept u = .requested) :
    (s.accept u = .idle ∨ s.accept u = .requested) ∧
      (t.accept u = .requested → s.accept u = .requested ∨ e = .accept u) := by
  generalize hl : t.accept u = l at ht ⊢
  cases hl ▸ h.acceptLoop u with
  | kept => exact ⟨ht, Or.inl⟩
  | accepted ha he => exact ⟨Or.inl ha, fun _ => Or.inr he⟩
  | connected ok | woken ok => cases ok <;> simp at ht
  | spawned => simp at ht

theorem step_pending (hp : Pending s) (h : Step s e t) : Pending t := by
  refine ⟨?_, ?_, ?_, ?_, ?_⟩
  · intro u
    have hle := hp.unique u
    rcases tokens_step h u with ht | ⟨ha, ht, _⟩
    · omega
    · have hz := (hp.fresh u (Or.inr ha)).1
      omega
  · intro u hone
    have hle := hp.unique u
    have hbefore : s.connectRequests u = true := by
      rcases tokens_step h u with ht | ⟨ha, _⟩
      · exact hp.awaited u (by omega)
      · exact hp.asked u ha
    rcases connected_step h u with ⟨_, hr⟩ | ⟨_, _, hr⟩ | hz
    · rw [hr]; exact hbefore
    · exact hr
    · omega
  · intro u hreq
    obtain ⟨hback, hsent⟩ := accept_step h (Or.inr hreq)
    rcases connected_step h u with ⟨_, hr⟩ | ⟨_, _, hr⟩ | hz
    · rcases hsent hreq with hs | rfl
      · rw [hr]; exact hp.asked u hs
      · cases h with
        | accept => simp
    · exact hr
    · have hnone := (hp.fresh u hback).1
      omega
  · intro u hback
    obtain ⟨hs, _⟩ := accept_step h hback
    obtain ⟨hz, hn⟩ := hp.fresh u hs
    rcases tokens_step h u with ht | ⟨_, _, h1, h2⟩
    · rcases connected_step h u with ⟨hc, _⟩ | ⟨_, hc, _⟩ | hlost
      · exact ⟨by omega, by rw [hc]; exact hn⟩
      · exact ⟨by omega, by rw [hc]; exact hn⟩
      · omega
    · rcases hback with hb | hb
      · exact absurd hb h2
      · exact absurd hb h1
  · intro u hc
    have hle := hp.unique u
    rcases connected_step h u with ⟨hsame, _⟩ | ⟨_, hsame, _⟩ | hlost
    · rw [hsame] at hc
      have hz := hp.answered u hc
      rcases tokens_step h u with ht | ⟨ha, _⟩
      · omega
      · exact absurd (hp.fresh u (Or.inr ha)).2 hc
    · rw [hsame] at hc
      have hz := hp.answered u hc
      rcases tokens_step h u with ht | ⟨ha, _⟩
      · omega
      · exact absurd (hp.fresh u (Or.inr ha)).2 hc
    · omega

theorem reachable_pending {s : State U} (h : Reachable tunnel s) : Pending s :=
  Reachable.invariant (M := tunnel) initial_pending
    (fun _ _ hp he => step_pending hp (next_step he)) h

/-- Every PortConnected of an honest np finds its entry in connect_requests. -/
theorem Pending.found (hp : Pending s) {u : U} {ok : Bool} {rest : List (Frame U (U × Bool))}
    (hu : s.up = .control (u, ok) :: rest) : s.connectRequests u = true := by
  apply hp.awaited u
  have hle := hp.unique u
  have hone : 1 ≤ tokens s u := by
    simp only [tokens, answers, hu, isControl, List.countP_cons, decide_true, if_true]
    omega
  omega

end ConnectRequest
