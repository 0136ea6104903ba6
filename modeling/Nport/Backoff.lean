import Nport.ConnectionLoop

/-! How long connect_failure makes np sleep. The delay is doubled with each call, and the count
of calls goes back to zero when np gets to read from a server. -/
namespace Backoff

open GuardedMachine
open Reconnect

/-- CONNECT_RETRY_DELAY * 2u32.pow(*retries), in seconds. -/
def delay (retries : ℕ) : ℕ := 1 * 2 ^ retries

variable {U : Type*}

def fails : Event U → Bool
  | .connectFails | .openTunnel false => true
  | _ => false

/-- The delays since the count was last set to zero. The last of the calls in a row is the end
of the process and has none. -/
def delays (tr : List (State U × Event U)) : List ℕ :=
  tr.foldl (fun ds p =>
    if fails p.2 then
      if maxConnectRetries < p.1.retries + 1 then ds else ds ++ [delay (p.1.retries + 1)]
    else if p.2 matches .startReading then [] else ds) []

variable {tr : List (State U × Event U)} {s : State U} {e : Event U} {cfg : Config}

theorem delays_fails (h : fails e = true) : delays (tr ++ [(s, e)]) =
    if maxConnectRetries < s.retries + 1 then delays tr
    else delays tr ++ [delay (s.retries + 1)] := by
  simp [delays, h]

theorem delays_startReading : delays (tr ++ [(s, .startReading)]) = [] := by
  simp [delays, fails]

theorem delays_other (h : fails e = false) (hs : e ≠ .startReading) :
    delays (tr ++ [(s, e)]) = delays tr := by
  cases e with
  | startReading => exact absurd rfl hs
  | connectFails => cases h
  | openTunnel ok =>
    cases ok with
    | false => cases h
    | true => simp [delays, fails]
  | _ => simp [delays, fails]

def doubling (n : ℕ) : List ℕ := (List.range n).map fun i => delay (i + 1)

theorem doubling_succ (n : ℕ) : doubling (n + 1) = doubling n ++ [delay (n + 1)] := by
  simp [doubling, List.range_succ]

structure Counted (tr : List (State U × Event U)) (s : State U) : Prop where
  running : s.loop ≠ .exited → s.retries ≤ maxConnectRetries ∧ delays tr = doubling s.retries
  exited : s.loop = .exited → delays tr = doubling maxConnectRetries

section Step

variable [DecidableEq U]

omit [DecidableEq U] in
theorem counted_failure {loop : Loop U} (h : Counted tr s) (hloop : s.loop ≠ .exited)
    (hnext : loop ≠ .exited) (hfails : fails e = true) :
    Counted (tr ++ [(s, e)]) (connectFailure s loop) := by
  obtain ⟨hle, hdelays⟩ := h.running hloop
  by_cases hmany : maxConnectRetries < s.retries + 1
  · have hlast : s.retries = maxConnectRetries := hle.antisymm (Nat.lt_succ_iff.mp hmany)
    refine ⟨fun hne => absurd ?_ hne, fun _ => ?_⟩
    · simp [connectFailure, hmany]
    · rw [delays_fails hfails, if_pos hmany, hdelays, hlast]
  · refine ⟨fun _ => ⟨Nat.not_lt.mp hmany, ?_⟩, fun hexit => absurd ?_ hnext⟩
    · rw [delays_fails hfails, if_neg hmany, hdelays]
      exact (doubling_succ s.retries).symm
    · simpa [connectFailure, hmany] using hexit

theorem counted_next (h : Counted tr s) (he : Enabled cfg s e) :
    Counted (tr ++ [(s, e)]) (next cfg s e) := by
  have hloop := ConnectionLoop.loop_ne_exited he
  have kept (hfails : fails e = false) (hs : e ≠ .startReading)
      (hretries : (next cfg s e).retries = s.retries) (hgoes : (next cfg s e).loop ≠ .exited) :
      Counted (tr ++ [(s, e)]) (next cfg s e) := by
    obtain ⟨hle, hdelays⟩ := h.running hloop
    refine ⟨fun _ => ?_, fun hexit => absurd hexit hgoes⟩
    rw [hretries, delays_other hfails hs]
    exact ⟨hle, hdelays⟩
  cases e with
  | connected => exact kept rfl (by simp) rfl (by simp [next])
  | connectFails => exact counted_failure h hloop (by simp) rfl
  | openTunnel ok =>
    obtain ⟨r, rest, hopening⟩ := he.1
    cases ok with
    | true => exact kept rfl (by simp) (by simp [next, hopening]) (by simp [next, hopening])
    | false =>
      simp only [next, hopening]
      exact counted_failure h hloop (by simp) rfl
  | startReading =>
    refine ⟨fun _ => ⟨Nat.zero_le _, delays_startReading⟩, fun hexit => ?_⟩
    cases hexit
  | announce a => exact kept rfl (by simp) rfl hloop
  | portConnect u remoteAddress started =>
    refine kept rfl (by simp) ?_ ?_
    · simp only [next]
      split <;> rfl
    · simp only [next]
      split <;> simp
  | answer ok =>
    obtain ⟨u, started, hanswering⟩ := he.1
    exact kept rfl (by simp) (by simp [next, hanswering]) (by simp [next, hanswering])
  | receive u m => exact kept rfl (by simp) rfl hloop
  | lost => exact kept rfl (by simp) rfl (by simp [next])
  | send u ok =>
    refine kept rfl (by simp) ?_ ?_
    · simp only [next]
      split <;> rfl
    · simp only [next]
      split <;> exact hloop
  | task e => exact kept rfl (by simp) rfl hloop

theorem counted_of_run (h : Run (run cfg) tr s) : Counted tr s := by
  induction h with
  | refl =>
    refine ⟨fun _ => ⟨Nat.zero_le _, rfl⟩, ?_⟩
    rintro ⟨⟩
  | tail _ he ih => exact counted_next ih he

/-- Since np last got to read from a server it has slept for 2, 4, 8, ... seconds, once for each
call of connect_failure but the one that ends the process: not more than five times, and 62
seconds in all, which it has slept when it gives up. The power and the product fit in 32 bits. -/
theorem delays_double (cfg : Config) (h : Run (run cfg) tr s) :
    (∃ n ≤ maxConnectRetries, delays tr = doubling n ∧ (s.loop ≠ .exited → s.retries = n)) ∧
    (delays tr).sum ≤ 62 ∧ (s.loop = .exited → (delays tr).sum = 62) ∧
    ∀ d ∈ delays tr, d < 2 ^ 32 := by
  have hdelays : ∃ n ≤ maxConnectRetries, delays tr = doubling n ∧
      (s.loop ≠ .exited → s.retries = n) := by
    obtain ⟨hrunning, hexited⟩ := counted_of_run h
    by_cases hloop : s.loop = .exited
    · exact ⟨_, Nat.le_refl _, hexited hloop, fun hne => absurd hloop hne⟩
    · obtain ⟨hle, heq⟩ := hrunning hloop
      exact ⟨_, hle, heq, fun _ => rfl⟩
  have hsmall : ∀ n ≤ maxConnectRetries, (doubling n).sum ≤ 62 ∧ ∀ d ∈ doubling n, d < 2 ^ 32 := by
    decide
  obtain ⟨n, hn, heq, hretries⟩ := hdelays
  refine ⟨⟨n, hn, heq, hretries⟩, heq ▸ (hsmall n hn).1, fun hexit => ?_, heq ▸ (hsmall n hn).2⟩
  rw [(counted_of_run h).exited hexit]
  rfl

end Step

def unreachable : List (Event Unit) := List.replicate 6 .connectFails

def lonely : Config := ⟨[.http (some "something") ⟨none, 3000⟩], none⟩

theorem delays_double_unreachable :
    (delays (trace (run lonely) initial unreachable : List (State Unit × Event Unit))).sum =
      62 := by
  have accepted : Accepts (run lonely) (initial : State Unit) unreachable := by decide
  exact (delays_double lonely (path_of_accepts accepted)).2.2.1 rfl

end Backoff
