import Nport.HttpExchange

/-! What is left in http_requests of the calls that have ended. An entry is taken out when an
answer comes for it, and with the client, but not when its call times out, is cancelled or
cannot be sent. -/
namespace HttpResidue

open GuardedMachine
open HttpForward
open HttpExchange (Call Event)

/-- The exchange, and which clients have been dropped: a lookup does not return those. -/
structure State (C K : Type*) where
  exchange : HttpExchange.State C K
  dropped : C → Bool

variable {C K : Type*}

def initial : State C K := ⟨HttpExchange.initial, fun _ => false⟩

def Enabled [DecidableEq K] (honest : C → Bool) (s : State C K) (e : Event C K) : Prop :=
  HttpExchange.Enabled honest s.exchange e ∧
    match e with
    | .lookup _ (some c) => s.dropped c = false
    | _ => True

variable [DecidableEq C] [DecidableEq K]

def next (s : State C K) (e : Event C K) : State C K where
  exchange := HttpExchange.next s.exchange e
  dropped :=
    match e with
    | .drop c => Function.update s.dropped c true
    | _ => s.dropped

def server (honest : C → Bool) : Machine (State C K) (Event C K) := ⟨initial, Enabled honest, next⟩

/-- The call is in enqueue_request or forward_request and has not got its answer. -/
def Unanswered (s : HttpExchange.State C K) (k : K) : Prop :=
  (s.phase k).listens = true ∧ s.slot k = none

/-- http_requests of the client has the uuids of its unanswered calls and no others. -/
def Exact (s : HttpExchange.State C K) (c : C) : Prop :=
  ∀ u, (∃ k, s.httpRequests c u = some k) ↔
    ∃ k, s.handler k = some c ∧ s.uuid k = some u ∧ Unanswered s k

def abandons : Event C K → Option K
  | .enqueue k _ false _ | .timeout k | .cancel k => some k
  | _ => none

/-- A call that the step abandons has no entry any more: its answer has come already. -/
def Settled (s : HttpExchange.State C K) (e : Event C K) : Prop :=
  ∀ k c u, abandons e = some k → s.handler k = some c → s.uuid k = some u →
    s.httpRequests c u = none

structure Invariant (s : State C K) : Prop where
  exchange : HttpExchange.Invariant s.exchange
  /-- an unanswered call finds its entry, as long as the client exists -/
  entered : ∀ c, s.dropped c = false → ∀ k u, s.exchange.handler k = some c →
    s.exchange.uuid k = some u → Unanswered s.exchange k → s.exchange.httpRequests c u = some k
  /-- an entry belongs to an unanswered call -/
  awaited : ∀ c u k, s.exchange.httpRequests c u = some k → Unanswered s.exchange k
  gone : ∀ c, s.dropped c = true → s.exchange.running c = false ∧
    (∀ u, s.exchange.httpRequests c u = none) ∧
    ∀ k, s.exchange.handler k = some c →
      s.exchange.phase k ≠ .found ∧ s.exchange.phase k ≠ .registered

omit [DecidableEq C] [DecidableEq K] in
theorem initial_invariant : Invariant (initial : State C K) := by
  refine ⟨HttpExchange.initial_invariant, ?_, ?_, ?_⟩ <;>
    simp [initial, HttpExchange.initial]

variable {honest : C → Bool} {s t : HttpExchange.State C K} {e : Event C K}

omit [DecidableEq C] [DecidableEq K] in
theorem unknown_call (hi : HttpExchange.Invariant s) {k : K} (hk : s.uuid k = none) :
    s.slot k = none ∧ ∀ c u, s.httpRequests c u ≠ some k := by
  constructor
  · by_contra hne
    obtain ⟨r, hr⟩ := Option.ne_none_iff_exists'.mp hne
    obtain ⟨_, _, hu, _⟩ := hi.slots k r hr
    rw [hk] at hu
    cases hu
  · intro c u he
    rw [(hi.entries c u k he).2] at hk
    cases hk

theorem entered_step (hi : HttpExchange.Invariant s) (h : HttpExchange.Step honest s e t) {c : C}
    (hc : e ≠ .drop c)
    (hentered : ∀ k u, s.handler k = some c → s.uuid k = some u → Unanswered s k →
      s.httpRequests c u = some k) :
    ∀ k u, t.handler k = some c → t.uuid k = some u → Unanswered t k →
      t.httpRequests c u = some k := by
  cases h with
  | lookup k' _ hp =>
    intro k u hd hu hun
    have hne : k ≠ k' := by
      rintro rfl
      rw [hi.unknown k (Or.inl hp)] at hu
      cases hu
    refine hentered k u (by simpa [hne] using hd) hu ?_
    simpa [Unanswered, hne] using hun
  | register k' d v hp hfresh hd' =>
    intro k u hd hu hun
    by_cases hk : k = k'
    · subst hk
      obtain rfl : d = c := Option.some.inj (hd'.symm.trans hd)
      obtain rfl : v = u := by simpa using hu
      simp
    · have hold : s.uuid k = some u := by simpa [hk] using hu
      have hne : u ≠ v := by
        rintro rfl
        exact hfresh k hold
      have hentry := hentered k u hd hold (by simpa [Unanswered, hk] using hun)
      by_cases hcd : c = d
      · subst hcd
        simpa [hne] using hentry
      · simpa [hcd] using hentry
  | enqueue k' d request ok reached hp _ _ =>
    intro k u hd hu hun
    refine hentered k u hd hu ?_
    by_cases hk : k = k'
    · subst hk
      exact ⟨by simp [hp, Call.listens], hun.2⟩
    · simpa [Unanswered, hk] using hun
  | receive k' hp | finished k' _ _ hp =>
    intro k u hd hu hun
    refine hentered k u hd hu ?_
    by_cases hk : k = k'
    · subst hk
      simp [Unanswered, Call.listens] at hun
    · simpa [Unanswered, hk] using hun
  | delivered d response rest k' hr hup hk' =>
    intro k u hd hu hun
    obtain ⟨hd', hu'⟩ := hi.entries d response.uuid k' hk'
    have hne : k ≠ k' := by
      rintro rfl
      have hlistens := hun.1
      have hslot := hun.2
      simp only [hlistens, if_true, Function.update_self] at hslot
      cases hslot
    have hold : Unanswered s k := by
      refine ⟨hun.1, ?_⟩
      have hslot := hun.2
      simp only at hslot
      split at hslot
      · simpa [hne] using hslot
      · exact hslot
    have hentry := hentered k u hd hu hold
    by_cases hcd : c = d
    · subst hcd
      have huv : u ≠ response.uuid := by
        rintro rfl
        exact hne (hi.distinct k k' _ hu hu')
      simpa [huv] using hentry
    · simpa [hcd] using hentry
  | drop d _ =>
    intro k u hd hu hun
    have hcd : c ≠ d := by
      rintro rfl
      exact hc rfl
    simpa [hcd] using hentered k u hd hu hun
  | noRequest | disconnect | take | answer | forge => exact hentered

omit [DecidableEq C] [DecidableEq K] in
theorem no_entry_of_settled (hi : HttpExchange.Invariant s) (hs : Settled s e) {k : K}
    (hk : abandons e = some k) (c : C) (u : String) : s.httpRequests c u ≠ some k := by
  intro he
  obtain ⟨hc, hu⟩ := hi.entries c u k he
  rw [hs k c u hk hc hu] at he
  cases he

omit [DecidableEq C] in
theorem no_entry_of_recvError (hi : HttpExchange.Invariant s) {k : K}
    (he : HttpExchange.Enabled honest s (.recvError k)) (c : C) (u : String) :
    s.httpRequests c u ≠ some k := by
  intro hentry
  obtain ⟨hc, hu⟩ := hi.entries c u k hentry
  have hgone := he.2.2
  rw [hc, hu] at hgone
  simp [hentry] at hgone

theorem awaited_step (hi : HttpExchange.Invariant s) (he : HttpExchange.Enabled honest s e)
    (h : HttpExchange.Step honest s e t) (hs : Settled s e)
    (hawaited : ∀ c u k, s.httpRequests c u = some k → Unanswered s k) :
    ∀ c u k, t.httpRequests c u = some k → Unanswered t k := by
  -- the phase of one call changes, and no entry is its
  have other (k' : K) (phase : Call) (hno : ∀ c u, s.httpRequests c u ≠ some k') :
      ∀ c u k, s.httpRequests c u = some k →
        (Function.update s.phase k' phase k).listens = true ∧ s.slot k = none := by
    intro c u k hentry
    have hne : k ≠ k' := by
      rintro rfl
      exact hno c u hentry
    rw [Function.update_of_ne hne]
    exact hawaited c u k hentry
  cases h with
  | lookup k' _ hp => exact other k' _ (unknown_call hi (hi.unknown k' (Or.inl hp))).2
  | register k' d v hp hfresh hd =>
    intro c u k hentry
    by_cases hk : k = k'
    · subst hk
      exact ⟨by simp [Call.listens], (unknown_call hi (hi.unknown k (Or.inr hp))).1⟩
    · have hold : s.httpRequests c u = some k := by
        by_cases hcd : c = d
        · subst hcd
          by_cases hu : u = v
          · subst hu
            have hnew : k' = k := by simpa using hentry
            exact absurd hnew.symm hk
          · simpa [hu] using hentry
        · simpa [hcd] using hentry
      simpa [Unanswered, hk] using hawaited c u k hold
  | enqueue k' d request ok reached hp _ _ =>
    cases ok with
    | false => exact other k' _ (no_entry_of_settled hi hs rfl)
    | true =>
      intro c u k hentry
      obtain ⟨hlistens, hslot⟩ := hawaited c u k hentry
      by_cases hk : k = k'
      · subst hk
        exact ⟨by simp [Call.listens], hslot⟩
      · exact ⟨by simpa [hk] using hlistens, hslot⟩
  | receive k' hp =>
    refine other k' _ fun c u hentry => ?_
    exact he.2 (hawaited c u k' hentry).2
  | finished k' _ hcases hp =>
    refine other k' _ ?_
    rcases hcases with rfl | rfl | rfl
    · exact no_entry_of_settled hi hs rfl
    · exact no_entry_of_recvError hi he
    · exact no_entry_of_settled hi hs rfl
  | delivered d response rest k' hr hup hk' =>
    intro c u k hentry
    obtain ⟨hd, hu'⟩ := hi.entries d response.uuid k' hk'
    have hold : s.httpRequests c u = some k ∧ k ≠ k' := by
      by_cases hcd : c = d
      · subst hcd
        by_cases hu : u = response.uuid
        · subst hu
          simp at hentry
        · have hsame : s.httpRequests c u = some k := by simpa [hu] using hentry
          refine ⟨hsame, ?_⟩
          rintro rfl
          exact hu (Option.some.inj ((hi.entries c u k hsame).2.symm.trans hu'))
      · have hsame : s.httpRequests c u = some k := by simpa [hcd] using hentry
        refine ⟨hsame, ?_⟩
        rintro rfl
        exact hcd (Option.some.inj ((hi.entries c u k hsame).1.symm.trans hd))
    obtain ⟨hlistens, hslot⟩ := hawaited c u k hold.1
    refine ⟨hlistens, ?_⟩
    by_cases hl : (s.phase k').listens = true
    · simpa [hl, hold.2] using hslot
    · simpa [hl] using hslot
  | drop d _ =>
    intro c u k hentry
    by_cases hcd : c = d
    · subst hcd
      simp at hentry
    · exact hawaited c u k (by simpa [hcd] using hentry)
  | noRequest | disconnect | take | answer | forge => exact hawaited

/-- A call that a step abandons with its entry leaves the entry behind. -/
theorem residue_of_abandoned (hi : HttpExchange.Invariant s)
    (h : HttpExchange.Step honest s e t) {k : K} {c : C} {u : String}
    (hk : abandons e = some k) (hc : s.handler k = some c) (hu : s.uuid k = some u)
    (hentry : s.httpRequests c u ≠ none) :
    t.httpRequests c u = some k ∧ t.phase k = .finished := by
  obtain ⟨k', hk'⟩ := Option.ne_none_iff_exists'.mp hentry
  obtain rfl : k' = k := hi.distinct k' k u (hi.entries c u k' hk').2 hu
  cases h with
  | enqueue j d request ok reached =>
    cases ok with
    | true => cases hk
    | false =>
      obtain rfl : j = k' := Option.some.inj hk
      exact ⟨hk', by simp⟩
  | finished j _ hcases =>
    rcases hcases with rfl | rfl | rfl
    · obtain rfl : j = k' := Option.some.inj hk
      exact ⟨hk', by simp⟩
    · cases hk
    · obtain rfl : j = k' := Option.some.inj hk
      exact ⟨hk', by simp⟩
  | lookup | register | receive | delivered | noRequest | disconnect | drop | take | answer
  | forge => cases hk

theorem gone_step (h : HttpExchange.Step honest s e t) {c : C}
    (hnew : ∀ k, e ≠ .lookup k (some c))
    (hgone : s.running c = false ∧ (∀ u, s.httpRequests c u = none) ∧
      ∀ k, s.handler k = some c → s.phase k ≠ .found ∧ s.phase k ≠ .registered) :
    t.running c = false ∧ (∀ u, t.httpRequests c u = none) ∧
      ∀ k, t.handler k = some c → t.phase k ≠ .found ∧ t.phase k ≠ .registered := by
  obtain ⟨hrun, htable, hcalls⟩ := hgone
  have hrun' : t.running c = false := by
    by_contra hr
    rw [h.running_before c (by simpa using hr)] at hrun
    cases hrun
  refine ⟨hrun', ?_, ?_⟩
  · intro u
    cases h with
    | register k d v hp _ hd =>
      have hcd : c ≠ d := by
        rintro rfl
        exact (hcalls k hd).1 hp
      simpa [hcd] using htable u
    | delivered d response rest k hr =>
      have hcd : c ≠ d := by
        rintro rfl
        rw [hrun] at hr
        cases hr
      simpa [hcd] using htable u
    | drop d =>
      by_cases hcd : c = d
      · subst hcd
        simp
      · simpa [hcd] using htable u
    | lookup | enqueue | receive | finished | noRequest | disconnect | take | answer | forge =>
      exact htable u
  · intro k hd
    cases h with
    | lookup k' d hp =>
      by_cases hk : k = k'
      · subst hk
        obtain rfl : d = some c := by simpa using hd
        exact absurd rfl (hnew k)
      · simpa [hk] using hcalls k (by simpa [hk] using hd)
    | register k' d v hp _ hd' =>
      have hk : k ≠ k' := by
        rintro rfl
        exact (hcalls k hd).1 hp
      simpa [hk] using hcalls k hd
    | enqueue k' d request ok reached hp _ _ =>
      have hk : k ≠ k' := by
        rintro rfl
        exact (hcalls k hd).2 hp
      simpa [hk] using hcalls k hd
    | receive k' | finished k' =>
      by_cases hk : k = k'
      · subst hk
        simp
      · simpa [hk] using hcalls k hd
    | delivered | noRequest | disconnect | drop | take | answer | forge => exact hcalls k hd

omit [DecidableEq C] [DecidableEq K] in
theorem Invariant.exact {s : State C K} (hi : Invariant s) {c : C} (hc : s.dropped c = false) :
    Exact s.exchange c := by
  intro u
  constructor
  · rintro ⟨k, hk⟩
    obtain ⟨hd, hu⟩ := hi.exchange.entries c u k hk
    exact ⟨k, hd, hu, hi.awaited c u k hk⟩
  · rintro ⟨k, hd, hu, hun⟩
    exact ⟨k, hi.entered c hc k u hd hu hun⟩

theorem step_invariant {s : State C K} (hi : Invariant s) (he : Enabled honest s e)
    (hs : Settled s.exchange e) : Invariant (next s e) := by
  have hstep := HttpExchange.next_step hi.exchange he.1
  refine ⟨HttpExchange.step_invariant hi.exchange hstep, ?_,
    awaited_step hi.exchange he.1 hstep hs hi.awaited, ?_⟩
  · intro c hc
    have hne : e ≠ .drop c := by
      rintro rfl
      simp [next] at hc
    refine entered_step hi.exchange hstep hne (hi.entered c ?_)
    cases e with
    | drop d =>
      have hcd : c ≠ d := fun h => hne (h ▸ rfl)
      simpa [next, hcd] using hc
    | _ => exact hc
  · intro c hc
    by_cases hold : s.dropped c = true
    · refine gone_step hstep ?_ (hi.gone c hold)
      rintro k rfl
      have hexists : s.dropped c = false := he.2
      rw [hold] at hexists
      cases hexists
    · cases e with
      | drop d =>
        have hcd : c = d := by
          by_contra hcd
          exact hold (by simpa [next, hcd] using hc)
        subst hcd
        exact ⟨he.1.1, by simp [next, HttpExchange.next], he.1.2⟩
      | _ => exact absurd hc hold

theorem residue_step {s : State C K} (hi : Invariant s) (he : Enabled honest s e)
    (hs : ¬ Settled s.exchange e) :
    ¬ ∀ c, (next s e).dropped c = false → Exact (next s e).exchange c := by
  simp only [Settled, not_forall] at hs
  obtain ⟨k, c, u, hk, hc, hu, hentry⟩ := hs
  have hstep := HttpExchange.next_step hi.exchange he.1
  obtain ⟨hleft, hfinished⟩ := residue_of_abandoned hi.exchange hstep hk hc hu hentry
  have hexists : (next s e).dropped c = false := by
    have hsame : (next s e).dropped = s.dropped := by cases e <;> first | rfl | cases hk
    rw [hsame, ← Bool.not_eq_true]
    exact fun hgone => hentry ((hi.gone c hgone).2.1 u)
  intro hexact
  obtain ⟨k', hd, hu', hlistens, _⟩ := (hexact c hexists u).mp ⟨k, hleft⟩
  have hi' := HttpExchange.step_invariant hi.exchange hstep
  obtain rfl := hi'.distinct k' k u hu' (hi'.entries c u k hleft).2
  have hphase : (next s e).exchange.phase k' = .finished := hfinished
  simp [hphase, Call.listens] at hlistens

/-- In all states of a run the clients have entries for their unanswered calls and no others,
exactly when every call that the run abandons has its answer by then. -/
theorem no_residue_iff (honest : C → Bool) {tr : List (State C K × Event C K)} {s : State C K}
    (hr : Run (server honest) tr s) :
    (∀ t ∈ visited tr s, ∀ c, t.dropped c = false → Exact t.exchange c) ↔
      ∀ p ∈ tr, Settled p.1.exchange p.2 := by
  refine Path.forall_visited_iff (M := server honest) (J := Invariant)
    (C := fun s e => Settled s.exchange e)
    (P := fun t => ∀ c, t.dropped c = false → Exact t.exchange c) ?_ ?_ ?_ hr initial_invariant
  · exact fun t e hi he hs => step_invariant hi he hs
  · exact fun t hi c hc => hi.exact hc
  · exact fun t e hi he hs => residue_step hi he hs

instance [Fintype K] (s : State C K) (e : Event C K) : Decidable (Enabled honest s e) :=
  match e with
  | .lookup _ (some _) => inferInstanceAs (Decidable (_ ∧ _ = _))
  | .lookup _ none | .register _ _ | .enqueue _ _ _ _ | .receive _ | .timeout _ | .recvError _
  | .cancel _ | .sendHttpResponse _ | .disconnect _ | .drop _ | .take _ | .answer _ _ _ _
  | .forge _ _ => inferInstanceAs (Decidable (_ ∧ True))

instance [Fintype K] (s : State C K) (e : Event C K) :
    Decidable ((server honest).Enabled s e) :=
  inferInstanceAs (Decidable (Enabled honest s e))

instance (s : HttpExchange.State C K) (e : Event C K) : Decidable (Settled s e) :=
  decidable_of_iff (((abandons e).all fun k => (s.handler k).all fun c => (s.uuid k).all fun u =>
    s.httpRequests c u = none) = true) (by
      simp only [Settled, Option.all_eq_true, decide_eq_true_eq]
      exact ⟨fun h k c u hk hc hu => h k hk c hc u hu, fun h k hk c hc u hu => h k c u hk hc hu⟩)

def answered : List (Event Unit Bool) :=
  [.lookup false (some ()), .register false "a", .enqueue false (HttpExchange.bare "a") true true,
    .take (), .answer () "a" none true, .sendHttpResponse (), .timeout false]

theorem no_residue_answered :
    Exact (replay (server fun _ : Unit => true) (initial (K := Bool)) answered).exchange () := by
  have haccepts : Accepts (server fun _ : Unit => true) (initial (K := Bool)) answered := by decide
  have hsettled : ∀ p ∈ trace (server fun _ : Unit => true) (initial (K := Bool)) answered,
      Settled p.1.exchange p.2 := by decide
  exact (no_residue_iff (fun _ : Unit => true) (path_of_accepts haccepts)).mpr hsettled _
    (List.mem_append_right _ (List.mem_singleton.mpr rfl)) () rfl

/-! The table of a client that never answers. -/

structure Piled (n : ℕ) (s : State Unit ℕ) : Prop where
  connected : s.exchange.running () = true ∧ s.dropped () = false
  left : ∀ k < n, s.exchange.phase k = .finished ∧ s.exchange.httpRequests () k.repr = some k
  fresh : ∀ k, n ≤ k → s.exchange.phase k = .idle
  drawn : ∀ k u, s.exchange.uuid k = some u → k < n ∧ u = k.repr

def oneMore (n : ℕ) : List (Event Unit ℕ) :=
  [.lookup n (some ()), .register n n.repr, .enqueue n (HttpExchange.bare n.repr) true true,
    .timeout n]

theorem oneMore_piles {n : ℕ} {s : State Unit ℕ} (h : Piled n s) :
    Accepts (server fun _ => false) s (oneMore n) ∧
      Piled (n + 1) (replay (server fun _ => false) s (oneMore n)) := by
  have hidle := h.fresh n (Nat.le_refl n)
  have hunused : ∀ k, s.exchange.uuid k ≠ some n.repr := by
    intro k hk
    obtain ⟨hlt, heq⟩ := h.drawn k _ hk
    have := Libnp.repr_injective heq
    omega
  constructor
  · simp [oneMore, Accepts, server, Enabled, HttpExchange.Enabled, next, HttpExchange.next, hidle,
      hunused, h.connected.2, HttpExchange.bare]
  · have hstate : replay (server fun _ => false) s (oneMore n) =
        { exchange := { s.exchange with
            phase := Function.update s.exchange.phase n .finished
            handler := Function.update s.exchange.handler n (some ())
            uuid := Function.update s.exchange.uuid n (some n.repr)
            httpRequests := Function.update s.exchange.httpRequests ()
              (Function.update (s.exchange.httpRequests ()) n.repr (some n))
            down := Function.update s.exchange.down ()
              (s.exchange.down () ++ [HttpExchange.bare n.repr]) }
          dropped := s.dropped } := by
      simp [oneMore, replay, server, next, HttpExchange.next]
    rw [hstate]
    refine ⟨h.connected, ?_, ?_, ?_⟩
    · intro k hk
      by_cases hkn : k = n
      · subst hkn
        simp
      · have hrepr : k.repr ≠ n.repr := mt Libnp.repr_injective hkn
        simpa [hkn, hrepr] using h.left k (by omega)
    · intro k hk
      have hkn : k ≠ n := by omega
      simpa [hkn] using h.fresh k (by omega)
    · intro k u hk
      by_cases hkn : k = n
      · subst hkn
        exact ⟨Nat.lt_succ_self k, by simpa using hk.symm⟩
      · obtain ⟨hlt, hu⟩ := h.drawn k u (by simpa [hkn] using hk)
        exact ⟨by omega, hu⟩

theorem table_unbounded (n : ℕ) : ∃ s, Reachable (server fun _ : Unit => false) s ∧ Piled n s := by
  induction n with
  | zero =>
    refine ⟨initial, ⟨[], .refl⟩, ⟨rfl, rfl⟩, by simp, fun _ _ => rfl, by
      simp [initial, HttpExchange.initial]⟩
  | succ n ih =>
    obtain ⟨s, ⟨tr, hr⟩, hpiled⟩ := ih
    obtain ⟨haccepts, hmore⟩ := oneMore_piles hpiled
    exact ⟨_, ⟨_, hr.trans (path_of_accepts haccepts)⟩, hmore⟩

def unanswered : List (Event Unit Bool) :=
  [.lookup false (some ()), .register false "a", .enqueue false (HttpExchange.bare "a") true true,
    .timeout false]

/-- The entry of a call that has timed out stays while its client is connected. -/
theorem timed_out_call_stays : ∃ s : State Unit Bool,
    Reachable (server fun _ : Unit => true) s ∧ s.exchange.running () = true ∧
      s.exchange.httpRequests () "a" = some false ∧ s.exchange.phase false = .finished ∧
      ¬ Exact s.exchange () := by
  have haccepts : Accepts (server fun _ : Unit => true) (initial (K := Bool)) unanswered := by
    decide
  refine ⟨_, reachable_of_accepts haccepts, by decide, by decide, by decide, ?_⟩
  intro hexact
  obtain ⟨k, _, _, hlistens, _⟩ := (hexact "a").mp ⟨false, by decide⟩
  cases k
  · exact absurd hlistens (by decide)
  · exact absurd hlistens (by decide)

end HttpResidue
