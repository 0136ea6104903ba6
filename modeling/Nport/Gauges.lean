import Nport.HostnameLookup
import Nport.Sessions
import Mathlib.Algebra.Order.Ring.Nat
import Mathlib.Data.Fintype.Basic

/-! The gauges http_hostnames, tcp_ports and client_connections against what they count. Each
is kept in step by a ledger: the gauge, the increments and decrements that are still to come,
and what was dropped without a decrement. -/
namespace Gauges

open GuardedMachine
open Tally
open Sessions

variable {C P : Type*} [DecidableEq C] [DecidableEq P]

/-- The name is claimed and not counted yet. -/
def AwaitsIncrement : Phase → Prop
  | .adding _ | .opened => True
  | _ => False

/-- The name is free again and still counted. -/
def AwaitsDecrement : Phase → Prop
  | .closed => True
  | _ => False

/-- Registered and not counted, now or for good. -/
def UncountedConnection : Phase → Prop
  | .welcoming | .failed | .connected => True
  | _ => False

/-- Out of the registry and still counted. -/
def OvercountedConnection : Phase → Prop
  | .deregistering | .clearing | .departed => True
  | _ => False

instance : DecidablePred AwaitsIncrement := fun x => by
  cases x <;> simp only [AwaitsIncrement] <;> infer_instance

instance : DecidablePred AwaitsDecrement := fun x => by
  cases x <;> simp only [AwaitsDecrement] <;> infer_instance

instance : DecidablePred UncountedConnection := fun x => by
  cases x <;> simp only [UncountedConnection] <;> infer_instance

instance : DecidablePred OvercountedConnection := fun x => by
  cases x <;> simp only [OvercountedConnection] <;> infer_instance

/-- The hostnames that a deregistration drops without a decrement. -/
def dropped (p : State C P × Event C P) : ℕ :=
  match p.2 with
  | .clear c => (p.1.registry.hostnames c).card
  | _ => 0

def Listening (s : State C P) (p : P) : Prop := s.loops p = .listening ∨ s.loops p = .serving

instance (s : State C P) (p : P) : Decidable (Listening s p) :=
  inferInstanceAs (Decidable (_ ∨ _))

def Quiet (s : State C P) : Prop :=
  ∀ c, s.phase c = .unborn ∨ s.phase c = .reading ∨ s.phase c = .failed ∨ s.phase c = .returned

omit [DecidableEq P] in
theorem phase_update [DecidableEq P] {s : State C P} {e : Event C P} {c : C}
    (hc : e.client = some c) :
    (next s e).phase = Function.update s.phase c ((next s e).phase c) := by
  funext d
  by_cases hd : d = c
  · rw [hd, Function.update_self]
  · rw [Function.update_of_ne hd, phase_other]
    rw [hc]
    exact fun he => hd (Option.some.inj he).symm

/-- How a phase enters a ledger: increments still to come, less decrements still to come. -/
def due (p q : Phase → Prop) [DecidablePred p] [DecidablePred q] (x : Phase) : ℤ :=
  (if p x then 1 else 0) - (if q x then 1 else 0)

def Balanced (p q : Phase → Prop) (difference : ℤ) (s : State C P) : Prop :=
  ∃ i d : ℕ, Counted (fun c => p (s.phase c)) i ∧ Counted (fun c => q (s.phase c)) d ∧
    difference + i = d

theorem Balanced.step {p q : Phase → Prop} [DecidablePred p] [DecidablePred q] {v v' : ℤ}
    {s : State C P} {e : Event C P} (h : Balanced p q v s)
    (loop : e.client = none → v' = v)
    (client : ∀ c, e.client = some c →
      v' + due p q ((next s e).phase c) = v + due p q (s.phase c)) :
    Balanced p q v' (next s e) := by
  obtain ⟨i, d, hinc, hdec, hsum⟩ := h
  cases hc : e.client with
  | none =>
    have hphase : (next s e).phase = s.phase := by
      funext c
      exact phase_other s (by simp [hc])
    rw [loop hc]
    exact ⟨i, d, hphase ▸ hinc, hphase ▸ hdec, hsum⟩
  | some c =>
    obtain ⟨i', hinc', hi'⟩ := hinc.update c ((next s e).phase c)
    obtain ⟨d', hdec', hd'⟩ := hdec.update c ((next s e).phase c)
    rw [← phase_update hc] at hinc' hdec'
    have hbalance := client c hc
    refine ⟨i', d', hinc', hdec', ?_⟩
    unfold due at hbalance
    split_ifs at hi' hd' hbalance <;> omega

theorem ledger_of_run {p q : Phase → Prop} [DecidablePred p] [DecidablePred q]
    (value : State C P → ℤ) (loss : State C P × Event C P → ℕ) {w : Bool}
    (unborn : ¬ p .unborn ∧ ¬ q .unborn) (start : value initial = 0)
    (loop : ∀ s e, e.client = none → value (next s e) - loss (s, e) = value s)
    (client : ∀ s e c, Invariant s → Enabled w s e → e.client = some c →
      value (next s e) - loss (s, e) + due p q ((next s e).phase c) =
        value s + due p q (s.phase c))
    {tr : List (State C P × Event C P)} {s : State C P} (hr : Run (server w) tr s) :
    Balanced p q (value s - (tr.map loss).sum) s := by
  induction hr with
  | refl =>
    refine ⟨0, 0, counted_zero_iff.mpr fun _ => unborn.1,
      counted_zero_iff.mpr fun _ => unborn.2, ?_⟩
    change value initial - _ + _ = _
    simp [start]
  | @tail tr t e hp he ih =>
    rw [List.map_append, List.sum_append, List.map_singleton, List.sum_singleton]
    rw [Int.natCast_add]
    change Balanced p q (value (next t e) - _) (next t e)
    refine ih.step ?_ ?_
    · intro hc
      have hloop := loop t e hc
      omega
    · intro c hc
      have hclient := client t e c (reachable_invariant ⟨_, hp⟩) he hc
      omega

/-! http_hostnames -/

omit [DecidableEq P] in
theorem claimed_card_claim {s : State C P} {c : C} {h : Registry.Hostname}
    (hr : Registry.claimResult s.registry h = true) :
    (Registry.next s.registry (.claimHttpHostname c h)).claimedHttpHostnames.card =
      s.registry.claimedHttpHostnames.card + 1 := by
  have hh : h ∉ s.registry.claimedHttpHostnames := by simpa [Registry.claimResult] using hr
  simp only [Registry.next, if_neg hh]
  exact Finset.card_insert_of_notMem hh

omit [DecidableEq P] in
theorem claimed_card_refused {s : State C P} {c : C} {h : Registry.Hostname}
    (hr : Registry.claimResult s.registry h = false) :
    Registry.next s.registry (.claimHttpHostname c h) = s.registry := by
  have hh : h ∈ s.registry.claimedHttpHostnames := by simpa [Registry.claimResult] using hr
  simp only [Registry.next, if_pos hh]

omit [DecidableEq C] [DecidableEq P] in
theorem own_claimed {s : State C P} (hi : Invariant s) {c : C} {h : Registry.Hostname}
    (hh : h ∈ Registry.holds s.registry c) : h ∈ s.registry.claimedHttpHostnames :=
  hi.registry.split.subset c hh

/-- One step changes the gauge, the claims and the phase of its client so that only what a
deregistration drops is left over. -/
theorem hostname_balance {w : Bool} {s : State C P} (hi : Invariant s) {e : Event C P}
    (he : Enabled w s e) {c : C} (hc : e.client = some c) :
    (next s e).httpHostnames - (next s e).registry.claimedHttpHostnames.card -
        dropped (s, e) + due AwaitsIncrement AwaitsDecrement ((next s e).phase c) =
      s.httpHostnames - s.registry.claimedHttpHostnames.card +
        due AwaitsIncrement AwaitsDecrement (s.phase c) := by
  have ht := hi.task c
  generalize hx : s.phase c = x at ht
  generalize hy : (next s e).phase c = y
  cases hx ▸ hy ▸ phase_step he c with
  | other hd => exact absurd hc hd
  | claimed hr =>
    simp only [next, State.act, State.enter, claimed_card_claim hr]
    simp [due, AwaitsIncrement, AwaitsDecrement, dropped]
    omega
  | refused hr =>
    simp only [next, State.act, State.enter, claimed_card_refused hr]
    simp [due, AwaitsIncrement, AwaitsDecrement, dropped]
  | @released h hr =>
    have hh : h ∈ s.registry.hostnames c := by simpa [Registry.releaseResult] using hr
    simp [next, State.act, State.enter, Registry.next, hh, due, AwaitsIncrement,
      AwaitsDecrement, dropped]
  | @notOwned h hr =>
    have hh : h ∉ s.registry.hostnames c := by simpa [Registry.releaseResult] using hr
    simp [next, State.act, State.enter, Registry.next, hh, due, AwaitsIncrement,
      AwaitsDecrement, dropped]
  | @unclaim h =>
    have hh : h ∈ s.registry.claimedHttpHostnames :=
      own_claimed hi (c := c) (by simp [Registry.holds, Registry.holding, ht, Phase.task])
    have hcard := Finset.card_erase_add_one hh
    simp only [next, State.act, State.enter, Registry.next]
    simp [due, AwaitsIncrement, AwaitsDecrement, dropped]
    omega
  | clear =>
    have hsub : s.registry.hostnames c ⊆ s.registry.claimedHttpHostnames := by
      intro h hh
      exact own_claimed hi (c := c) (by simpa [Registry.holds, Registry.holding, ht, Phase.task])
    have hcard := Finset.card_sdiff_add_card_eq_card hsub
    simp only [next, State.act, State.enter, Registry.next]
    simp [due, AwaitsIncrement, AwaitsDecrement, dropped]
    omega
  | deregister hm =>
    cases hx : s.registry.clients.idxOf? c <;>
      simp [next, State.act, State.enter, Registry.next, hx, due, AwaitsIncrement,
        AwaitsDecrement, dropped]
  | absent hm =>
    simp [next, State.act, State.enter, Registry.next, List.idxOf?_eq_none_iff.mpr hm,
      due, AwaitsIncrement, AwaitsDecrement, dropped]
  | @receive m =>
    have hm : due AwaitsIncrement AwaitsDecrement m.dispatch = 0 := by
      rcases m with _ | (_ | _) | _ | (_ | _) | _ <;> rfl
    have hreading : due AwaitsIncrement AwaitsDecrement .reading = 0 := rfl
    simp [next, State.enter, hm, dropped, hreading]
  | countHostname =>
    simp [next, State.enter, due, AwaitsIncrement, AwaitsDecrement, dropped]
    omega
  | uncountHostname =>
    simp [next, State.enter, due, AwaitsIncrement, AwaitsDecrement, dropped]
    omega
  | _ =>
    simp [next, State.act, State.enter, State.setLoop, Registry.next, due, AwaitsIncrement,
      AwaitsDecrement, dropped]

/-- Once all is done, the gauge is too high by the names that deregistrations dropped. -/
theorem hostname_ledger {w : Bool} {tr : List (State C P × Event C P)} {s : State C P}
    (hr : Run (server w) tr s) :
    Balanced AwaitsIncrement AwaitsDecrement
      (s.httpHostnames - s.registry.claimedHttpHostnames.card - (tr.map dropped).sum) s := by
  refine ledger_of_run (fun s => s.httpHostnames - s.registry.claimedHttpHostnames.card) dropped
    ⟨id, id⟩ rfl ?_ (fun _ _ _ hi he hc => hostname_balance hi he hc) hr
  intro s e hc
  cases e <;> cases hc <;> simp [next, State.setLoop, dropped]

/-! client_connections -/

theorem swapRemove_length {α : Type*} {l : List α} (hl : l ≠ []) (i : ℕ) :
    (Registry.swapRemove l i).length + 1 = l.length := by
  have hpos := List.length_pos_iff.mpr hl
  rw [Registry.swapRemove, List.getLast?_eq_some_getLast hl]
  simp only [List.length_dropLast, List.length_set]
  omega

theorem clients_next (s : State C P) {e : Event C P}
    (hw : ∀ r ∈ e.onRegistry, ¬ HostnameLookup.WritesClients r) :
    (next s e).registry.clients = s.registry.clients := by
  rw [next_registry]
  cases hr : e.onRegistry with
  | none => rfl
  | some r => exact HostnameLookup.clients_kept (hw r hr)

theorem connection_balance {w : Bool} {s : State C P} (hi : Invariant s) {e : Event C P}
    (he : Enabled w s e) {c : C} (hc : e.client = some c) :
    (next s e).clientConnections - (next s e).registry.clients.length +
        due UncountedConnection OvercountedConnection ((next s e).phase c) =
      s.clientConnections - s.registry.clients.length +
        due UncountedConnection OvercountedConnection (s.phase c) := by
  generalize hx : s.phase c = x
  generalize hy : (next s e).phase c = y
  cases hx ▸ hy ▸ phase_step he c with
  | other hd => exact absurd hc hd
  | register =>
    simp [next, State.act, State.enter, Registry.next, due, UncountedConnection,
      OvercountedConnection]
    omega
  | deregister hm =>
    have hlen := swapRemove_length (List.ne_nil_of_mem hm)
    cases hi : s.registry.clients.idxOf? c with
    | none => exact absurd hm (List.idxOf?_eq_none_iff.mp hi)
    | some i =>
      simp only [next, State.act, State.enter, Registry.next, hi]
      simp [due, UncountedConnection, OvercountedConnection]
      have hlen := hlen i
      omega
  | absent hm =>
    have ht := hi.task c
    rw [hx] at ht
    exact absurd (hi.registry.registered ht trivial) hm
  | @receive m =>
    have hm : due UncountedConnection OvercountedConnection m.dispatch = 0 := by
      rcases m with _ | (_ | _) | _ | (_ | _) | _ <;> rfl
    simp [next, State.enter, hm,
      show due UncountedConnection OvercountedConnection .reading = 0 from rfl]
  | counted =>
    simp [next, State.enter, due, UncountedConnection, OvercountedConnection]
    omega
  | uncountConnection =>
    simp [next, State.enter, due, UncountedConnection, OvercountedConnection]
    omega
  | _ =>
    rw [clients_next s (by simp [Event.onRegistry, HostnameLookup.WritesClients])]
    simp [next, State.act, State.enter, State.setLoop, due, UncountedConnection,
      OvercountedConnection]

theorem connection_ledger {w : Bool} {tr : List (State C P × Event C P)} {s : State C P}
    (hr : Run (server w) tr s) :
    Balanced UncountedConnection OvercountedConnection
      (s.clientConnections - s.registry.clients.length) s := by
  have hledger := ledger_of_run (p := UncountedConnection) (q := OvercountedConnection)
    (fun s : State C P => s.clientConnections - s.registry.clients.length) (fun _ => 0)
    ⟨id, id⟩ rfl ?_ (fun _ _ _ hi he hc => by simpa using connection_balance hi he hc) hr
  · simpa using hledger
  · intro s e hc
    cases e <;> cases hc <;> simp [next, State.setLoop]

/-! tcp_ports -/

/-- The accept loop whose task takes a step, or is spawned. -/
def acceptLoop : Event C P → Option P
  | .bind _ p | .accept p | .served p _ | .close p => some p
  | _ => none

inductive LoopStep (p : P) : Event C P → Loop → Loop → Prop where
  | other {e x} : acceptLoop e ≠ some p → LoopStep p e x x
  | bind {c} : LoopStep p (.bind c p) .unborn .listening
  | accept : LoopStep p (.accept p) .listening .serving
  | goesOn : LoopStep p (.served p true) .serving .listening
  | breaks : LoopStep p (.served p false) .serving .broken
  | close : LoopStep p (.close p) .listening .closed

theorem loop_other (s : State C P) {e : Event C P} {p : P} (hp : acceptLoop e ≠ some p) :
    (next s e).loops p = s.loops p := by
  cases e with
  | bind c q =>
    have hne : p ≠ q := by rintro rfl; exact hp rfl
    exact Function.update_of_ne hne _ _
  | accept q =>
    have hne : p ≠ q := by rintro rfl; exact hp rfl
    exact Function.update_of_ne hne _ _
  | served q goesOn =>
    have hne : p ≠ q := by rintro rfl; exact hp rfl
    exact Function.update_of_ne hne _ _
  | close q =>
    have hne : p ≠ q := by rintro rfl; exact hp rfl
    exact Function.update_of_ne hne _ _
  | _ => rfl

theorem loop_step {w : Bool} {s : State C P} {e : Event C P} (he : Enabled w s e) (p : P) :
    LoopStep p e (s.loops p) ((next s e).loops p) := by
  by_cases hp : acceptLoop e = some p
  · obtain ⟨hphase, -⟩ := he
    have before {x y : Loop} (hx : s.loops p = x) (hy : (next s e).loops p = y)
        (hstep : LoopStep p e x y) : LoopStep p e (s.loops p) ((next s e).loops p) := by
      rw [hx, hy]
      exact hstep
    cases e with
    | bind c q =>
      obtain rfl : q = p := Option.some.inj hp
      exact before hphase.2 (Function.update_self ..) .bind
    | accept q =>
      obtain rfl : q = p := Option.some.inj hp
      exact before hphase (Function.update_self ..) .accept
    | served q goesOn =>
      obtain rfl : q = p := Option.some.inj hp
      cases goesOn with
      | true => exact before hphase (Function.update_self ..) .goesOn
      | false => exact before hphase (Function.update_self ..) .breaks
    | close q =>
      obtain rfl : q = p := Option.some.inj hp
      exact before hphase (Function.update_self ..) .close
    | _ => cases hp
  · rw [loop_other s hp]
    exact .other hp

theorem loop_update {s : State C P} {e : Event C P} {p : P} (hp : acceptLoop e = some p) :
    (next s e).loops = Function.update s.loops p ((next s e).loops p) := by
  funext q
  by_cases hq : q = p
  · rw [hq, Function.update_self]
  · rw [Function.update_of_ne hq, loop_other]
    rw [hp]
    exact fun he => hq (Option.some.inj he).symm

theorem port_ledger {w : Bool} {tr : List (State C P × Event C P)} {s : State C P}
    (hr : Run (server w) tr s) :
    ∃ n b : ℕ, Counted (fun p => s.loops p = .listening ∨ s.loops p = .serving) n ∧
      Counted (fun p => s.loops p = .broken) b ∧ s.tcpPorts = n + b := by
  induction hr with
  | refl =>
    refine ⟨0, 0, counted_zero_iff.mpr ?_, counted_zero_iff.mpr ?_, rfl⟩ <;>
      simp [server, initial]
  | @tail tr t e hp he ih =>
    obtain ⟨n, b, hn, hb, hsum⟩ := ih
    simp only [server]
    cases hl : acceptLoop e with
    | none =>
      have hloops : (next t e).loops = t.loops := by
        funext p
        exact loop_other t (by simp [hl])
      rw [hloops]
      refine ⟨n, b, hn, hb, ?_⟩
      cases e <;> cases hl <;> exact hsum
    | some p =>
      obtain ⟨n', hn', hnn⟩ := hn.update (p := fun x => x = .listening ∨ x = .serving) p
        ((next t e).loops p)
      obtain ⟨b', hb', hbb⟩ := hb.update (p := fun x => x = .broken) p ((next t e).loops p)
      rw [← loop_update hl] at hn' hb'
      refine ⟨n', b', hn', hb', ?_⟩
      have hstep := loop_step he p
      generalize t.loops p = x at hstep hnn hbb
      generalize (next t e).loops p = y at hstep hnn hbb
      cases hstep with
      | other hne => exact absurd hl hne
      | bind =>
        simp at hnn hbb
        simp only [next]
        omega
      | accept =>
        simp at hnn hbb
        simp only [next, State.setLoop]
        omega
      | goesOn =>
        simp at hnn hbb
        simp only [next, State.setLoop]
        omega
      | breaks =>
        simp at hnn hbb
        simp only [next, State.setLoop]
        omega
      | close =>
        simp at hnn hbb
        simp only [next]
        omega

theorem broken_step {w : Bool} {s : State C P} {e : Event C P} (he : Enabled w s e) (p : P) :
    (next s e).loops p ≠ .broken ↔ s.loops p ≠ .broken ∧ e ≠ .served p false := by
  generalize hx : s.loops p = x
  generalize hy : (next s e).loops p = y
  cases hx ▸ hy ▸ loop_step he p with
  | other hd =>
    have hne : e ≠ .served p false := by
      rintro rfl
      exact hd rfl
    simp [hne]
  | _ => simp

/-! All three gauges in a quiet state. -/

def Truthful (s : State C P) : Prop :=
  s.httpHostnames = s.registry.claimedHttpHostnames.card ∧
    (∃ n : ℕ, Counted (Listening s) n ∧ s.tcpPorts = n) ∧
    s.clientConnections = s.registry.clients.length

/-- The step drops nothing that a gauge counts, and counts nothing that it keeps out. -/
def Accounted (s : State C P) : Event C P → Prop
  | .clear c => s.registry.hostnames c = ∅
  | .served _ goesOn => goesOn = true
  | .welcome _ sent => sent = true
  | _ => True

instance (s : State C P) (e : Event C P) : Decidable (Accounted s e) :=
  match e with
  | .clear _ | .served _ _ | .welcome _ _ => inferInstanceAs (Decidable (_ = _))
  | .register _ | .countConnection _ | .receive _ _ | .failReceive _ | .claim _ _ | .add _ _
  | .countHostname _ | .release _ _ | .unclaim _ _ | .uncountHostname _ | .bind _ _
  | .failBind _ | .reply _ _ | .handled _ _ | .deregister _ | .lockClaimed _
  | .uncountConnection _ | .accept _ | .close _ => isTrue trivial

theorem quiet_hostnames {w : Bool} {tr : List (State C P × Event C P)} {s : State C P}
    (hr : Run (server w) tr s) (hq : Quiet s) :
    s.httpHostnames = s.registry.claimedHttpHostnames.card ↔ ∀ p ∈ tr, dropped p = 0 := by
  obtain ⟨i, d, hinc, hdec, hsum⟩ := hostname_ledger hr
  have hi : i = 0 := hinc.unique (counted_zero_iff.mpr fun c => by
    rcases hq c with hc | hc | hc | hc <;> simp [hc, AwaitsIncrement])
  have hd : d = 0 := hdec.unique (counted_zero_iff.mpr fun c => by
    rcases hq c with hc | hc | hc | hc <;> simp [hc, AwaitsDecrement])
  have hzero : (tr.map dropped).sum = 0 ↔ ∀ p ∈ tr, dropped p = 0 := by
    rw [List.sum_eq_zero_iff_forall_eq_nat, List.forall_mem_map]
  rw [← hzero]
  omega

theorem quiet_connections {w : Bool} {tr : List (State C P × Event C P)} {s : State C P}
    (hr : Run (server w) tr s) (hq : Quiet s) :
    s.clientConnections = s.registry.clients.length ↔
      ∀ c, ∀ p ∈ tr, p.2 ≠ .welcome c false := by
  obtain ⟨u, o, hu, ho, hsum⟩ := connection_ledger hr
  have ho0 : o = 0 := ho.unique (counted_zero_iff.mpr fun c => by
    rcases hq c with hc | hc | hc | hc <;> simp [hc, OvercountedConnection])
  have hfailed (c : C) : ¬ UncountedConnection (s.phase c) ↔ ∀ p ∈ tr, p.2 ≠ .welcome c false := by
    rw [← not_failed_iff hr]
    rcases hq c with hc | hc | hc | hc <;> simp [hc, UncountedConnection]
  have hnone : u = 0 ↔ ∀ c, ¬ UncountedConnection (s.phase c) := by
    constructor
    · rintro rfl
      exact counted_zero_iff.mp hu
    · intro h
      exact hu.unique (counted_zero_iff.mpr h)
  simp only [← hfailed]
  rw [← hnone]
  omega

theorem quiet_ports {w : Bool} {tr : List (State C P × Event C P)} {s : State C P}
    (hr : Run (server w) tr s) :
    (∃ n : ℕ, Counted (Listening s) n ∧ s.tcpPorts = n) ↔
      ∀ l, ∀ p ∈ tr, p.2 ≠ .served l false := by
  obtain ⟨n, b, hn, hb, hsum⟩ := port_ledger hr
  have hbroken (l : P) : s.loops l ≠ .broken ↔ ∀ p ∈ tr, p.2 ≠ .served l false :=
    Path.last_iff (M := server w) (I := fun _ => True) (P := fun t => t.loops l ≠ .broken)
      (C := fun _ e => e ≠ .served l false) (fun _ _ _ _ => trivial)
      (fun _ _ _ he => broken_step he l) hr trivial (by simp [server, initial])
  simp only [← hbroken]
  constructor
  · rintro ⟨n', hn', htcp⟩
    obtain rfl := hn.unique hn'
    obtain rfl : b = 0 := by omega
    exact counted_zero_iff.mp hb
  · intro h
    obtain rfl : b = 0 := hb.unique (counted_zero_iff.mpr h)
    exact ⟨n, hn, by omega⟩

/-- In a quiet state the gauges tell the truth exactly when every deregistered client had
closed its hostnames, no accept loop was left with break and no welcome message failed. -/
theorem gauges_truthful_iff (sendWelcomeMessage : Bool) {tr : List (State C P × Event C P)}
    {s : State C P} (hr : Run (server sendWelcomeMessage) tr s) (hq : Quiet s) :
    Truthful s ↔ ∀ p ∈ tr, Accounted p.1 p.2 := by
  rw [Truthful, quiet_hostnames hr hq, quiet_ports hr, quiet_connections hr hq]
  constructor
  · rintro ⟨hdrop, hserved, hwelcome⟩ ⟨t, e⟩ hp
    cases e with
    | clear c => exact Finset.card_eq_zero.mp (hdrop _ hp)
    | served l goesOn =>
      cases goesOn with
      | true => rfl
      | false => exact absurd rfl (hserved l _ hp)
    | welcome c sent =>
      cases sent with
      | true => rfl
      | false => exact absurd rfl (hwelcome c _ hp)
    | _ => trivial
  · intro h
    refine ⟨?_, ?_, ?_⟩
    · rintro ⟨t, e⟩ hp
      have ha := h _ hp
      cases e with
      | clear c => exact Finset.card_eq_zero.mpr ha
      | _ => rfl
    · rintro l ⟨t, e⟩ hp rfl
      exact absurd (h _ hp) Bool.false_ne_true
    · rintro c ⟨t, e⟩ hp rfl
      exact absurd (h _ hp) Bool.false_ne_true

def tidy : List (Event Bool Unit) :=
  [.register false, .welcome false true, .countConnection false,
    .receive false (.httpOpen (.ok "something.localhost")), .claim false "something.localhost",
    .add false "something.localhost", .countHostname false, .reply false true,
    .receive false (.httpClose "something.localhost"), .release false "something.localhost",
    .unclaim false "something.localhost", .uncountHostname false, .reply false true,
    .failReceive false, .deregister false, .lockClaimed false, .clear false,
    .uncountConnection false]

theorem gauges_truthful_tidy : Truthful (replay (server true) initial tidy) := by
  have accepted : Accepts (server true) initial tidy := by decide
  have quiet : Quiet (replay (server true) initial tidy) := by
    unfold Quiet
    decide
  refine (gauges_truthful_iff true (path_of_accepts accepted) quiet).mpr ?_
  decide

/-- The connection of a client breaks with a hostname and a port open, whose loop is left when it
cannot announce a connection; the welcome message of another client fails. -/
def untidy : List (Event Bool Unit) :=
  [.register false, .welcome false true, .countConnection false,
    .receive false (.httpOpen (.ok "something.localhost")), .claim false "something.localhost",
    .add false "something.localhost", .countHostname false, .reply false true,
    .receive false (.portOpen true), .bind false (), .reply false true, .accept (),
    .served () false, .failReceive false, .deregister false, .lockClaimed false, .clear false,
    .uncountConnection false, .register true, .welcome true false]

theorem gauges_lie : ∃ tr s, Run (server (C := Bool) (P := Unit) true) tr s ∧ Quiet s ∧
    s.httpHostnames ≠ s.registry.claimedHttpHostnames.card ∧
    (∀ n : ℕ, Counted (Listening s) n → s.tcpPorts ≠ n) ∧
    s.clientConnections ≠ s.registry.clients.length := by
  have accepted : Accepts (server true) initial untidy := by decide
  have quiet : Quiet (replay (server true) initial untidy) := by
    unfold Quiet
    decide
  refine ⟨_, _, path_of_accepts accepted, quiet, by decide, ?_, by decide⟩
  intro n hn
  have hnone : Counted (Listening (replay (server true) initial untidy)) 0 :=
    counted_zero_iff.mpr (by decide)
  rw [hn.unique hnone]
  decide

end Gauges
