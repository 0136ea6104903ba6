import Mathlib.Tactic.Ring
import Nport.TlsCoverage

/-! The task of run_https that keeps the certificates: it calls Store::update, sleeps for an
hour, and starts again. Round n of the loop is call n of renew. -/
namespace CertUpdater

open GuardedMachine
open PortTask (Bytes)
open CertStore
open Renewal
open TlsCoverage
open PortOpen (Hostnames)
open HttpOpen (CaseData)
open HostRouting (Grantable)

/-! Each certificate is asked for again only when it has become due. -/

section Grants

variable {I K : Type*} [DecidableEq I] {lib : CertLib K} {s : State I K} {validity : Time}
  {item : Item}

def Loadable (lib : CertLib K) : Event I → Prop
  | .granted _ privateKeyDer _ => (lib.anySupportedType privateKeyDer).isSome
  | _ => True

/-- What is known of an item whose certificate is to last until a time. -/
structure Kept (lib : CertLib K) (s : State I K) (time : Time) (item : Item) : Prop where
  valid : ValidUntil lib s.store time item
  requested : ∀ i, s.task i = .requesting item → time < s.now + minimumCertRenewDuration

theorem requesting_cases {e : Event I} (he : Enabled s e) {i : I}
    (h : (next lib s e).task i = .requesting item) :
    s.task i = .requesting item ∨ s.due lib item = true := by
  by_cases hi : caller e = some i
  · have hne {t : Task} (ht : t ≠ .requesting item) :
        Function.update s.task i t i ≠ .requesting item := by simpa using ht
    have advanced {u : State I K} {other : Item} :
        (u.advance i other).task i ≠ .requesting item := by
      cases other <;> simp [State.advance]
    cases e with
    | tick now => cases hi
    | lock j =>
      obtain rfl := Option.some.inj hi
      exact absurd h (hne (by simp))
    | refused j =>
      obtain rfl := Option.some.inj hi
      exact absurd h (hne (by simp))
    | check j =>
      obtain rfl := Option.some.inj hi
      obtain ⟨other, ht⟩ := he
      simp only [next, ht] at h
      split at h
      · exact absurd h (hne (by simp))
      · cases other with
        | root => exact absurd h (hne (by simp))
        | wildcard => exact absurd h (hne (by simp))
    | recheck j =>
      obtain rfl := Option.some.inj hi
      obtain ⟨other, ht⟩ := he
      simp only [next, ht] at h
      split at h
      · next hdue =>
        obtain rfl : other = item := by simpa using h
        exact Or.inr hdue
      · exact absurd h advanced
    | granted j =>
      obtain rfl := Option.some.inj hi
      obtain ⟨other, ht⟩ := he
      simp only [next, ht] at h
      split at h
      · exact absurd h advanced
      · exact absurd h (hne (by simp))
  · rw [task_other he hi] at h
    exact Or.inl h

omit [DecidableEq I] in
theorem ValidUntil.lt_of_due {time : Time} (h : ValidUntil lib s.store time item)
    (hdue : s.due lib item = true) : time < s.now + minimumCertRenewDuration := by
  obtain ⟨cert, expiration, hcert, hexp, hle⟩ := h
  simp only [State.due, Store.shouldRenewCert, hcert, hexp, decide_eq_true_eq] at hdue
  exact Int.lt_of_le_of_lt hle hdue

theorem Kept.next {time : Time} (h : Kept lib s time item) {e : Event I} (he : Enabled s e)
    (hlong : LongLived lib validity s e) (htime : time ≤ s.now + validity) :
    Kept lib (next lib s e) time item where
  valid := next_validUntil hlong htime h.valid
  requested i hi := by
    have hlt : time < s.now + minimumCertRenewDuration := by
      rcases requesting_cases he hi with hbefore | hdue
      · exact h.requested i hbefore
      · exact ValidUntil.lt_of_due h.valid hdue
    exact Int.lt_of_lt_of_le hlt (Int.add_le_add_right (Challenges.now_next lib he) _)

/-- A certificate whose key can be loaded is added. -/
theorem next_granted_eq {i : I} {privateKeyDer certificateDer : Bytes}
    (hi : s.task i = .requesting item) {key : K}
    (hkey : lib.anySupportedType privateKeyDer = some key) :
    next lib s (.granted i privateKeyDer certificateDer) =
      State.advance { s with
        store := { s.store with
          certs := Function.update s.store.certs (item.domain s.store)
            (some ⟨certificateDer, key⟩) } } i item := by
  simp only [next, hi, Store.add, hkey, Option.map_some]

theorem not_requesting_granted (hheld : Challenges.Held s) {i : I}
    {privateKeyDer certificateDer : Bytes} (hi : s.task i = .requesting item) {key : K}
    (hkey : lib.anySupportedType privateKeyDer = some key) (j : I) :
    (next lib s (.granted i privateKeyDer certificateDer)).task j ≠ .requesting item := by
  rw [next_granted_eq hi hkey]
  intro hj
  by_cases hji : j = i
  · subst j
    cases item <;> simp [State.advance] at hj
  · rw [task_advance hji] at hj
    have hlock := hheld i (by rw [hi]; rfl)
    rw [hheld j (by rw [hj]; rfl)] at hlock
    exact hji (Option.some.inj hlock)

theorem kept_granted (hheld : Challenges.Held s) {i : I} {privateKeyDer certificateDer : Bytes}
    (hi : s.task i = .requesting item)
    (hlong : LongLived lib validity s (.granted i privateKeyDer certificateDer))
    (hkey : Loadable lib (.granted i privateKeyDer certificateDer : Event I)) :
    Kept lib (next lib s (.granted i privateKeyDer certificateDer)) (s.now + validity) item := by
  obtain ⟨expiration, hexp, hlater⟩ := hlong
  obtain ⟨key, hkey⟩ := Option.isSome_iff_exists.mp hkey
  have hadd : s.store.add lib (item.domain s.store) privateKeyDer certificateDer =
      some { s.store with
        certs := Function.update s.store.certs (item.domain s.store)
          (some ⟨certificateDer, key⟩) } := by
    rw [Store.add, hkey, Option.map_some]
  constructor
  · rw [next_granted_eq hi hkey, store_advance]
    exact validUntil_add hadd hexp hlater (Or.inl rfl)
  · intro j hj
    exact absurd hj (not_requesting_granted hheld hi hkey j)

/-- Certificates that are valid for so long when they are granted are granted that much apart,
less the 30 days; for any number of calls of renew, in any order. -/
theorem grants_apart (lib : CertLib K) (store : Store K) (now : Time) {validity : Time}
    {tr : List (State I K × Event I)} (h : Run (renewal lib store now) tr s)
    (hlong : ∀ p ∈ tr, LongLived lib validity p.1 p.2) (hkeys : ∀ p ∈ tr, Loadable lib p.2)
    (item : Item) :
    Each (fun earlier p => ∀ q ∈ earlier, grants item q → grants item p →
      q.1.now + validity < p.1.now + minimumCertRenewDuration) tr := by
  suffices hall : Each (fun earlier p => ∀ q ∈ earlier, grants item q → grants item p →
      q.1.now + validity < p.1.now + minimumCertRenewDuration) tr ∧
      Challenges.Held s ∧ ∀ q ∈ tr, grants item q → q.1.now ≤ s.now ∧
        Kept lib s (q.1.now + validity) item from hall.1
  have of_grants {p : State I K × Event I} (hp : grants item p) : ∃ i privateKeyDer certificateDer,
      p.2 = .granted i privateKeyDer certificateDer ∧ p.1.task i = .requesting item := by
    obtain ⟨u, e⟩ := p
    cases e with
    | granted i privateKeyDer certificateDer =>
      exact ⟨i, privateKeyDer, certificateDer, rfl, by simpa [grants] using hp⟩
    | _ => simp [grants] at hp
  induction h with
  | refl => exact ⟨each_nil, fun i hi => by simp [renewal, Task.inside] at hi, by simp⟩
  | @tail tr u e _ he ih =>
    obtain ⟨heach, hheld, hkept⟩ := ih (fun p hp => hlong p (List.mem_append_left _ hp))
      fun p hp => hkeys p (List.mem_append_left _ hp)
    have hl : LongLived lib validity u e := hlong (u, e) (by simp)
    have hk : Loadable lib e := hkeys (u, e) (by simp)
    refine ⟨each_concat.mpr ⟨heach, ?_⟩, hheld.next lib he, ?_⟩
    · intro q hq hgq hgp
      obtain ⟨i, _, _, _, hi⟩ := of_grants hgp
      exact (hkept q hq hgq).2.requested i hi
    · intro q hq hgq
      have hnow := Challenges.now_next lib he
      rcases List.mem_append.mp hq with hq | hq
      · obtain ⟨hle, hold⟩ := hkept q hq hgq
        exact ⟨Int.le_trans hle hnow, hold.next he hl (Int.add_le_add_right hle _)⟩
      · obtain rfl : q = (u, e) := by simpa using hq
        obtain ⟨i, privateKeyDer, certificateDer, rfl, hi⟩ := of_grants hgq
        exact ⟨hnow, kept_granted hheld hi hl hk⟩

end Grants

def anotherCall : List (Renewal.Event Bool) :=
  twoCalls ++ [.tick (61 * day), .lock true, .recheck true, .granted true [] [151]]

def twoMonthsLater : Renewal.State Bool Unit :=
  replay emptyRenewal emptyRenewal.initial (twoCalls ++ [.tick (61 * day), .lock true])

theorem twoMonthsLater_due : twoMonthsLater.due byteCerts .root = true := by
  have hcert : twoMonthsLater.store.certs (Item.root.domain twoMonthsLater.store) =
      some ⟨[90], ()⟩ := rfl
  simp only [State.due, Store.shouldRenewCert, hcert, certExpiration_byte]
  decide

theorem anotherCall_accepted : Accepts emptyRenewal emptyRenewal.initial anotherCall := by
  have hrequest : (Renewal.next byteCerts twoMonthsLater (.recheck true)).task true =
      .requesting .root := by
    have ht : twoMonthsLater.task true = .holding .root := rfl
    simp only [Renewal.next, ht, twoMonthsLater_due, if_true, Function.update_self]
  have later : (0 : Time) ≤ 61 * day := by decide
  exact ⟨⟨.root, rfl⟩, ⟨.root, rfl⟩, ⟨rfl, rfl⟩, ⟨.root, rfl⟩, ⟨.root, rfl⟩, ⟨.wildcard, rfl⟩,
    ⟨.wildcard, rfl⟩, later, ⟨rfl, rfl⟩, ⟨.root, rfl⟩, ⟨.root, hrequest⟩, trivial⟩

theorem grants_apart_two_months :
    Each (fun earlier p => ∀ q ∈ earlier, grants .root q → grants .root p →
      q.1.now + 90 * day < p.1.now + minimumCertRenewDuration)
      (trace emptyRenewal emptyRenewal.initial anotherCall) := by
  have hrun : Run emptyRenewal _ _ := path_of_accepts anotherCall_accepted
  have hsteps : ∀ p ∈ trace emptyRenewal emptyRenewal.initial anotherCall,
      LongLived byteCerts (90 * day) p.1 p.2 ∧ Loadable byteCerts p.2 := by
    have hgranted (t : Renewal.State Bool Unit) (i : Bool) (b : UInt8)
        (hb : t.now + 90 * day ≤ b.toNat * day) :
        LongLived byteCerts (90 * day) t (.granted i [] [b]) ∧
          Loadable byteCerts (.granted i [] [b]) :=
      ⟨⟨b.toNat * day, certExpiration_byte b, hb⟩, rfl⟩
    intro p hp
    simp only [anotherCall, twoCalls, List.cons_append, List.nil_append, trace, List.mem_cons,
      List.not_mem_nil, or_false] at hp
    rcases hp with rfl | rfl | rfl | rfl | rfl | rfl | rfl | rfl | rfl | rfl | rfl
    · exact ⟨trivial, trivial⟩
    · exact ⟨trivial, trivial⟩
    · exact ⟨trivial, trivial⟩
    · exact ⟨trivial, trivial⟩
    · exact hgranted _ _ _ (by decide)
    · exact ⟨trivial, trivial⟩
    · exact hgranted _ _ _ (by decide)
    · exact ⟨trivial, trivial⟩
    · exact ⟨trivial, trivial⟩
    · exact ⟨trivial, trivial⟩
    · refine hgranted _ _ _ ?_
      change (Renewal.next byteCerts twoMonthsLater (.recheck true)).now + _ ≤ _
      rw [Challenges.now_kept byteCerts (by simp)]
      decide
  exact grants_apart byteCerts emptyStore 0 hrun (fun p hp => (hsteps p hp).1)
    (fun p hp => (hsteps p hp).2) .root

/-! The loop. -/

def hour : Time := 3600 * 1000000000

inductive Phase where
  /-- in cert_store.update() -/
  | updating
  | sleeping (wake : Time)
  deriving DecidableEq, Repr

/-- The last three fields keep record of the rounds: when the round began, how many updates have
failed since the last one that did not, and when that one began. -/
structure State (K : Type*) where
  renewal : Renewal.State ℕ K
  round : ℕ
  phase : Phase
  started : Time
  failures : ℕ
  succeeded : Option Time

inductive Event where
  /-- A step of update, or time. -/
  | renewal (e : Renewal.Event ℕ)
  /-- update returns; an error is logged. -/
  | updated
  | wake
  deriving DecidableEq, Repr

variable {K : Type*}

/-- An update that panics is the last: the round stays what it is. -/
def Enabled (s : State K) : Event → Prop
  | .renewal e => Renewal.Enabled s.renewal e ∧
      ∀ i, caller e = some i → i = s.round ∧ s.phase = .updating
  | .updated => s.phase = .updating ∧ ∃ found ok, s.renewal.task s.round = .returned found ok
  | .wake => ∃ time, s.phase = .sleeping time ∧ time ≤ s.renewal.now

def next (lib : CertLib K) (s : State K) : Event → State K
  | .renewal e => { s with renewal := Renewal.next lib s.renewal e }
  | .updated =>
    let asleep := { s with phase := .sleeping (s.renewal.now + hour) }
    match s.renewal.task s.round with
    | .returned _ true => { asleep with failures := 0, succeeded := some s.started }
    | _ => { asleep with failures := s.failures + 1 }
  | .wake => { s with round := s.round + 1, phase := .updating, started := s.renewal.now }

def updater (lib : CertLib K) (store : Store K) (now : Time) : Machine (State K) Event :=
  ⟨⟨(renewal lib store now).initial, 0, .updating, now, 0, none⟩, Enabled, next lib⟩

def Lasting (lib : CertLib K) (validity : Time) (s : State K) : Event → Prop
  | .renewal e => LongLived lib validity s.renewal e
  | _ => True

/-- How many rounds have begun since the one that succeeded last. -/
def State.since (s : State K) : ℕ :=
  match s.phase with
  | .updating => s.failures + 1
  | .sleeping _ => s.failures

structure Invariant (lib : CertLib K) (period : Time) (s : State K) : Prop where
  begun : s.started ≤ s.renewal.now
  fresh : ∀ n, s.round < n → s.renewal.task n = .checking .root
  seen : SeenTo lib s.renewal.store (s.started + minimumCertRenewDuration)
    (s.renewal.task s.round)
  valid : ∀ time, s.succeeded = some time →
    ∀ item, ValidUntil lib s.renewal.store (time + minimumCertRenewDuration) item
  recent : ∀ time, s.succeeded = some time →
    time ≤ s.started ∧ s.started ≤ time + s.since * period

section Step

variable {lib : CertLib K} {period : Time} {s : State K}

theorem renewal_invariant {e : Renewal.Event ℕ} (h : Invariant lib period s)
    (he : Enabled s (.renewal e)) (hlong : LongLived lib minimumCertRenewDuration s.renewal e) :
    Invariant lib period (next lib s (.renewal e)) where
  begun := Int.le_trans h.begun (Challenges.now_next lib he.1)
  fresh n hn := by
    have hother : caller e ≠ some n := by
      intro hcaller
      exact Nat.ne_of_gt hn (he.2 n hcaller).1
    rw [← h.fresh n hn]
    exact task_other he.1 hother
  seen := next_seenTo he.1 hlong (Int.add_le_add_right h.begun _) h.seen
  valid time htime item :=
    next_validUntil hlong
      (Int.add_le_add_right (Int.le_trans (h.recent time htime).1 h.begun) _)
      (h.valid time htime item)
  recent := h.recent

theorem updated_invariant (h : Invariant lib period s) (he : Enabled s .updated) :
    Invariant lib period (next lib s .updated) := by
  obtain ⟨hphase, found, ok, htask⟩ := he
  cases ok with
  | true =>
    have hboth : ∀ item, ValidUntil lib s.renewal.store (s.started + minimumCertRenewDuration)
        item := by
      have hseen := h.seen
      rw [htask] at hseen
      exact hseen
    simp only [next, htask]
    refine ⟨h.begun, h.fresh, h.seen, ?_, ?_⟩
    · intro time htime item
      obtain rfl := Option.some.inj htime
      exact hboth item
    · intro time htime
      obtain rfl := Option.some.inj htime
      exact ⟨Int.le_refl _, by simp [State.since]⟩
  | false =>
    simp only [next, htask]
    refine ⟨h.begun, h.fresh, h.seen, h.valid, ?_⟩
    intro time htime
    have hrecent := h.recent time htime
    rw [State.since, hphase] at hrecent
    exact hrecent

theorem wake_invariant (h : Invariant lib period s) (he : Enabled s .wake)
    (hperiod : s.renewal.now ≤ s.started + period) :
    Invariant lib period (next lib s .wake) where
  begun := Int.le_refl _
  fresh n hn := h.fresh n (Nat.lt_of_succ_lt hn)
  seen := by
    have hnew : s.renewal.task (s.round + 1) = .checking .root := h.fresh _ (Nat.lt_succ_self _)
    simp only [next, hnew]
    trivial
  valid := h.valid
  recent time htime := by
    obtain ⟨wake, hphase, _⟩ := he
    obtain ⟨hle, hsince⟩ := h.recent time htime
    refine ⟨Int.le_trans hle h.begun, ?_⟩
    rw [State.since, hphase] at hsince
    calc s.renewal.now ≤ s.started + period := hperiod
      _ ≤ time + s.failures * period + period := Int.add_le_add_right hsince _
      _ = time + ↑(s.failures + 1) * period := by push_cast; ring

theorem step_invariant {e : Event} (h : Invariant lib period s) (he : Enabled s e)
    (hlong : Lasting lib minimumCertRenewDuration s e)
    (hperiod : s.renewal.now ≤ s.started + period) : Invariant lib period (next lib s e) := by
  cases e with
  | renewal e => exact renewal_invariant h he hlong
  | updated => exact updated_invariant h he
  | wake => exact wake_invariant h he hperiod

theorem initial_invariant (store : Store K) (now : Time) :
    Invariant lib period (updater lib store now).initial where
  begun := Int.le_refl _
  fresh _ _ := rfl
  seen := trivial
  valid := by rintro _ ⟨⟩
  recent := by rintro _ ⟨⟩

end Step

end CertUpdater
