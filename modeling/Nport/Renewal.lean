import Nport.CertStore
import Nport.GuardedMachine

/-! Any number of calls of Store::renew at once. A call looks at both certificates without
the lock, takes the lock, and looks again before each request to the generator. A step is what
happens between two awaits, or between two readings of the map. -/
namespace Renewal

open GuardedMachine
open PortTask (Bytes)
open CertStore

inductive Item where
  | root
  | wildcard
  deriving DecidableEq, Repr

/-- Where a call stands. found is what should_renew returned. -/
inductive Task where
  /-- before should_renew reads the certificate of the item -/
  | checking (item : Item)
  /-- renewal_lock.lock() -/
  | waiting
  /-- in the loop with the guard, before should_renew_cert -/
  | holding (item : Item)
  /-- generator.request(domain) -/
  | requesting (item : Item)
  | returned (found ok : Bool)
  | panicked
  deriving DecidableEq, Repr

structure State (I K : Type*) where
  store : Store K
  renewalLock : Option I
  task : I → Task
  now : Time

inductive Event (I : Type*) where
  | check (i : I)
  | lock (i : I)
  | recheck (i : I)
  /-- The generator returns a certificate, and update_cert adds it. -/
  | granted (i : I) (privateKeyDer certificateDer : Bytes)
  | refused (i : I)
  | tick (now : Time)
  deriving DecidableEq, Repr

variable {I K : Type*} [DecidableEq I]

def Item.domain (store : Store K) : Item → String
  | .root => store.rootDomain
  | .wildcard => store.wildcardDomain

omit [DecidableEq I] in
def State.due (lib : CertLib K) (s : State I K) (item : Item) : Bool :=
  s.store.shouldRenewCert lib s.now (item.domain s.store)

/-- After the body of the loop for an item. -/
def State.advance (s : State I K) (i : I) : Item → State I K
  | .root => { s with task := Function.update s.task i (.holding .wildcard) }
  | .wildcard =>
    { s with
      task := Function.update s.task i (.returned true true)
      renewalLock := none }

def Enabled (s : State I K) : Event I → Prop
  | .check i => ∃ item, s.task i = .checking item
  | .lock i => s.task i = .waiting ∧ s.renewalLock = none
  | .recheck i => ∃ item, s.task i = .holding item
  | .granted i _ _ | .refused i => ∃ item, s.task i = .requesting item
  | .tick now => s.now ≤ now

def next (lib : CertLib K) (s : State I K) : Event I → State I K
  | .check i =>
    match s.task i with
    | .checking item =>
      if s.due lib item then { s with task := Function.update s.task i .waiting }
      else
        match item with
        | .root => { s with task := Function.update s.task i (.checking .wildcard) }
        | .wildcard => { s with task := Function.update s.task i (.returned false true) }
    | _ => s
  | .lock i =>
    { s with task := Function.update s.task i (.holding .root), renewalLock := some i }
  | .recheck i =>
    match s.task i with
    | .holding item =>
      if s.due lib item then { s with task := Function.update s.task i (.requesting item) }
      else s.advance i item
    | _ => s
  | .granted i privateKeyDer certificateDer =>
    match s.task i with
    | .requesting item =>
      match s.store.add lib (item.domain s.store) privateKeyDer certificateDer with
      | some store => { s with store := store }.advance i item
      | none =>
        { s with task := Function.update s.task i .panicked, renewalLock := none }
    | _ => s
  | .refused i =>
    { s with task := Function.update s.task i (.returned true false), renewalLock := none }
  | .tick now => { s with now := now }

def renewal (lib : CertLib K) (store : Store K) (now : Time) : Machine (State I K) (Event I) :=
  ⟨⟨store, none, fun _ => .checking .root, now⟩, Enabled, next lib⟩

def Task.inside : Task → Bool
  | .holding _ | .requesting _ => true
  | _ => false

def grants (item : Item) (p : State I K × Event I) : Bool :=
  match p.2 with
  | .granted i _ _ => decide (p.1.task i = .requesting item)
  | _ => false

/-- A certificate of the generator is valid for more than 30 days and comes with a key that can
be loaded; none of the store's comes within 30 days of its expiry. -/
def Assumed (lib : CertLib K) (s : State I K) : Event I → Prop
  | .granted _ privateKeyDer certificateDer =>
    (∃ expiration, certExpiration lib certificateDer = .ok expiration ∧
      s.now + minimumCertRenewDuration < expiration) ∧
      (lib.anySupportedType privateKeyDer).isSome
  | .tick now => ∀ item, s.due lib item = false → { s with now := now }.due lib item = false
  | _ => True

/-! What makes a certificate due, and what does not. -/

section Due

variable {lib : CertLib K} {s : State I K}

omit [DecidableEq I]

theorem root_ne_wildcard (store : Store K) : store.rootDomain ≠ store.wildcardDomain := by
  intro h
  have hlen := congrArg (fun s : String => s.toList.length) h
  simp [Store.rootDomain, Store.wildcardDomain] at hlen
  omega

theorem domain_inj {store : Store K} {item item' : Item}
    (h : item.domain store = item'.domain store) : item = item' := by
  cases item <;> cases item'
  · rfl
  · exact absurd h (root_ne_wildcard store)
  · exact absurd h.symm (root_ne_wildcard store)
  · rfl

theorem due_add_other {item other : Item} {privateKeyDer certificateDer : Bytes}
    {store : Store K}
    (hadd : s.store.add lib (item.domain s.store) privateKeyDer certificateDer = some store)
    (hne : other ≠ item) : { s with store := store }.due lib other = s.due lib other := by
  obtain ⟨key, _, rfl⟩ := Option.map_eq_some_iff.mp hadd
  have hdomain : other.domain s.store ≠ item.domain s.store := fun h => hne (domain_inj h)
  have hsame (certs : String → Option (CertifiedKey K)) :
      other.domain { s.store with certs := certs } = other.domain s.store := by
    cases other <;> rfl
  simp only [State.due, Store.shouldRenewCert, hsame, Function.update_of_ne hdomain]

theorem not_due_add {item : Item} {privateKeyDer certificateDer : Bytes} {store : Store K}
    {expiration : Time}
    (hadd : s.store.add lib (item.domain s.store) privateKeyDer certificateDer = some store)
    (hcert : certExpiration lib certificateDer = .ok expiration)
    (hvalid : s.now + minimumCertRenewDuration < expiration) :
    { s with store := store }.due lib item = false := by
  obtain ⟨key, _, rfl⟩ := Option.map_eq_some_iff.mp hadd
  have hsame (certs : String → Option (CertifiedKey K)) :
      item.domain { s.store with certs := certs } = item.domain s.store := by
    cases item <;> rfl
  simp only [State.due, Store.shouldRenewCert, hsame, Function.update_self, hcert,
    decide_eq_false_iff_not]
  exact Int.not_lt.mpr (Int.le_of_lt hvalid)

theorem due_tick {item : Item} {now : Time} (hle : s.now ≤ now)
    (hdue : s.due lib item = true) : { s with now := now }.due lib item = true := by
  simp only [State.due, Store.shouldRenewCert] at hdue ⊢
  cases hcert : s.store.certs (item.domain s.store) with
  | none => rfl
  | some cert =>
    rw [hcert] at hdue
    cases hexp : certExpiration lib cert.cert with
    | error err => simp [hexp]
    | ok expiration =>
      simp only [hexp, decide_eq_true_eq] at hdue ⊢
      exact Int.lt_of_lt_of_le hdue (Int.add_le_add_right hle _)

theorem due_congr {u : State I K} (hstore : u.store = s.store) (hnow : u.now = s.now)
    (item : Item) : u.due lib item = s.due lib item := by
  rw [State.due, State.due, hstore, hnow]

end Due

/-- What a call finds before it takes the lock is should_renew, if nothing else happens then. -/
theorem checks_shouldRenew {lib : CertLib K} {store : Store K} {now : Time} {s : State I K} {i : I}
    (h : s.task i = .checking .root) :
    ∃ tr t, Path (renewal lib store now) s tr t ∧ (∀ p ∈ tr, p.2 = .check i) ∧
      t.task i = if s.store.shouldRenew lib s.now then .waiting else .returned false true := by
  have step {u : State I K} {item : Item} (hu : u.task i = .checking item) :
      Path (renewal lib store now) u [(u, .check i)] (next lib u (.check i)) :=
    .tail .refl ⟨item, hu⟩
  cases hroot : s.due lib .root with
  | true =>
    have hdue : s.store.shouldRenew lib s.now = true := by
      rw [Store.shouldRenew, Bool.or_eq_true]
      exact Or.inl hroot
    refine ⟨_, _, step h, by simp, ?_⟩
    simp [next, h, hroot, hdue]
  | false =>
    have hfound : s.store.shouldRenew lib s.now = s.due lib .wildcard := by
      have hroot : s.store.shouldRenewCert lib s.now s.store.rootDomain = false := hroot
      rw [Store.shouldRenew, hroot, Bool.false_or]
      rfl
    have hnext : next lib s (.check i) =
        { s with task := Function.update s.task i (.checking .wildcard) } := by
      simp [next, h, hroot]
    have hsecond : (next lib s (.check i)).task i = .checking .wildcard := by simp [hnext]
    have hsame : (next lib s (.check i)).due lib .wildcard = s.due lib .wildcard :=
      due_congr (by rw [hnext]) (by rw [hnext]) _
    refine ⟨_, _, (step h).trans (step hsecond), by simp, ?_⟩
    rw [hfound]
    generalize next lib s (.check i) = u at hsecond hsame ⊢
    cases hwildcard : s.due lib .wildcard <;> simp [next, hsecond, hsame, hwildcard]

/-! What holds of each call. -/

structure Fits (lib : CertLib K) (s : State I K) (i : I) (t : Task) : Prop where
  inside : t.inside = true → s.renewalLock = some i
  requested : ∀ item, t = .requesting item → s.due lib item = true
  past_root : t = .holding .wildcard ∨ t = .requesting .wildcard → s.due lib .root = false
  finished : t = .returned true true → ∀ item, s.due lib item = false

def Invariant (lib : CertLib K) (s : State I K) : Prop := ∀ i, Fits lib s i (s.task i)

structure Moves (lib : CertLib K) (s : State I K) (i : I) (u : State I K) : Prop where
  task : ∀ j, j ≠ i → u.task j = s.task j
  lock : u.renewalLock = s.renewalLock ∨ s.renewalLock = none ∨ (s.task i).inside = true
  due : (∀ item, u.due lib item = s.due lib item) ∨
    ∃ item, s.task i = .requesting item ∧ u.due lib item = false ∧
      ∀ other, other ≠ item → u.due lib other = s.due lib other
  own : Fits lib u i (u.task i)

variable {lib : CertLib K} {s : State I K}

omit [DecidableEq I] in
theorem Moves.not_due {i : I} {u : State I K} (h : Moves lib s i u) {item : Item}
    (hdue : s.due lib item = false) : u.due lib item = false := by
  rcases h.due with hsame | ⟨granted, _, hnot, hother⟩
  · rw [hsame, hdue]
  · by_cases heq : item = granted
    · rw [heq, hnot]
    · rw [hother item heq, hdue]

omit [DecidableEq I] in
theorem Moves.invariant {i : I} {u : State I K} (h : Moves lib s i u) (hs : Invariant lib s) :
    Invariant lib u := by
  intro j
  by_cases hj : j = i
  · rw [hj]
    exact h.own
  · obtain ⟨hinside, hrequested, hpast, hfinished⟩ := hs j
    -- no two calls are inside at once
    have halone : (s.task j).inside = true → (s.task i).inside ≠ true := by
      intro hin hin'
      have hlock := (hinside hin).symm.trans ((hs i).inside hin')
      exact hj (Option.some.inj hlock)
    rw [h.task j hj]
    refine ⟨?_, ?_, fun ht => h.not_due (hpast ht), fun ht item => h.not_due (hfinished ht item)⟩
    · intro hin
      rcases h.lock with hsame | hnone | hin'
      · rw [hsame, hinside hin]
      · rw [hinside hin] at hnone
        cases hnone
      · exact absurd hin' (halone hin)
    · intro item ht
      rcases h.due with hsame | ⟨granted, hgranted, _⟩
      · rw [hsame, hrequested item ht]
      · refine absurd ?_ (halone (by rw [ht]; rfl))
        rw [hgranted]
        rfl

theorem moves_set {i : I} {t : Task} {lock : Option I}
    (hlock : lock = s.renewalLock ∨ s.renewalLock = none ∨ (s.task i).inside = true)
    (hown : Fits lib { s with renewalLock := lock } i t) :
    Moves lib s i { s with task := Function.update s.task i t, renewalLock := lock } where
  task j hj := Function.update_of_ne hj _ _
  lock := hlock
  due := Or.inl fun item => due_congr rfl rfl item
  own := by
    obtain ⟨hinside, hrequested, hpast, hfinished⟩ := hown
    simp only [Function.update_self]
    exact ⟨hinside, hrequested, hpast, hfinished⟩

theorem moves_advance {i : I} {item : Item} (hlock : s.renewalLock = some i)
    (hinside : (s.task i).inside = true) (hitem : s.due lib item = false)
    (hpast : item = .wildcard → s.due lib .root = false) :
    Moves lib s i (s.advance i item) := by
  cases item with
  | root =>
    refine moves_set (Or.inl rfl) ⟨fun _ => hlock, ?_, fun _ => hitem, ?_⟩
    · rintro _ ⟨⟩
    · rintro ⟨⟩
  | wildcard =>
    refine moves_set (Or.inr (Or.inr hinside)) ⟨?_, ?_, ?_, ?_⟩
    · rintro ⟨⟩
    · rintro _ ⟨⟩
    · rintro (⟨⟨⟩⟩ | ⟨⟨⟩⟩)
    · rintro _ (_ | _)
      · exact hpast rfl
      · exact hitem

omit [DecidableEq I] in
theorem fits_outside {i : I} {t : Task} (hinside : t.inside = false)
    (ht : t ≠ .returned true true) : Fits lib s i t where
  inside hin := by
    rw [hinside] at hin
    cases hin
  requested item hr := by
    rw [hr] at hinside
    cases hinside
  past_root hp := by
    rcases hp with hp | hp
    · rw [hp] at hinside
      cases hinside
    · rw [hp] at hinside
      cases hinside
  finished hf := absurd hf ht

theorem moves_check {i : I} (he : Enabled s (.check i)) :
    Moves lib s i (next lib s (.check i)) := by
  obtain ⟨item, hi⟩ := he
  simp only [next, hi]
  split
  · exact moves_set (Or.inl rfl) (fits_outside rfl (by simp))
  · cases item with
    | root => exact moves_set (Or.inl rfl) (fits_outside rfl (by simp))
    | wildcard => exact moves_set (Or.inl rfl) (fits_outside rfl (by simp))

theorem moves_lock {i : I} (he : Enabled s (.lock i)) :
    Moves lib s i (next lib s (.lock i)) := by
  refine moves_set (Or.inr (Or.inl he.2)) ⟨fun _ => rfl, ?_, ?_, ?_⟩
  · rintro _ ⟨⟩
  · rintro (⟨⟨⟩⟩ | ⟨⟨⟩⟩)
  · rintro ⟨⟩

theorem moves_recheck {i : I} (hs : Invariant lib s) (he : Enabled s (.recheck i)) :
    Moves lib s i (next lib s (.recheck i)) := by
  obtain ⟨item, hi⟩ := he
  have hinside : (s.task i).inside = true := by
    rw [hi]
    rfl
  have hlock := (hs i).inside hinside
  have hpast : item = .wildcard → s.due lib .root = false := by
    rintro rfl
    exact (hs i).past_root (Or.inl hi)
  simp only [next, hi]
  split
  · next hdue =>
    refine moves_set (Or.inl rfl) ⟨fun _ => hlock, ?_, ?_, ?_⟩
    · rintro _ ⟨⟩
      exact hdue
    · rintro (⟨⟨⟩⟩ | ⟨⟨⟩⟩)
      exact hpast rfl
    · rintro ⟨⟩
  · next hdue => exact moves_advance hlock hinside (by simpa using hdue) hpast

theorem moves_refused {i : I} (he : Enabled s (.refused i)) :
    Moves lib s i (next lib s (.refused i)) := by
  obtain ⟨item, hi⟩ := he
  refine moves_set (Or.inr (Or.inr ?_)) (fits_outside rfl (by simp))
  rw [hi]
  rfl

theorem next_granted {i : I} {item : Item} {privateKeyDer certificateDer : Bytes}
    (hi : s.task i = .requesting item)
    (ha : Assumed lib s (.granted i privateKeyDer certificateDer)) :
    ∃ store : Store K, next lib s (.granted i privateKeyDer certificateDer) =
        { s with store := store }.advance i item ∧
      { s with store := store }.due lib item = false ∧
      ∀ other, other ≠ item → { s with store := store }.due lib other = s.due lib other := by
  obtain ⟨⟨expiration, hcert, hvalid⟩, hkey⟩ := ha
  obtain ⟨key, hkey⟩ := Option.isSome_iff_exists.mp hkey
  obtain ⟨store, hadd⟩ : ∃ store, s.store.add lib (item.domain s.store) privateKeyDer
      certificateDer = some store := by
    rw [Store.add, hkey]
    exact ⟨_, rfl⟩
  refine ⟨store, ?_, not_due_add hadd hcert hvalid, fun other hne => due_add_other hadd hne⟩
  simp only [next, hi, hadd]

theorem moves_granted {i : I} {privateKeyDer certificateDer : Bytes} (hs : Invariant lib s)
    (he : Enabled s (.granted i privateKeyDer certificateDer))
    (ha : Assumed lib s (.granted i privateKeyDer certificateDer)) :
    Moves lib s i (next lib s (.granted i privateKeyDer certificateDer)) := by
  obtain ⟨item, hi⟩ := he
  obtain ⟨store, hnext, hnot, hother⟩ := next_granted hi ha
  have hinside : (s.task i).inside = true := by
    rw [hi]
    rfl
  have hpast : item = .wildcard → { s with store := store }.due lib .root = false := by
    rintro rfl
    rw [hother .root (by simp)]
    exact (hs i).past_root (Or.inr hi)
  have hmoves : Moves lib { s with store := store } i ({ s with store := store }.advance i item) :=
    moves_advance ((hs i).inside hinside) hinside hnot hpast
  rw [hnext]
  refine ⟨hmoves.task, hmoves.lock, Or.inr ⟨item, hi, hmoves.not_due hnot, ?_⟩, hmoves.own⟩
  intro other hne
  rw [← hother other hne]
  cases item <;> exact due_congr rfl rfl other

theorem step_moves {e : Event I} (hs : Invariant lib s) (he : Enabled s e)
    (ha : Assumed lib s e) : (∃ i, Moves lib s i (next lib s e)) ∨ ∃ now, e = .tick now := by
  cases e with
  | check i => exact Or.inl ⟨i, moves_check he⟩
  | lock i => exact Or.inl ⟨i, moves_lock he⟩
  | recheck i => exact Or.inl ⟨i, moves_recheck hs he⟩
  | granted i => exact Or.inl ⟨i, moves_granted hs he ha⟩
  | refused i => exact Or.inl ⟨i, moves_refused he⟩
  | tick now => exact Or.inr ⟨now, rfl⟩

theorem step_not_due {e : Event I} {item : Item} (hs : Invariant lib s) (he : Enabled s e)
    (ha : Assumed lib s e) (hdue : s.due lib item = false) :
    (next lib s e).due lib item = false := by
  rcases step_moves hs he ha with ⟨i, hmoves⟩ | ⟨now, rfl⟩
  · exact hmoves.not_due hdue
  · exact ha item hdue

theorem step_invariant {e : Event I} (hs : Invariant lib s) (he : Enabled s e)
    (ha : Assumed lib s e) : Invariant lib (next lib s e) := by
  rcases step_moves hs he ha with ⟨i, hmoves⟩ | ⟨now, rfl⟩
  · exact hmoves.invariant hs
  · intro j
    obtain ⟨hinside, hrequested, hpast, hfinished⟩ := hs j
    refine ⟨hinside, fun item ht => due_tick he (hrequested item ht), fun ht => ha _ (hpast ht),
      fun ht item => ha item (hfinished ht item)⟩

omit [DecidableEq I] in
theorem Invariant.one_inside (hs : Invariant lib s) {i j : I} (hi : (s.task i).inside = true)
    (hj : (s.task j).inside = true) : i = j :=
  Option.some.inj (((hs i).inside hi).symm.trans ((hs j).inside hj))

theorem initial_invariant (store : Store K) (now : Time) :
    Invariant lib (renewal (I := I) lib store now).initial :=
  fun _ => fits_outside rfl (by simp [renewal])

/-- In every run: one request to the generator at a time, only for a certificate that is due,
and none is granted twice; a call that found renewal due and returns Ok leaves nothing due. -/
theorem renewed_once (lib : CertLib K) (store : Store K) (now : Time)
    {tr : List (State I K × Event I)} (h : Run (renewal lib store now) tr s)
    (ha : ∀ p ∈ tr, Assumed lib p.1 p.2) :
    (∀ u ∈ visited tr s,
      (∀ i j item item', u.task i = .requesting item → u.task j = .requesting item' → i = j) ∧
      (∀ i item, u.task i = .requesting item → u.due lib item = true) ∧
      ∀ i, u.task i = .returned true true → ∀ item, u.due lib item = false) ∧
    ∀ item, tr.countP (grants item) ≤ 1 := by
  have keep (t : State I K) (e : Event I) (ht : Invariant lib t)
      (he : (renewal lib store now).Enabled t e) (hc : Assumed lib t e) :
      Invariant lib ((renewal lib store now).next t e) := step_invariant ht he hc
  have hvisited := h.forall_visited_where keep (initial_invariant store now) ha
  have hbefore (p) (hp : p ∈ tr) : Invariant lib p.1 :=
    hvisited p.1 (List.mem_append_left _ (List.mem_map_of_mem hp))
  refine ⟨?_, ?_⟩
  · intro u hu
    have hinv := hvisited u hu
    refine ⟨?_, fun i item => (hinv i).requested item, fun i => (hinv i).finished⟩
    intro i j item item' hi hj
    refine hinv.one_inside ?_ ?_
    · rw [hi]
      rfl
    · rw [hj]
      rfl
  · intro item
    refine (Path.fires_at_most_once (L := fun t => t.due lib item = false) h ?_ ?_).1
    · rintro ⟨t, e⟩ hp he hfires
      cases e with
      | granted i =>
        have hi : t.task i = .requesting item := by simpa [grants] using hfires
        obtain ⟨store, hnext, hnot, _⟩ := next_granted hi (ha _ hp)
        refine ⟨by simp [(hbefore _ hp i).requested item hi], ?_⟩
        change (next lib t _).due lib item = false
        rw [hnext, ← hnot]
        cases item <;> exact due_congr rfl rfl _
      | _ => simp [grants] at hfires
    · intro p hp hnot
      exact step_not_due (hbefore p hp) (h.step_mem p hp).1 (ha p hp) hnot

def byteCerts : CertLib Unit where
  fromDer der :=
    match der with
    | [] => .error "unexpected end"
    | b :: rest => .ok (rest, b.toNat * day)
  anySupportedType _ := some ()
  fromDer_suffix := by
    intro der extra notAfter h
    cases der with
    | nil => cases h
    | cons b rest =>
      obtain ⟨rfl, _⟩ := Prod.mk.inj (Except.ok.inj h)
      exact ⟨List.suffix_cons _ _, by simp⟩

theorem certExpiration_byte (b : UInt8) :
    certExpiration byteCerts [b] = .ok (b.toNat * day) := by
  have hle : (b.toNat : ℤ) * 86400000000000 < 253402214400000000000 := by
    have hlt := b.toNat_lt
    omega
  unfold certExpiration certExpirationFrom
  simp [byteCerts, day, maxDate, hle]

def emptyStore : Store Unit := ⟨fun _ => none, "nport.io"⟩

def emptyRenewal : Machine (State Bool Unit) (Event Bool) := renewal byteCerts emptyStore 0

def twoCalls : List (Event Bool) :=
  [.check false, .check true, .lock false, .recheck false, .granted false [] [90],
    .recheck false, .granted false [] [90]]

theorem twoCalls_accepted : Accepts emptyRenewal emptyRenewal.initial twoCalls :=
  ⟨⟨.root, rfl⟩, ⟨.root, rfl⟩, ⟨rfl, rfl⟩, ⟨.root, rfl⟩, ⟨.root, rfl⟩, ⟨.wildcard, rfl⟩,
    ⟨.wildcard, rfl⟩, trivial⟩

theorem twoCalls_assumed :
    ∀ p ∈ trace emptyRenewal emptyRenewal.initial twoCalls, Assumed byteCerts p.1 p.2 := by
  have hgranted (t : State Bool Unit) (hnow : t.now = 0) :
      Assumed byteCerts t (.granted false [] [90]) := by
    refine ⟨⟨90 * day, certExpiration_byte 90, ?_⟩, rfl⟩
    rw [hnow]
    decide
  intro p hp
  simp only [twoCalls, trace, List.mem_cons, List.not_mem_nil, or_false] at hp
  rcases hp with rfl | rfl | rfl | rfl | rfl | rfl | rfl
  · trivial
  · trivial
  · trivial
  · trivial
  · exact hgranted _ rfl
  · trivial
  · exact hgranted _ rfl

theorem renewed_once_by_two :
    ((trace emptyRenewal emptyRenewal.initial twoCalls).countP (grants .root) = 1) ∧
      (replay emptyRenewal emptyRenewal.initial twoCalls).due byteCerts .wildcard = false := by
  have hrun : Run emptyRenewal _ _ := path_of_accepts twoCalls_accepted
  obtain ⟨hvisited, hcount⟩ := renewed_once byteCerts emptyStore 0 hrun twoCalls_assumed
  refine ⟨?_, (hvisited _ (by simp [visited])).2.2 false rfl .wildcard⟩
  have hle := hcount .root
  have hpos : 0 < (trace emptyRenewal emptyRenewal.initial twoCalls).countP (grants .root) := by
    decide
  omega

end Renewal
