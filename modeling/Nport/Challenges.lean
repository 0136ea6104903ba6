import Nport.Cloudflare
import Nport.Renewal

/-! Generator::request inside the calls of renew. To get a certificate for a domain it proves
with a DNS record that the domain is its own: the updater writes the token of the challenge, a
loop of lookups waits until it shows, and then the challenge is validated. The root and the
wildcard domain have their challenge in one record. Only these calls write to the zone. -/
namespace Challenges

open GuardedMachine
open PortTask (Bytes)
open CertStore
open Renewal (Item Task)
open Cloudflare

def second : Time := 1000000000

/-- The record of the challenge for a domain; that of a wildcard is that of what is behind it. -/
def challengeRecord (domain : String) : String :=
  match domain.toList with
  | '*' :: '.' :: suffix => "_acme-challenge." ++ String.ofList suffix
  | _ => "_acme-challenge." ++ domain

/-- Where generator.request stands. start is when the wait for the record began, and lookups is
how many there have been in it. -/
inductive Phase where
  /-- before the order is made -/
  | ordering
  /-- at the head of the loop -/
  | confirming
  | updating (token : String) (update : Update)
  | looking (token : String) (start : Time) (lookups : ℕ)
  /-- a lookup has failed or not shown the token -/
  | absent (token : String) (start : Time) (lookups : ℕ)
  | pausing (token : String) (start : Time) (lookups : ℕ) (wake : Time)
  /-- five more seconds after the token has shown -/
  | settling (token : String) (wake : Time)
  | validating (token : String)
  | refreshing
  | finalizing
  deriving DecidableEq, Repr

inductive Signal where
  /-- an Ok, or a timer -/
  | ok
  | error
  /-- confirm_validations is Some -/
  | confirmed
  /-- the first authorization of the order -/
  | authorized (token : String)
  | got (reply : Except String QueryResponse)
  | answered (outcome : Outcome) (id : RecordId)
  | records (found : Except String (List String))
  deriving DecidableEq

inductive Progress where
  | going (phase : Phase) (zone : Zone)
  /-- generator.request returns an error -/
  | failed (zone : Zone)

/-- One step of generator.request. -/
def step (api : Api) (record : String) (now : Time) (zone : Zone) : Phase → Signal → Option Progress
  | .ordering, .ok => some (.going .confirming zone)
  | .ordering, .error => some (.failed zone)
  | .confirming, .confirmed => some (.going .finalizing zone)
  | .confirming, .authorized token => some (.going (.updating token .getting) zone)
  | .confirming, .error => some (.failed zone)
  | .updating token .getting, .got reply =>
    some (.going (.updating token (afterGet record reply)) zone)
  | .updating token (.putting recordId), .answered outcome _ =>
    let written := api.put zone recordId (getCreateRequest record token)
    match outcome with
    | .success =>
      if zone.rows.any (·.1.val = recordId) then some (.going (.looking token now 0) written)
      else none
    | .refused => some (.going (.updating token .posting) zone)
    | .lost => some (.going (.updating token .posting) written)
  | .updating token .posting, .answered outcome id =>
    if fresh : id ∉ zone.keys then
      let written := api.post zone id fresh (getCreateRequest record token)
      match outcome with
      | .success => some (.going (.looking token now 0) written)
      | .refused => some (.failed zone)
      | .lost => some (.failed written)
    else none
  | .looking token start lookups, .records found =>
    if found.toOption.any (·.contains token) then
      some (.going (.settling token (now + 5 * second)) zone)
    else some (.going (.absent token start (lookups + 1)) zone)
  | .absent token start lookups, .ok =>
    if 90 < (now - start) / second then some (.failed zone)
    else some (.going (.pausing token start lookups (now + 5 * second)) zone)
  | .pausing token start lookups wake, .ok =>
    if wake ≤ now then some (.going (.looking token start lookups) zone) else none
  | .settling token wake, .ok =>
    if wake ≤ now then some (.going (.validating token) zone) else none
  | .validating _, .ok => some (.going .refreshing zone)
  | .validating _, .error => some (.failed zone)
  | .refreshing, .ok => some (.going .confirming zone)
  | .refreshing, .error => some (.failed zone)
  | .finalizing, .error => some (.failed zone)
  | _, _ => none

structure Request where
  record : String
  phase : Phase
  deriving DecidableEq, Repr

structure State (I K : Type*) where
  renewal : Renewal.State I K
  request : I → Option Request
  zone : Zone

inductive Event (I : Type*) where
  /-- A step of renew itself, or time. -/
  | renewal (e : Renewal.Event I)
  | request (i : I) (signal : Signal)
  /-- generator.request returns the certificate. -/
  | issued (i : I) (privateKeyDer certificateDer : Bytes)

variable {I K : Type*} [DecidableEq I]

/-- How a request ends is not for a step of renew to choose. -/
def Ends : Renewal.Event I → Prop
  | .granted _ _ _ | .refused _ => True
  | _ => False

def Enabled (api : Api) (s : State I K) : Event I → Prop
  | .renewal e => Renewal.Enabled s.renewal e ∧ ¬ Ends e
  | .request i signal => ∃ r p, s.request i = some r ∧
      step api r.record s.renewal.now s.zone r.phase signal = some p
  | .issued i _ _ => ∃ r, s.request i = some r ∧ r.phase = .finalizing

def started (s : Renewal.State I K) (i : I) : Option Request :=
  match s.task i with
  | .requesting item => some ⟨challengeRecord (item.domain s.store), .ordering⟩
  | _ => none

def next (api : Api) (lib : CertLib K) (s : State I K) : Event I → State I K
  | .renewal e =>
    let renewal := Renewal.next lib s.renewal e
    match e with
    | .recheck i =>
      { s with renewal, request := Function.update s.request i (started renewal i) }
    | _ => { s with renewal }
  | .request i signal =>
    match s.request i with
    | none => s
    | some r =>
      match step api r.record s.renewal.now s.zone r.phase signal with
      | none => s
      | some (.going phase zone) =>
        { s with request := Function.update s.request i (some { r with phase }), zone }
      | some (.failed zone) =>
        { renewal := Renewal.next lib s.renewal (.refused i)
          request := Function.update s.request i none
          zone }
  | .issued i privateKeyDer certificateDer =>
    { s with
      renewal := Renewal.next lib s.renewal (.granted i privateKeyDer certificateDer)
      request := Function.update s.request i none }

def generator (api : Api) (lib : CertLib K) (store : Store K) (now : Time) (zone : Zone) :
    Machine (State I K) (Event I) :=
  ⟨⟨(Renewal.renewal lib store now).initial, fun _ => none, zone⟩, Enabled api, next api lib⟩

/-- The challenge is presented: from the answer to the updater to the end of the validation. -/
def Phase.presents : Phase → Option String
  | .looking token _ _ | .absent token _ _ | .pausing token _ _ _ | .settling token _
  | .validating token => some token
  | _ => none

def Phase.lookups : Phase → ℕ
  | .looking _ _ n | .absent _ _ n | .pausing _ _ n _ => n
  | _ => 0

/-! What a step of a request does. -/

inductive Step (api : Api) (record : String) (now : Time) (zone : Zone) :
    Phase → Signal → Progress → Prop where
  | ordered : Step api record now zone .ordering .ok (.going .confirming zone)
  | confirmed : Step api record now zone .confirming .confirmed (.going .finalizing zone)
  | authorized (token) :
    Step api record now zone .confirming (.authorized token)
      (.going (.updating token .getting) zone)
  | got (token reply) : Step api record now zone (.updating token .getting) (.got reply)
      (.going (.updating token (afterGet record reply)) zone)
  | overwritten (token recordId id) : (∃ row ∈ zone.rows, row.1.val = recordId) →
      Step api record now zone (.updating token (.putting recordId)) (.answered .success id)
        (.going (.looking token now 0) (api.put zone recordId (getCreateRequest record token)))
  | putRefused (token recordId id) :
    Step api record now zone (.updating token (.putting recordId)) (.answered .refused id)
      (.going (.updating token .posting) zone)
  | putLost (token recordId id) :
    Step api record now zone (.updating token (.putting recordId)) (.answered .lost id)
      (.going (.updating token .posting) (api.put zone recordId (getCreateRequest record token)))
  | created (token id) (fresh : id ∉ zone.keys) :
    Step api record now zone (.updating token .posting) (.answered .success id)
      (.going (.looking token now 0) (api.post zone id fresh (getCreateRequest record token)))
  | postLost (token id) (fresh : id ∉ zone.keys) :
    Step api record now zone (.updating token .posting) (.answered .lost id)
      (.failed (api.post zone id fresh (getCreateRequest record token)))
  | shown (token start lookups found) :
    Step api record now zone (.looking token start lookups) (.records found)
      (.going (.settling token (now + 5 * second)) zone)
  | unseen (token start lookups found) :
    Step api record now zone (.looking token start lookups) (.records found)
      (.going (.absent token start (lookups + 1)) zone)
  | again (token start lookups) : (now - start) / second ≤ 90 →
      Step api record now zone (.absent token start lookups) .ok
        (.going (.pausing token start lookups (now + 5 * second)) zone)
  | woken (token start lookups wake) : wake ≤ now →
      Step api record now zone (.pausing token start lookups wake) .ok
        (.going (.looking token start lookups) zone)
  | settled (token wake) : wake ≤ now →
      Step api record now zone (.settling token wake) .ok (.going (.validating token) zone)
  | validated (token) : Step api record now zone (.validating token) .ok (.going .refreshing zone)
  | refreshed : Step api record now zone .refreshing .ok (.going .confirming zone)
  | failed (phase signal) : Step api record now zone phase signal (.failed zone)

theorem step_cases {api : Api} {record : String} {now : Time} {zone : Zone} {phase : Phase}
    {signal : Signal} {p : Progress} (h : step api record now zone phase signal = some p) :
    Step api record now zone phase signal p := by
  cases phase with
  | ordering => cases signal <;> cases h <;> constructor
  | confirming => cases signal <;> cases h <;> constructor
  | updating token update =>
    cases update with
    | getting =>
      cases signal <;> cases h
      constructor
    | putting recordId =>
      cases signal with
      | answered outcome id =>
        cases outcome with
        | success =>
          simp only [step] at h
          split at h
          · next hrow =>
            cases h
            exact .overwritten token recordId id (by simpa using hrow)
          · cases h
        | refused => cases h; exact .putRefused token recordId id
        | lost => cases h; exact .putLost token recordId id
      | _ => cases h
    | posting =>
      cases signal with
      | answered outcome id =>
        simp only [step] at h
        split at h
        · next fresh =>
          cases outcome with
          | success => cases h; exact .created token id fresh
          | refused => cases h; exact .failed _ _
          | lost => cases h; exact .postLost token id fresh
        · cases h
      | _ => cases h
  | looking token start lookups =>
    cases signal with
    | records found =>
      simp only [step] at h
      split at h
      · cases h; exact .shown token start lookups found
      · cases h; exact .unseen token start lookups found
    | _ => cases h
  | absent token start lookups =>
    cases signal with
    | ok =>
      simp only [step] at h
      split at h
      · cases h; exact .failed _ _
      · next hle => cases h; exact .again token start lookups (Int.not_lt.mp hle)
    | _ => cases h
  | pausing token start lookups wake =>
    cases signal with
    | ok =>
      simp only [step] at h
      split at h
      · next hle => cases h; exact .woken token start lookups wake hle
      · cases h
    | _ => cases h
  | settling token wake =>
    cases signal with
    | ok =>
      simp only [step] at h
      split at h
      · next hle => cases h; exact .settled token wake hle
      · cases h
    | _ => cases h
  | validating token => cases signal <;> cases h <;> constructor
  | refreshing => cases signal <;> cases h <;> constructor
  | finalizing =>
    cases signal <;> cases h
    constructor

/-! One call of renew is inside at a time, whatever the generator returns. -/

section Lock

variable (lib : CertLib K) {s : Renewal.State I K}

def Held (s : Renewal.State I K) : Prop :=
  ∀ i, (s.task i).inside = true → s.renewalLock = some i

theorem Held.set (h : Held s) {i : I} {t : Task} {lock : Option I}
    (hlock : lock = s.renewalLock ∨ s.renewalLock = none ∨ (s.task i).inside = true)
    (hown : t.inside = true → lock = some i) :
    Held { s with task := Function.update s.task i t, renewalLock := lock } := by
  intro j hj
  by_cases heq : j = i
  · subst j
    apply hown
    simpa using hj
  · have hold := h j (by simpa [heq] using hj)
    rcases hlock with rfl | hnone | hinside
    · exact hold
    · rw [hnone] at hold
      cases hold
    · exact absurd (Option.some.inj (hold.symm.trans (h i hinside))) heq

theorem Held.advance (h : Held s) {i : I} (hi : (s.task i).inside = true) (item : Item) :
    Held (s.advance i item) := by
  cases item with
  | root => exact h.set (Or.inl rfl) fun _ => h i hi
  | wildcard =>
    refine h.set (Or.inr (Or.inr hi)) ?_
    rintro ⟨⟩

theorem Held.next (h : Held s) {e : Renewal.Event I} (he : Renewal.Enabled s e) :
    Held (Renewal.next lib s e) := by
  have outside {i : I} {t : Task} (ht : t.inside = false) :
      Held { s with task := Function.update s.task i t } := by
    refine h.set (Or.inl rfl) fun hin => ?_
    rw [ht] at hin
    cases hin
  have leave {i : I} {t : Task} (hi : (s.task i).inside = true) (ht : t.inside = false) :
      Held { s with task := Function.update s.task i t, renewalLock := none } := by
    refine h.set (Or.inr (Or.inr hi)) fun hin => ?_
    rw [ht] at hin
    cases hin
  cases e with
  | check i =>
    obtain ⟨item, hi⟩ := he
    simp only [Renewal.next, hi]
    split
    · exact outside rfl
    · cases item with
      | root => exact outside rfl
      | wildcard => exact outside rfl
  | lock i => exact h.set (Or.inr (Or.inl he.2)) fun _ => rfl
  | recheck i =>
    obtain ⟨item, hi⟩ := he
    have hin : (s.task i).inside = true := by rw [hi]; rfl
    simp only [Renewal.next, hi]
    split
    · exact h.set (Or.inl rfl) fun _ => h i hin
    · exact h.advance hin item
  | granted i privateKeyDer certificateDer =>
    obtain ⟨item, hi⟩ := he
    have hin : (s.task i).inside = true := by rw [hi]; rfl
    simp only [Renewal.next, hi]
    split
    · next store _ =>
      have hstore : Held { s with store := store } := h
      exact hstore.advance hin item
    · exact leave hin rfl
  | refused i =>
    obtain ⟨item, hi⟩ := he
    exact leave (by rw [hi]; rfl) rfl
  | tick now => exact h

theorem requesting_next {e : Renewal.Event I} (he : Renewal.Enabled s e) (hends : ¬ Ends e)
    {i : I} {item : Item} (hi : s.task i = .requesting item) :
    (Renewal.next lib s e).task i = .requesting item ∧
      (Renewal.next lib s e).store = s.store := by
  have kept {j : I} {t : Task} (hj : ∀ item, s.task j ≠ .requesting item) :
      Function.update s.task j t i = .requesting item := by
    rw [Function.update_of_ne, hi]
    rintro rfl
    exact hj item hi
  cases e with
  | check j =>
    obtain ⟨other, ht⟩ := he
    have hj : ∀ item, s.task j ≠ .requesting item := by simp [ht]
    simp only [Renewal.next, ht]
    split
    · exact ⟨kept hj, rfl⟩
    · cases other with
      | root => exact ⟨kept hj, rfl⟩
      | wildcard => exact ⟨kept hj, rfl⟩
  | lock j =>
    have hj : ∀ item, s.task j ≠ .requesting item := by simp [he.1]
    exact ⟨kept hj, rfl⟩
  | recheck j =>
    obtain ⟨other, ht⟩ := he
    have hj : ∀ item, s.task j ≠ .requesting item := by simp [ht]
    simp only [Renewal.next, ht]
    split
    · exact ⟨kept hj, rfl⟩
    · cases other with
      | root => exact ⟨kept hj, rfl⟩
      | wildcard => exact ⟨kept hj, rfl⟩
  | granted => exact absurd trivial hends
  | refused => exact absurd trivial hends
  | tick now => exact ⟨hi, rfl⟩

theorem now_advance (u : Renewal.State I K) (i : I) (item : Item) :
    (u.advance i item).now = u.now := by
  cases item <;> rfl

theorem now_kept {e : Renewal.Event I} (he : ∀ now, e ≠ .tick now) :
    (Renewal.next lib s e).now = s.now := by
  cases e with
  | tick now => exact absurd rfl (he now)
  | lock i => rfl
  | refused i => rfl
  | check i =>
    simp only [Renewal.next]
    split
    · split
      · rfl
      · split <;> rfl
    · rfl
  | recheck i =>
    simp only [Renewal.next]
    split
    · split
      · rfl
      · exact now_advance _ _ _
    · rfl
  | granted i =>
    simp only [Renewal.next]
    split
    · split
      · exact now_advance _ _ _
      · rfl
    · rfl

theorem now_next {e : Renewal.Event I} (he : Renewal.Enabled s e) :
    s.now ≤ (Renewal.next lib s e).now := by
  cases e with
  | tick now => exact he
  | _ => exact Int.le_of_eq (now_kept lib (by simp)).symm

end Lock

/-! The challenge stays in place while it is presented. -/

def Phase.Timely (now : Time) : Phase → Prop
  | .looking _ start n => n ≤ 19 ∧ start + n * (5 * second) ≤ now
  | .absent _ start n => ∃ m : ℕ, n = m + 1 ∧ m ≤ 19 ∧ start + m * (5 * second) ≤ now
  | .pausing _ start n wake => n ≤ 19 ∧ start + n * (5 * second) ≤ wake
  | _ => True

theorem Phase.Timely.mono {now later : Time} {phase : Phase} (h : phase.Timely now)
    (hle : now ≤ later) : phase.Timely later := by
  cases phase with
  | looking => exact ⟨h.1, Int.le_trans h.2 hle⟩
  | absent =>
    obtain ⟨m, hn, hm, hstart⟩ := h
    exact ⟨m, hn, hm, Int.le_trans hstart hle⟩
  | pausing => exact h
  | _ => trivial

theorem Phase.Timely.lookups_le {now : Time} {phase : Phase} (h : phase.Timely now) :
    phase.lookups ≤ 20 := by
  cases phase with
  | looking => exact h.1.trans (by omega)
  | absent =>
    obtain ⟨m, rfl, hm, _⟩ := h
    exact Nat.succ_le_succ hm
  | pausing => exact h.1.trans (by omega)
  | _ => exact Nat.zero_le _

/-- Within 91 seconds there is room for 18 pauses and no more. -/
theorem one_more_lookup {now start : ℤ} {m : ℕ} (hle : (now - start) / 1000000000 ≤ 90)
    (hstart : start + m * (5 * 1000000000) ≤ now) :
    m + 1 ≤ 19 ∧ start + (m + 1 : ℕ) * (5 * 1000000000) ≤ now + 5 * 1000000000 := by
  omega

theorem Step.timely {api : Api} {record : String} {now : Time} {zone zone' : Zone}
    {phase phase' : Phase} {signal : Signal}
    (h : Step api record now zone phase signal (.going phase' zone'))
    (ht : phase.Timely now) : phase'.Timely now := by
  cases h with
  | overwritten => exact ⟨by omega, by simp⟩
  | created => exact ⟨by omega, by simp⟩
  | unseen token start lookups => exact ⟨lookups, rfl, ht⟩
  | again token start lookups hle =>
    obtain ⟨m, rfl, _, hstart⟩ := ht
    exact one_more_lookup hle hstart
  | woken token start lookups wake hwake => exact ⟨ht.1, Int.le_trans ht.2 hwake⟩
  | _ => trivial

theorem Step.keeps_shown {api : Api} {record token : String} {now : Time} {zone zone' : Zone}
    {phase phase' : Phase} {signal : Signal}
    (h : Step api record now zone phase signal (.going phase' zone'))
    (hold : ∀ token, phase.presents = some token → Shows zone record token)
    (hp : phase'.presents = some token) : Shows zone' record token := by
  cases h with
  | overwritten _ _ _ hrow =>
    obtain rfl := Option.some.inj hp
    exact shows_put api hrow
  | created _ _ fresh =>
    obtain rfl := Option.some.inj hp
    exact shows_post api fresh record _
  | shown | unseen | again | woken | settled => exact hold token hp
  | _ => cases hp

structure Active (s : State I K) (i : I) (r : Request) : Prop where
  requesting : ∃ item, s.renewal.task i = .requesting item ∧
    r.record = challengeRecord (item.domain s.renewal.store)
  shown : ∀ token, r.phase.presents = some token → Shows s.zone r.record token
  timely : r.phase.Timely s.renewal.now

structure Invariant (s : State I K) : Prop where
  held : Held s.renewal
  active : ∀ i r, s.request i = some r → Active s i r

section Run

variable {lib : CertLib K} {s : State I K}

omit [DecidableEq I] in
theorem Invariant.alone (h : Invariant s) {i j : I} {r q : Request} (hi : s.request i = some r)
    (hj : s.request j = some q) : j = i := by
  obtain ⟨item, ht, _⟩ := (h.active i r hi).requesting
  obtain ⟨item', ht', _⟩ := (h.active j q hj).requesting
  have hlock := h.held i (by rw [ht]; rfl)
  rw [h.held j (by rw [ht']; rfl)] at hlock
  exact Option.some.inj hlock

omit [DecidableEq I] in
theorem started_active {r : Request} {i : I} (h : started s.renewal i = some r) :
    Active s i r := by
  unfold started at h
  split at h
  · next item hi =>
    obtain rfl := Option.some.inj h
    refine ⟨⟨item, hi, rfl⟩, ?_, trivial⟩
    intro token hp
    cases hp
  · cases h

theorem Active.next (lib : CertLib K) {e : Renewal.Event I} (he : Renewal.Enabled s.renewal e)
    (hends : ¬ Ends e) {i : I} {r : Request} (h : Active s i r) (request : I → Option Request) :
    Active ⟨Renewal.next lib s.renewal e, request, s.zone⟩ i r := by
  obtain ⟨item, hi, hrecord⟩ := h.requesting
  obtain ⟨htask, hstore⟩ := requesting_next lib he hends hi
  refine ⟨⟨item, htask, ?_⟩, h.shown, h.timely.mono (now_next lib he)⟩
  rw [hrecord, hstore]

theorem step_invariant {api : Api} {e : Event I} (h : Invariant s) (he : Enabled api s e) :
    Invariant (next api lib s e) := by
  cases e with
  | renewal e =>
    obtain ⟨he, hends⟩ := he
    have hheld := h.held.next lib he
    cases e with
    | recheck i =>
      refine ⟨hheld, fun j r hj => ?_⟩
      by_cases hji : j = i
      · subst j
        simp only [next, Function.update_self] at hj
        exact started_active hj
      · simp only [next, Function.update_of_ne hji] at hj
        exact (h.active j r hj).next lib he hends _
    | granted => exact absurd trivial hends
    | refused => exact absurd trivial hends
    | _ => exact ⟨hheld, fun j r hj => (h.active j r hj).next lib he hends _⟩
  | request i signal =>
    obtain ⟨r, p, hr, hp⟩ := he
    have hi := h.active i r hr
    obtain ⟨item, ht, hrecord⟩ := hi.requesting
    have hstep := step_cases hp
    cases p with
    | going phase zone =>
      simp only [next, hr, hp]
      refine ⟨h.held, fun j q hj => ?_⟩
      by_cases hji : j = i
      · subst j
        obtain rfl : { r with phase := phase } = q := by simpa using hj
        exact ⟨⟨item, ht, hrecord⟩, fun token hq => hstep.keeps_shown hi.shown hq,
          hstep.timely hi.timely⟩
      · exact absurd (h.alone hr (by simpa [hji] using hj)) hji
    | failed zone =>
      simp only [next, hr, hp]
      have he : Renewal.Enabled s.renewal (.refused i) := ⟨item, ht⟩
      refine ⟨h.held.next lib he, fun j q hj => ?_⟩
      by_cases hji : j = i
      · subst j
        simp at hj
      · exact absurd (h.alone hr (by simpa [hji] using hj)) hji
  | issued i privateKeyDer certificateDer =>
    obtain ⟨r, hr, _⟩ := he
    obtain ⟨item, ht, _⟩ := (h.active i r hr).requesting
    have he : Renewal.Enabled s.renewal (.granted i privateKeyDer certificateDer) := ⟨item, ht⟩
    refine ⟨h.held.next lib he, fun j q hj => ?_⟩
    by_cases hji : j = i
    · subst j
      simp [next] at hj
    · exact absurd (h.alone hr (by simpa [next, hji] using hj)) hji

theorem initial_invariant (api : Api) (store : Store K) (now : Time) (zone : Zone) :
    Invariant (generator api lib store now zone : Machine (State I K) (Event I)).initial := by
  refine ⟨?_, ?_⟩
  · rintro i ⟨⟩
  · rintro i r ⟨⟩

theorem challengeRecord_item {store : Store K} (hstar : ¬ ['*', '.'] <+: store.domain.toList)
    (item : Item) : challengeRecord (item.domain store) = "_acme-challenge." ++ store.domain := by
  cases item with
  | root =>
    simp only [Item.domain, Store.rootDomain, challengeRecord]
    split
    · next suffix heq =>
      exact absurd ⟨suffix, heq.symm⟩ hstar
    · rfl
  | wildcard => simp [Item.domain, Store.wildcardDomain, challengeRecord]

/-- In every state of every run: one request is under way at most; while it presents its
challenge the zone has the token in the record of its domain, which the root and the wildcard
share; and there are twenty lookups at most before it goes on or gives up. -/
theorem challenge_in_place (api : Api) (lib : CertLib K) (store : Store K) (now : Time)
    (zone : Zone) {tr : List (State I K × Event I)}
    (h : Run (generator api lib store now zone) tr s) :
    ∀ u ∈ visited tr s, ∀ i r, u.request i = some r →
      (∀ j q, u.request j = some q → j = i) ∧
      (∃ item, u.renewal.task i = .requesting item ∧
        r.record = challengeRecord (item.domain u.renewal.store)) ∧
      (¬ ['*', '.'] <+: u.renewal.store.domain.toList →
        r.record = "_acme-challenge." ++ u.renewal.store.domain) ∧
      (∀ token, r.phase.presents = some token → Shows u.zone r.record token) ∧
      r.phase.lookups ≤ 20 := by
  intro u hu i r hi
  have keep (t : State I K) (e : Event I) (ht : Invariant t)
      (he : (generator api lib store now zone).Enabled t e) (_ : True) :
      Invariant ((generator api lib store now zone).next t e) := step_invariant ht he
  have hinv := h.forall_visited_where keep (initial_invariant api store now zone)
    (fun _ _ => trivial) u hu
  obtain ⟨hrequesting, hshown, htimely⟩ := hinv.active i r hi
  refine ⟨fun j q hj => hinv.alone hi hj, hrequesting, fun hstar => ?_, hshown,
    htimely.lookups_le⟩
  obtain ⟨item, _, hrecord⟩ := hrequesting
  rw [hrecord, challengeRecord_item hstar]

end Run

open Renewal (byteCerts emptyStore)

def emptyZone : Zone := ⟨[], List.nodup_nil⟩

def recordId : RecordId := ⟨"372e67954025e0ba6aaa6d586b9e0b59", by decide⟩

def rootChallenge : List (Event Bool) :=
  [.renewal (.check false), .renewal (.check true), .renewal (.lock false),
    .renewal (.recheck false), .request false .ok, .request false (.authorized "gfj9Xq"),
    .request false (.got (.ok (orderedApi.query emptyZone "_acme-challenge.nport.io"))),
    .request false (.answered .success recordId), .request false (.records (.error "no record")),
    .request false .ok, .renewal (.tick (5 * second)), .request false .ok,
    .request false (.records (.ok ["gfj9Xq"])), .renewal (.tick (10 * second)),
    .request false .ok]

def rootGenerator : Machine (State Bool Unit) (Event Bool) :=
  generator orderedApi byteCerts emptyStore 0 emptyZone

theorem rootChallenge_accepted :
    Accepts rootGenerator rootGenerator.initial rootChallenge := by
  have hrequest {s : State Bool Unit} {r : Request} {p : Progress} {signal : Signal}
      (hr : s.request false = some r)
      (hp : step orderedApi r.record s.renewal.now s.zone r.phase signal = some p) :
      Enabled orderedApi s (.request false signal) := ⟨r, p, hr, hp⟩
  have htick {s : State Bool Unit} {now later : Time} (hs : s.renewal.now = now)
      (hle : now ≤ later) : Enabled orderedApi s (.renewal (.tick later)) := by
    rw [← hs] at hle
    exact ⟨hle, id⟩
  have hfive : (0 : Time) ≤ 5 * second := by decide
  have hten : 5 * second ≤ 10 * second := by decide
  exact ⟨⟨⟨.root, rfl⟩, id⟩, ⟨⟨.root, rfl⟩, id⟩, ⟨⟨rfl, rfl⟩, id⟩, ⟨⟨.root, rfl⟩, id⟩,
    hrequest rfl rfl, hrequest rfl rfl, hrequest rfl rfl, hrequest rfl rfl, hrequest rfl rfl,
    hrequest rfl rfl, htick rfl hfive, hrequest rfl rfl, hrequest rfl rfl,
    htick rfl hten, hrequest rfl rfl, trivial⟩

theorem challenge_in_place_root :
    Shows (replay rootGenerator rootGenerator.initial rootChallenge).zone
      "_acme-challenge.nport.io" "gfj9Xq" := by
  have hrun : Run rootGenerator _ _ := path_of_accepts rootChallenge_accepted
  have hvalidating : (replay rootGenerator rootGenerator.initial rootChallenge).request false =
      some ⟨"_acme-challenge.nport.io", .validating "gfj9Xq"⟩ := rfl
  exact (challenge_in_place orderedApi byteCerts emptyStore 0 emptyZone hrun _ (by simp [visited])
    false _ hvalidating).2.2.2.1 "gfj9Xq" rfl

end Challenges
