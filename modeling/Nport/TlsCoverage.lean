import Nport.Challenges
import Nport.HostRouting

/-! How long the two certificates of a store are good for after a call of renew, with any number
of other calls under way, and what a handshake for a granted hostname gets then. -/
namespace TlsCoverage

open GuardedMachine
open PortTask (Bytes)
open CertStore
open Renewal
open PortOpen (Hostnames)
open HttpOpen (CaseData withDomain)
open HostRouting (Grantable)

variable {I K : Type*} [DecidableEq I]

def ValidUntil (lib : CertLib K) (store : Store K) (time : Time) (item : Item) : Prop :=
  ∃ cert expiration, store.certs (item.domain store) = some cert ∧
    certExpiration lib cert.cert = .ok expiration ∧ time ≤ expiration

def LongLived (lib : CertLib K) (validity : Time) (s : State I K) : Event I → Prop
  | .granted _ _ certificateDer =>
    ∃ expiration, certExpiration lib certificateDer = .ok expiration ∧
      s.now + validity ≤ expiration
  | _ => True

section Store

variable {lib : CertLib K} {time : Time} {item : Item}

omit [DecidableEq I] in
theorem validUntil_of_not_due {s : State I K} (h : s.due lib item = false) :
    ValidUntil lib s.store (s.now + minimumCertRenewDuration) item := by
  simp only [State.due, Store.shouldRenewCert] at h
  split at h
  · next cert hcert =>
    split at h
    · next expiration hexp =>
      exact ⟨cert, expiration, hcert, hexp, Int.not_lt.mp (of_decide_eq_false h)⟩
    · cases h
  · cases h

theorem ValidUntil.mono {store : Store K} {sooner : Time} (h : ValidUntil lib store time item)
    (hle : sooner ≤ time) : ValidUntil lib store sooner item := by
  obtain ⟨cert, expiration, hcert, hexp, htime⟩ := h
  exact ⟨cert, expiration, hcert, hexp, Int.le_trans hle htime⟩

theorem validUntil_add {store added : Store K} {granted : Item}
    {privateKeyDer certificateDer : Bytes} {expiration : Time}
    (hadd : store.add lib (granted.domain store) privateKeyDer certificateDer = some added)
    (hexp : certExpiration lib certificateDer = .ok expiration) (htime : time ≤ expiration)
    (h : item = granted ∨ ValidUntil lib store time item) : ValidUntil lib added time item := by
  obtain ⟨key, _, rfl⟩ := Option.map_eq_some_iff.mp hadd
  have hsame (certs : String → Option (CertifiedKey K)) :
      item.domain { store with certs := certs } = item.domain store := by
    cases item <;> rfl
  by_cases heq : item = granted
  · subst item
    refine ⟨⟨certificateDer, key⟩, expiration, ?_, hexp, htime⟩
    simp only [hsame, Function.update_self]
  · obtain ⟨cert, old, hcert, hold, hle⟩ := h.resolve_left heq
    refine ⟨cert, old, ?_, hold, hle⟩
    simp only [hsame]
    rw [Function.update_of_ne fun hd => heq (domain_inj hd)]
    exact hcert

end Store

/-! What a call has seen to. -/

/-- What is known once the call stands at the task. -/
def SeenTo (lib : CertLib K) (store : Store K) (time : Time) : Task → Prop
  | .checking .wildcard | .holding .wildcard | .requesting .wildcard =>
    ValidUntil lib store time .root
  | .returned _ true => ∀ item, ValidUntil lib store time item
  | _ => True

theorem SeenTo.mono {lib : CertLib K} {store other : Store K} {time : Time} {t : Task}
    (h : SeenTo lib store time t)
    (hkeep : ∀ item, ValidUntil lib store time item → ValidUntil lib other time item) :
    SeenTo lib other time t := by
  cases t with
  | checking item => cases item with
    | root => trivial
    | wildcard => exact hkeep .root h
  | holding item => cases item with
    | root => trivial
    | wildcard => exact hkeep .root h
  | requesting item => cases item with
    | root => trivial
    | wildcard => exact hkeep .root h
  | returned found ok => cases ok with
    | false => trivial
    | true => exact fun item => hkeep item (h item)
  | waiting => trivial
  | panicked => trivial

section Step

variable {lib : CertLib K} {s : State I K} {time : Time} {i : I}

theorem store_advance (item : Item) : (s.advance i item).store = s.store := by
  cases item <;> rfl

theorem task_advance {j : I} (hj : j ≠ i) (item : Item) : (s.advance i item).task j = s.task j := by
  cases item with
  | root => exact Function.update_of_ne hj _ _
  | wildcard => exact Function.update_of_ne hj _ _

theorem seenTo_advance {item : Item} (h : ValidUntil lib s.store time item)
    (hroot : item = .wildcard → ValidUntil lib s.store time .root) :
    SeenTo lib (s.advance i item).store time ((s.advance i item).task i) := by
  rw [store_advance]
  cases item with
  | root => simpa [State.advance, SeenTo] using h
  | wildcard =>
    have hboth : ∀ item, ValidUntil lib s.store time item := by
      rintro (_ | _)
      · exact hroot rfl
      · exact h
    simpa [State.advance, SeenTo] using hboth

omit [DecidableEq I] in
def caller : Event I → Option I
  | .check i | .lock i | .recheck i | .granted i _ _ | .refused i => some i
  | .tick _ => none

theorem task_other {e : Event I} (he : Enabled s e) (hi : caller e ≠ some i) :
    (next lib s e).task i = s.task i := by
  have hset {j : I} {t : Task} (hj : caller e = some j) :
      Function.update s.task j t i = s.task i := by
    refine Function.update_of_ne ?_ _ _
    rintro rfl
    exact hi hj
  cases e with
  | check j =>
    obtain ⟨item, hj⟩ := he
    simp only [next, hj]
    split
    · exact hset rfl
    · cases item <;> exact hset rfl
  | lock j => exact hset rfl
  | recheck j =>
    obtain ⟨item, hj⟩ := he
    simp only [next, hj]
    split
    · exact hset rfl
    · cases item <;> exact hset rfl
  | granted j =>
    obtain ⟨item, hj⟩ := he
    simp only [next, hj]
    split
    · cases item <;> exact hset rfl
    · exact hset rfl
  | refused j => exact hset rfl
  | tick now => rfl

theorem store_kept {e : Event I} (he : ∀ i privateKeyDer certificateDer,
    e ≠ .granted i privateKeyDer certificateDer) : (next lib s e).store = s.store := by
  cases e with
  | granted j privateKeyDer certificateDer => exact absurd rfl (he j privateKeyDer certificateDer)
  | check j =>
    simp only [next]
    split
    · split
      · rfl
      · split <;> rfl
    · rfl
  | recheck j =>
    simp only [next]
    split
    · split
      · rfl
      · exact store_advance _
    · rfl
  | _ => rfl

theorem next_validUntil {validity : Time} {e : Event I} (hlong : LongLived lib validity s e)
    (htime : time ≤ s.now + validity) {item : Item}
    (h : ValidUntil lib s.store time item) : ValidUntil lib (next lib s e).store time item := by
  cases e with
  | granted j privateKeyDer certificateDer =>
    obtain ⟨expiration, hexp, hlater⟩ := hlong
    simp only [next]
    split
    · split
      · next hadd =>
        rw [store_advance]
        exact validUntil_add hadd hexp (Int.le_trans htime hlater) (Or.inr h)
      · exact h
    · exact h
  | _ =>
    rw [store_kept (by simp)]
    exact h

theorem own_seenTo {e : Event I} (he : Enabled s e) (hi : caller e = some i)
    (hlong : LongLived lib minimumCertRenewDuration s e)
    (htime : time ≤ s.now + minimumCertRenewDuration)
    (h : SeenTo lib s.store time (s.task i)) :
    SeenTo lib (next lib s e).store time ((next lib s e).task i) := by
  have not_due {item : Item} (hdue : ¬ s.due lib item = true) :
      ValidUntil lib s.store time item :=
    (validUntil_of_not_due (by simpa using hdue)).mono htime
  cases e with
  | tick now => cases hi
  | lock j =>
    obtain rfl := Option.some.inj hi
    simp [next, SeenTo]
  | refused j =>
    obtain rfl := Option.some.inj hi
    simp [next, SeenTo]
  | check j =>
    obtain rfl := Option.some.inj hi
    obtain ⟨item, hj⟩ := he
    rw [hj] at h
    simp only [next, hj]
    split
    · simp [SeenTo]
    · next hdue =>
      have hvalid := not_due hdue
      cases item with
      | root => simpa [SeenTo] using hvalid
      | wildcard =>
        have hboth : ∀ item, ValidUntil lib s.store time item := by
          rintro (_ | _)
          · exact h
          · exact hvalid
        simpa [SeenTo] using hboth
  | recheck j =>
    obtain rfl := Option.some.inj hi
    obtain ⟨item, hj⟩ := he
    rw [hj] at h
    simp only [next, hj]
    split
    · cases item with
      | root => simp [SeenTo]
      | wildcard => simpa [SeenTo] using h
    · next hdue =>
      refine seenTo_advance (not_due hdue) ?_
      rintro rfl
      exact h
  | granted j privateKeyDer certificateDer =>
    obtain rfl := Option.some.inj hi
    obtain ⟨item, hj⟩ := he
    obtain ⟨expiration, hexp, hlater⟩ := hlong
    rw [hj] at h
    simp only [next, hj]
    split
    · next store hadd =>
      have hadded {other : Item} (ho : other = item ∨ ValidUntil lib s.store time other) :
          ValidUntil lib store time other :=
        validUntil_add hadd hexp (Int.le_trans htime hlater) ho
      refine seenTo_advance (hadded (Or.inl rfl)) ?_
      rintro rfl
      exact hadded (Or.inr h)
    · simp [SeenTo]

theorem next_seenTo {e : Event I} (he : Enabled s e)
    (hlong : LongLived lib minimumCertRenewDuration s e)
    (htime : time ≤ s.now + minimumCertRenewDuration) (h : SeenTo lib s.store time (s.task i)) :
    SeenTo lib (next lib s e).store time ((next lib s e).task i) := by
  by_cases hi : caller e = some i
  · exact own_seenTo he hi hlong htime h
  · rw [task_other he hi]
    exact h.mono fun _ hvalid => next_validUntil hlong htime hvalid

end Step

end TlsCoverage
