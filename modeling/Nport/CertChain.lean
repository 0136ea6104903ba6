import Nport.ReadChain
import Nport.Renewal
import Mathlib.Order.Bounds.Basic
import Mathlib.Order.MinMax

/-! cert_expiration reads the certificates of a chain one behind the other, and returns when the
first of them expires. -/
namespace CertChain

open PortTask (Bytes)
open CertStore
open ReadChain

/-- The loop of cert_expiration as it stands, for fuel rounds at most; none when they are not
enough. -/
def certExpirationLoop (fromDer : Bytes → Except String (Bytes × Time)) :
    ℕ → Bytes → Time → Option (Except String Time)
  | 0, _, _ => none
  | fuel + 1, rem, expiration =>
    match fromDer rem with
    | .error err => some (.error err)
    | .ok (extra, notAfter) =>
      let expiration := if notAfter < expiration then notAfter else expiration
      if extra = [] then some (.ok expiration)
      else certExpirationLoop fromDer fuel extra expiration

def earliest (expiration : Time) (certs : List (Bytes × Time)) : Time :=
  certs.foldl (fun expiration cert => min cert.2 expiration) expiration

theorem isLeast_earliest (expiration : Time) (certs : List (Bytes × Time)) :
    IsLeast (insert expiration {notAfter | ∃ cert ∈ certs, cert.2 = notAfter})
      (earliest expiration certs) := by
  induction certs generalizing expiration with
  | nil => simp [earliest]
  | cons cert certs ih =>
    obtain ⟨hmem, hle⟩ := ih (min cert.2 expiration)
    change IsLeast _ (earliest (min cert.2 expiration) certs)
    have hfirst := hle (Set.mem_insert _ _)
    refine ⟨?_, ?_⟩
    · rcases hmem with heq | ⟨other, hother, heq⟩
      · rw [heq]
        rcases min_choice cert.2 expiration with hmin | hmin
        · exact Or.inr ⟨cert, List.mem_cons_self, hmin.symm⟩
        · exact Or.inl hmin
      · exact Or.inr ⟨other, List.mem_cons_of_mem _ hother, heq⟩
    · rintro notAfter (rfl | ⟨other, hother, rfl⟩)
      · exact hfirst.trans (min_le_right _ _)
      · rcases List.mem_cons.mp hother with rfl | hother
        · exact hfirst.trans (min_le_left _ _)
        · exact hle (Or.inr ⟨other, hother, rfl⟩)

section Loop

variable {K : Type*} (lib : CertLib K)

theorem fromDer_shortens : Shortens lib.fromDer := fun _ _ _ h => lib.fromDer_suffix h

variable {lib} {rem : Bytes}

theorem certExpirationFrom_error {err : String} (h : lib.fromDer rem = .error err)
    (expiration : Time) : certExpirationFrom lib rem expiration = .error err := by
  rw [certExpirationFrom]
  split
  · next err' h' =>
    rw [h] at h'
    cases h'
    rfl
  · next extra notAfter h' =>
    rw [h] at h'
    cases h'

theorem certExpirationFrom_ok {extra : Bytes} {notAfter : Time}
    (h : lib.fromDer rem = .ok (extra, notAfter)) (expiration : Time) :
    certExpirationFrom lib rem expiration =
      if extra = [] then .ok (min notAfter expiration)
      else certExpirationFrom lib extra (min notAfter expiration) := by
  rw [certExpirationFrom]
  split
  · next err h' =>
    rw [h] at h'
    cases h'
  · next extra' notAfter' h' =>
    rw [h] at h'
    cases h'
    rw [min_def_lt]

/-- Each round takes bytes away, so that there are at most as many rounds as bytes. -/
theorem certExpirationLoop_eq {fuel : ℕ} (h : rem.length < fuel) (expiration : Time) :
    certExpirationLoop lib.fromDer fuel rem expiration =
      some (certExpirationFrom lib rem expiration) := by
  induction fuel generalizing rem expiration with
  | zero => exact absurd h (Nat.not_lt_zero _)
  | succ fuel ih =>
    cases hread : lib.fromDer rem with
    | error err => simp only [certExpirationLoop, hread, certExpirationFrom_error hread]
    | ok p =>
      obtain ⟨extra, notAfter⟩ := p
      simp only [certExpirationLoop, hread, certExpirationFrom_ok hread, ← min_def_lt]
      have hshort := (lib.fromDer_suffix hread).2
      split
      · rfl
      · exact ih (by omega) _

theorem certExpirationFrom_eq_ok_iff {expiration result : Time} :
    certExpirationFrom lib rem expiration = .ok result ↔
      ∃ certs, Chain lib.fromDer certs rem ∧ earliest expiration certs = result := by
  constructor
  · intro h
    induction hlen : rem.length using Nat.strong_induction_on generalizing rem expiration with
    | _ n ih =>
      cases hread : lib.fromDer rem with
      | error err =>
        rw [certExpirationFrom_error hread] at h
        cases h
      | ok p =>
        obtain ⟨extra, notAfter⟩ := p
        rw [certExpirationFrom_ok hread] at h
        split at h
        · next hextra =>
          rw [hextra] at hread
          exact ⟨_, .one hread, Except.ok.inj h⟩
        · obtain ⟨⟨cert, rfl⟩, hshort⟩ := lib.fromDer_suffix hread
          obtain ⟨certs, hchain, hresult⟩ := ih extra.length (hlen ▸ hshort) h rfl
          exact ⟨_, .cons hread hchain, hresult⟩
  · rintro ⟨certs, hchain, rfl⟩
    induction hchain generalizing expiration with
    | one hread =>
      rw [certExpirationFrom_ok hread, if_pos rfl]
      rfl
    | cons hread hrest ih =>
      rw [certExpirationFrom_ok hread, if_neg (hrest.ne_nil (fromDer_shortens lib)), ih]
      rfl

end Loop

/-- cert_expiration returns for all bytes, in at most as many rounds as there are bytes and one.
It returns Ok when they are certificates one behind the other, and then the first moment when
one of them expires; the last day of the calendar is the latest. -/
theorem cert_expiration_scans_chain {K : Type*} (lib : CertLib K) (der : Bytes) :
    (∀ fuel, der.length < fuel →
      certExpirationLoop lib.fromDer fuel der maxDate = some (certExpiration lib der)) ∧
    ((∃ expiration, certExpiration lib der = .ok expiration) ↔
      ∃ certs, Chain lib.fromDer certs der) ∧
    (∀ expiration certs, certExpiration lib der = .ok expiration → Chain lib.fromDer certs der →
      IsLeast (insert maxDate {notAfter | ∃ cert ∈ certs, cert.2 = notAfter}) expiration) ∧
    (SelfDelimiting lib.fromDer → ∀ certs, Chain lib.fromDer certs der ↔
      certs ≠ [] ∧ der = (certs.map Prod.fst).flatten ∧
        ∀ cert ∈ certs, lib.fromDer cert.1 = .ok ([], cert.2)) := by
  refine ⟨fun fuel h => certExpirationLoop_eq h maxDate, ?_, ?_, fun h certs => chain_iff h⟩
  · constructor
    · rintro ⟨expiration, h⟩
      obtain ⟨certs, hchain, _⟩ := certExpirationFrom_eq_ok_iff.mp h
      exact ⟨certs, hchain⟩
    · rintro ⟨certs, hchain⟩
      exact ⟨_, certExpirationFrom_eq_ok_iff.mpr ⟨certs, hchain, rfl⟩⟩
  · intro expiration certs h hchain
    obtain ⟨certs', hchain', rfl⟩ := certExpirationFrom_eq_ok_iff.mp h
    rw [hchain.unique (fromDer_shortens lib) hchain']
    exact isLeast_earliest maxDate certs'

theorem byteCerts_selfDelimiting : SelfDelimiting Renewal.byteCerts.fromDer := by
  intro piece rest notAfter
  cases piece with
  | nil =>
    constructor
    · intro h
      have hlt := (Renewal.byteCerts.fromDer_suffix h).2
      exact absurd hlt (Nat.lt_irrefl _)
    · intro h
      cases h
  | cons b piece => simp [Renewal.byteCerts]

theorem cert_expiration_scans_two :
    certExpirationLoop Renewal.byteCerts.fromDer 3 [90, 60] maxDate =
        some (certExpiration Renewal.byteCerts [90, 60]) ∧
      Chain Renewal.byteCerts.fromDer [([90], 90 * day), ([60], 60 * day)] [90, 60] := by
  obtain ⟨hloop, _, _, hchain⟩ := cert_expiration_scans_chain Renewal.byteCerts [90, 60]
  refine ⟨hloop 3 (by decide), (hchain byteCerts_selfDelimiting _).mpr ⟨by simp, rfl, ?_⟩⟩
  simp only [List.mem_cons, List.not_mem_nil, or_false]
  rintro cert (rfl | rfl)
  · rfl
  · rfl

end CertChain
